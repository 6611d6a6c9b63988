import DataBinding.Proofs.Update.Commute

/-!
# Several updates in any order

Several groups of updates that set or delete are applied to an object one group after the other, each
group in its own order. If updates of different groups are independent in the object at the start, the
groups may be taken in any order. An update keeps the others independent, since it brings no new array
to the way of a path that is independent of its own.

* `Json.replacedAll`: the tree after a list of updates.
* `Independent.replacedAll`: paths that are independent at the start stay so.
* `replacedAll_flatten_perm`: the groups in another order, by induction on the permutation.
-/

namespace DataBinding.Json

/-- The tree after several places were set or deleted, one after the other. -/
def replacedAll (tree : Json) (writes : List (DataPath × Option Json)) : Json :=
  writes.foldl (fun tree write => tree.updated write.1 write.2 .replace) tree

theorem replacedAll_cons (tree : Json) (write : DataPath × Option Json)
    (writes : List (DataPath × Option Json)) :
    tree.replacedAll (write :: writes) =
      (tree.updated write.1 write.2 .replace).replacedAll writes := rfl

theorem replacedAll_append (tree : Json) (front back : List (DataPath × Option Json)) :
    tree.replacedAll (front ++ back) = (tree.replacedAll front).replacedAll back :=
  List.foldl_append

/-- The updates of one list are independent of those of the other. -/
def IndependentOf (tree : Json) (writes writes' : List (DataPath × Option Json)) : Prop :=
  ∀ write ∈ writes, ∀ write' ∈ writes', tree.Independent write.1 write'.1

theorem IndependentOf.symm {tree : Json} {writes writes' : List (DataPath × Option Json)}
    (h : tree.IndependentOf writes writes') : tree.IndependentOf writes' writes :=
  fun write hwrite write' hwrite' => (h write' hwrite' write hwrite).symm

section ReplacedAll

variable {tree other : Json} {writes writes' : List (DataPath × Option Json)}

theorem replacedAll_congr (h : tree == other) (writes : List (DataPath × Option Json)) :
    tree.replacedAll writes == other.replacedAll writes := by
  induction writes generalizing tree other with
  | nil => exact h
  | cons write writes ih =>
    rw [replacedAll_cons, replacedAll_cons]
    exact ih (updated_congr h write.1 write.2 .replace)

theorem isObject_replacedAll (htree : tree.isObject) (hroot : ∀ write ∈ writes, write.1 ≠ .root) :
    (tree.replacedAll writes).isObject := by
  induction writes generalizing tree with
  | nil => exact htree
  | cons write writes ih =>
    rw [List.forall_mem_cons] at hroot
    rw [replacedAll_cons]
    exact ih (isObject_updated htree hroot.1 write.2 .replace) hroot.2

/-- Updates that are independent of one of two paths keep them independent. -/
theorem Independent.replacedAll {p q : DataPath} (h : tree.Independent p q) (htree : tree.isObject)
    (hwrites : ∀ write ∈ writes, tree.Independent write.1 q) :
    (tree.replacedAll writes).Independent p q := by
  induction writes generalizing tree with
  | nil => exact h
  | cons write writes ih =>
    rw [List.forall_mem_cons] at hwrites
    rw [replacedAll_cons]
    refine ih (h.updated htree hwrites.1 write.2)
      (isObject_updated htree hwrites.1.isAside.ne_root write.2 .replace) ?_
    intro later hlater
    exact (hwrites.2 later hlater).updated htree hwrites.1 write.2

/-- One update may come before or after all those that it is independent of. -/
theorem replacedAll_updated_comm {p : DataPath} (htree : tree.isObject)
    (hwrites : ∀ write ∈ writes, tree.Independent p write.1) (value : Option Json) :
    (tree.updated p value .replace).replacedAll writes ==
      (tree.replacedAll writes).updated p value .replace := by
  induction writes generalizing tree with
  | nil => exact BEq.rfl
  | cons write writes ih =>
    rw [List.forall_mem_cons] at hwrites
    rw [replacedAll_cons, replacedAll_cons]
    have hswap := replacedAll_congr (hwrites.1.updated_comm htree value write.2) writes
    have hkept : ∀ later ∈ writes,
        (tree.updated write.1 write.2 .replace).Independent p later.1 := fun later hlater =>
      ((hwrites.2 later hlater).symm.updated htree hwrites.1.symm write.2).symm
    exact BEq.trans hswap
      (ih (isObject_updated htree hwrites.1.symm.isAside.ne_root write.2 .replace) hkept)

/-- Two lists of updates may be applied in either order. -/
theorem replacedAll_comm (htree : tree.isObject)
    (h : tree.IndependentOf writes writes') (hroot : ∀ write ∈ writes, write.1 ≠ .root) :
    (tree.replacedAll writes).replacedAll writes' ==
      (tree.replacedAll writes').replacedAll writes := by
  induction writes generalizing tree with
  | nil => exact BEq.rfl
  | cons write writes ih =>
    rw [IndependentOf, List.forall_mem_cons] at h
    rw [List.forall_mem_cons] at hroot
    rw [replacedAll_cons, replacedAll_cons]
    have hobject := isObject_updated htree hroot.1 write.2 .replace
    have hkept : (tree.updated write.1 write.2 .replace).IndependentOf writes writes' :=
      fun later hlater write' hwrite' =>
        (h.2 later hlater write' hwrite').updated htree (h.1 write' hwrite') write.2
    exact BEq.trans (ih hobject hkept hroot.2)
      (replacedAll_congr (replacedAll_updated_comm htree h.1 write.2) writes)

end ReplacedAll

/-- Groups of updates that are independent of each other may be applied in any order. -/
theorem replacedAll_flatten_perm {tree : Json} {groups groups' : List (List (DataPath × Option Json))}
    (hperm : groups.Perm groups') (htree : tree.isObject)
    (hindependent : groups.Pairwise tree.IndependentOf)
    (hroot : ∀ group ∈ groups, ∀ write ∈ group, write.1 ≠ .root) :
    tree.replacedAll groups.flatten == tree.replacedAll groups'.flatten := by
  induction hperm generalizing tree with
  | nil => exact BEq.rfl
  | @cons group groups groups' hperm ih =>
    rw [List.pairwise_cons] at hindependent
    rw [List.forall_mem_cons] at hroot
    rw [List.flatten_cons, List.flatten_cons, replacedAll_append, replacedAll_append]
    refine ih (isObject_replacedAll htree hroot.1) ?_ hroot.2
    refine hindependent.2.imp_of_mem fun _ hlater hpair write hwrite write' hwrite' => ?_
    exact (hpair write hwrite write' hwrite').replacedAll htree fun first hfirst =>
      hindependent.1 _ hlater first hfirst write' hwrite'
  | swap group group' groups =>
    rw [List.pairwise_cons, List.pairwise_cons] at hindependent
    rw [List.forall_mem_cons] at hroot
    simp only [List.flatten_cons, replacedAll_append]
    refine replacedAll_congr (replacedAll_comm htree ?_ hroot.1) groups.flatten
    exact hindependent.1 group List.mem_cons_self
  | @trans groups middle groups' hperm hperm' ih ih' =>
    refine BEq.trans (ih htree hindependent hroot) (ih' htree ?_ ?_)
    · exact (hperm.pairwise_iff IndependentOf.symm).mp hindependent
    · exact fun group hgroup => hroot group (hperm.mem_iff.mpr hgroup)

end DataBinding.Json
