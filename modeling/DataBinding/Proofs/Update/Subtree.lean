import DataBinding.Proofs.Update.Congruence
import DataBinding.Proofs.Update.Lens

/-!
# Updates through a subtree

An update whose path starts with the way to an array or object of the tree is an update of what is
there: the way down is not changed by it, the probe decides as it would decide there, and the tree
changes if and only if the part does.

The path of an update is given as `first :: rest`, with `first :: rest = front ++ segment :: back`
saying that `front` leads to the part and the update goes on with `segment`.

* `isEffective_append`, `get?_writeBelow_append`: the probe and the write pass through the part.
* `writeBelow_beq_iff`: the whole is left equal if and only if the part is.
* `get?_updated_append`: an object in an object is updated as if it stood alone.
-/

namespace DataBinding.Json

section Below

variable {container inner : Json} {first segment : String} {rest front back : List String}
  (hread : container.get? front = some inner) (hinner : inner.isComposite)
  (hpath : first :: rest = front ++ segment :: back)

include hread hinner hpath

theorem isEffective_append (value : Option Json) (mode : UpdateMode) :
    (Probe.node container).isEffective value mode first rest =
      (Probe.node inner).isEffective value mode segment back := by
  induction front generalizing container first rest with
  | nil =>
    cases hpath
    cases hread
    rfl
  | cons step front ih =>
    obtain ⟨rfl, hrest⟩ := List.cons.inj hpath
    obtain ⟨next, segments, rfl⟩ := List.exists_cons_of_ne_nil (l := rest) (by simp [hrest])
    have hcontainer := isComposite_of_get? hread hinner
    obtain ⟨child, hchild, hbelow⟩ := Option.bind_eq_some_iff.mp hread
    have hcomposite := isComposite_of_get? hbelow hinner
    rw [isEffective_cons hcontainer (accepts_of_child? hchild), hchild, Probe.ofChild,
      if_pos hcomposite]
    exact ih hbelow hrest

theorem get?_writeBelow_append (value : Option Json) (mode : UpdateMode) :
    (writeBelow value mode container first rest).get? front =
      some (writeBelow value mode inner segment back) := by
  induction front generalizing container first rest with
  | nil =>
    cases hpath
    cases hread
    rfl
  | cons step front ih =>
    obtain ⟨rfl, hrest⟩ := List.cons.inj hpath
    obtain ⟨next, segments, rfl⟩ := List.exists_cons_of_ne_nil (l := rest) (by simp [hrest])
    obtain ⟨child, hchild, hbelow⟩ := Option.bind_eq_some_iff.mp hread
    have hcomposite := isComposite_of_get? hbelow hinner
    rw [get?_writeBelow_cons (accepts_of_child? hchild), hchild, asContainer_some hcomposite]
    exact ih hbelow hrest

theorem writeBelow_beq_iff (value : Option Json) (mode : UpdateMode) :
    writeBelow value mode container first rest == container ↔
      writeBelow value mode inner segment back == inner := by
  constructor
  · intro h
    have hfront := get?_beq h front
    rw [get?_writeBelow_append hread hinner hpath, hread] at hfront
    exact hfront
  · intro h
    induction front generalizing container first rest with
    | nil =>
      cases hpath
      cases hread
      exact h
    | cons step front ih =>
      obtain ⟨rfl, hrest⟩ := List.cons.inj hpath
      obtain ⟨next, segments, rfl⟩ := List.exists_cons_of_ne_nil (l := rest) (by simp [hrest])
      obtain ⟨child, hchild, hbelow⟩ := Option.bind_eq_some_iff.mp hread
      have hcomposite := isComposite_of_get? hbelow hinner
      have hsame := ih hbelow hrest
      rw [writeBelow, hchild, asContainer_some hcomposite]
      refine setChild_beq ?_
      rw [hchild]
      exact BEq.symm hsame

end Below

/-! ## On whole trees -/

theorem updated_of_isEffective {tree : Json} {path : DataPath} {value : Option Json}
    {mode : UpdateMode} (h : tree.isEffective path value mode) :
    tree.updated path value mode = tree.write path value mode := by
  rw [updated, update?, if_pos h]
  rfl

theorem updated_of_not_isEffective {tree : Json} {path : DataPath} {value : Option Json}
    {mode : UpdateMode} (h : tree.isEffective path value mode = false) :
    tree.updated path value mode = tree := by
  rw [updated, update?_eq_none_iff.mpr h]
  rfl

/-- An object in an object is updated as if it stood alone. -/
theorem get?_updated_append {members inner : List (String × Json)} {front : List String}
    (hread : (Json.object members).get? front = some (.object inner)) (segment : String)
    (back : List String) (value : Option Json) (mode : UpdateMode) :
    ((Json.object members).updated ⟨front ++ segment :: back⟩ value mode).get? front =
      some ((Json.object inner).updated ⟨segment :: back⟩ value mode) := by
  obtain ⟨first, rest, hpath⟩ :=
    List.exists_cons_of_ne_nil (l := front ++ segment :: back) (by simp)
  have hprobe : (Json.object members).isEffective ⟨first :: rest⟩ value mode =
      (Json.object inner).isEffective ⟨segment :: back⟩ value mode := by
    rw [isEffective_object, isEffective_object]
    exact isEffective_append hread rfl hpath.symm value mode
  rw [hpath]
  cases heffective : (Json.object inner).isEffective ⟨segment :: back⟩ value mode with
  | false =>
    rw [updated_of_not_isEffective (hprobe.trans heffective),
      updated_of_not_isEffective heffective]
    exact hread
  | true =>
    rw [updated_of_isEffective (hprobe.trans heffective), updated_of_isEffective heffective]
    exact get?_writeBelow_append hread rfl hpath.symm value mode

end DataBinding.Json
