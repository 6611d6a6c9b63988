import DataBinding.Mapping
import DataBinding.Proofs.Nested.Projection
import DataBinding.Proofs.Reference.InsideRoot

/-!
# A simple mapping is all or nothing

A simple mapping plans all its writes before it makes the first. Planning looks at the response and at
the scopes of the context, never at the target, so no write sees the ones before it. And what is
planned is below the root of the global scope: a store with this root segment refuses none of the
writes, so nothing can stop the mapping halfway.

* `SimpleMapping.Planned`: the list that is carried out, with the write of each of its entries.
* `planAll_eq_ok`: a plan is made from one list, in its order.
* `isUnderRoot_of_planItem`: a planned write is below the root.
* `SharedStore.Makes`, `writeAll_spec`: writes below the root, carried out one after the other.
* `simpleMapping_all_or_nothing`: both phases together.
-/

namespace DataBinding

theorem except_bind_eq_ok {ε α β : Type} {x : Except ε α} {f : α → Except ε β} {b : β}
    (h : x >>= f = .ok b) : ∃ a, x = .ok a ∧ f a = .ok b := by
  cases x with
  | error error => cases h
  | ok a => exact ⟨a, rfl, h⟩

/-! ## Planning -/

namespace SimpleMapping

variable {source : String → Except BindingError (Option Json)} {ctx : BindingContext}
  {evaluator : Evaluator}

/-- The write of each entry of a list, if it has one, or the first error. -/
def planEach (source : String → Except BindingError (Option Json)) (ctx : BindingContext)
    (evaluator : Evaluator) (entries : List (String × Json)) :
    Except BindingError (List (Option PlannedWrite)) :=
  entries.mapM fun entry => planItem source ctx evaluator entry.1 entry.2

/-- A plan is what is left of the entries, in their order. -/
theorem plan_eq (source : String → Except BindingError (Option Json)) (ctx : BindingContext)
    (evaluator : Evaluator) (entries : List (String × Json)) :
    plan source ctx evaluator entries =
      (planEach source ctx evaluator entries).map (·.filterMap id) := by
  induction entries with
  | nil => rfl
  | cons entry entries ih =>
    obtain ⟨destination, item⟩ := entry
    rw [plan, ih, planEach, planEach, List.mapM_cons]
    cases planItem source ctx evaluator destination item with
    | error error => rfl
    | ok write =>
      cases entries.mapM fun entry => planItem source ctx evaluator entry.1 entry.2 with
      | error error => rfl
      | ok writes => cases write <;> rfl

/-- The list that a mapping carries out, and the write of each entry of it, if it has one. The sources
are in the response, or in the data once planning that has failed. -/
inductive Planned (m : SimpleMapping) (response : Json) (ctx : BindingContext)
    (evaluator : Evaluator) : List (String × Json) → List (Option PlannedWrite) → Prop where
  | ofResponse {writes : List (Option PlannedWrite)}
      (h : planEach (fromResponse response) ctx evaluator m.stringMap = .ok writes) :
      Planned m response ctx evaluator m.stringMap writes
  | onError {error : BindingError} {entries : List (String × Json)}
      {writes : List (Option PlannedWrite)}
      (hfailed : planEach (fromResponse response) ctx evaluator m.stringMap = .error error)
      (hentries : m.onErrorMap = some entries)
      (h : planEach (fromData ctx evaluator) ctx evaluator entries = .ok writes) :
      Planned m response ctx evaluator entries writes

theorem planAll_eq_ok {m : SimpleMapping} {response : Json} {writes : List PlannedWrite}
    (h : m.planAll response ctx evaluator = .ok writes) :
    ∃ entries kept, m.Planned response ctx evaluator entries kept ∧ writes = kept.filterMap id := by
  unfold planAll at h
  rw [plan_eq] at h
  cases hplanned : planEach (fromResponse response) ctx evaluator m.stringMap with
  | ok kept =>
    rw [hplanned] at h
    cases h
    exact ⟨m.stringMap, kept, .ofResponse hplanned, rfl⟩
  | error error =>
    rw [hplanned] at h
    cases hentries : m.onErrorMap with
    | none =>
      rw [hentries] at h
      cases h
    | some entries =>
      rw [hentries] at h
      dsimp only [Except.map] at h
      rw [plan_eq] at h
      cases hinstead : planEach (fromData ctx evaluator) ctx evaluator entries with
      | error error =>
        rw [hinstead] at h
        cases h
      | ok kept =>
        rw [hinstead] at h
        cases h
        exact ⟨entries, kept, .onError hplanned hentries hinstead, rfl⟩

/-- An entry gets a write below the root only. -/
theorem isUnderRoot_of_planItem {destination : String} {item : Json} {write : PlannedWrite}
    (h : planItem source ctx evaluator destination item = .ok (some write)) :
    isUnderRoot write.path ctx.globalScope.path := by
  unfold planItem at h
  split at h
  · cases h
  · split at h
    · obtain ⟨path, -, hrest⟩ := except_bind_eq_ok h
      split at hrest
      · cases hrest
      · rename_i hunder
        -- The path is settled; the rest decides on the value alone.
        suffices hwrite : write.path = path by simpa [hwrite] using hunder
        split at hrest
        · cases hrest
          rfl
        · split at hrest
          · cases hrest
          · split at hrest
            · obtain ⟨value, -, hvalue⟩ := except_bind_eq_ok hrest
              cases hvalue
              rfl
            · cases hrest
    · cases h

/-- All of a plan is below the root. -/
theorem isUnderRoot_of_planEach {entries : List (String × Json)}
    {kept : List (Option PlannedWrite)}
    (h : planEach source ctx evaluator entries = .ok kept) :
    ∀ write ∈ kept.filterMap id, isUnderRoot write.path ctx.globalScope.path := by
  intro write hwrite
  have hkept : some write ∈ kept := by simpa using hwrite
  obtain ⟨entry, -, hentry⟩ := mem_of_mapM h hkept
  exact isUnderRoot_of_planItem hentry

theorem Planned.isUnderRoot {m : SimpleMapping} {response : Json} {entries : List (String × Json)}
    {kept : List (Option PlannedWrite)} (h : m.Planned response ctx evaluator entries kept) :
    ∀ write ∈ kept.filterMap id, isUnderRoot write.path ctx.globalScope.path := by
  cases h with
  | ofResponse h => exact isUnderRoot_of_planEach h
  | onError _ _ h => exact isUnderRoot_of_planEach h

end SimpleMapping

/-! ## Writing -/

/-- A path at or below the root is one that the store of this root takes. -/
theorem exists_relativeToRoot_of_isUnderRoot {path root : String} (h : isUnderRoot path root) :
    ∃ relative, relativeToRoot path root = .ok relative :=
  exists_relativeToRoot_iff.mpr (isUnderRoot_iff.mp h)

/-- One update at an absolute path for each write, in order, all of them answered. -/
inductive SharedStore.Makes : SharedStore → List PlannedWrite → SharedStore → Prop where
  | nil (s : SharedStore) : Makes s [] s
  | cons {s next after : SharedStore} {outcome : UpdateOutcome} {write : PlannedWrite}
      {writes : List PlannedWrite}
      (h : s.updateAbsolute write.path write.value write.mode = (.ok outcome, next))
      (hrest : Makes next writes after) : Makes s (write :: writes) after

namespace SimpleMapping

variable {s : SharedStore} {writes : List PlannedWrite}

/-- Writes below the root are all made. -/
theorem writeAll_of_open (hopen : s.poisoned = false)
    (hwrites : ∀ write ∈ writes, isUnderRoot write.path s.store.settings.rootSegment) :
    ∃ after, writeAll writes (.root s) = (.ok (), .root after) ∧ s.Makes writes after := by
  induction writes generalizing s with
  | nil => exact ⟨s, rfl, .nil s⟩
  | cons write writes ih =>
    rw [List.forall_mem_cons] at hwrites
    obtain ⟨relative, hrelative⟩ := exists_relativeToRoot_of_isUnderRoot hwrites.1
    obtain ⟨outcome, next, hcall, hfollows, -⟩ :=
      SharedStore.updateAbsolute_of_open hopen hrelative write.value write.mode
    obtain ⟨after, hafter, hmakes⟩ := ih (hfollows.poisoned.trans hopen) (by
      rw [hfollows.settings]
      exact hwrites.2)
    refine ⟨after, ?_, .cons hcall hmakes⟩
    rw [writeAll, Target.updateAbsolute, hcall]
    exact hafter

/-- A poisoned store refuses the first write, so nothing is left half done either. -/
theorem writeAll_of_poisoned (hpoisoned : s.poisoned = true) (writes : List PlannedWrite) :
    writes = [] ∨
      writeAll writes (.root s) = (.error (.store .poisoned), .root s) := by
  cases writes with
  | nil => exact Or.inl rfl
  | cons write writes =>
    right
    rw [writeAll, Target.updateAbsolute, SharedStore.updateAbsolute, SharedStore.run,
      SharedStore.access, if_pos hpoisoned]

end SimpleMapping

/-- **A simple mapping is all or nothing.** Let the global scope have the root segment of a root store.
Then a simple mapping either fails and leaves the store as it was, or it makes the writes of one list,
one for each entry that has one and in the order of the list, and all of them are answered. What they
write and where is planned from the response and the scopes of the context. -/
theorem simpleMapping_all_or_nothing (config response : Json) (ctx : BindingContext)
    (evaluator : Evaluator) {s : SharedStore}
    (hroot : ctx.globalScope.path = s.store.settings.rootSegment) :
    (∃ error, simpleMapping config response ctx evaluator (.root s) = (.error error, .root s)) ∨
      ∃ mapping entries kept after, SimpleMapping.ofJson? config = some mapping ∧
        mapping.Planned response ctx evaluator entries kept ∧
        simpleMapping config response ctx evaluator (.root s) = (.ok (), .root after) ∧
        s.Makes (kept.filterMap id) after := by
  unfold simpleMapping
  cases hmapping : SimpleMapping.ofJson? config with
  | none => exact Or.inl ⟨_, rfl⟩
  | some mapping =>
    dsimp only
    unfold SimpleMapping.apply
    cases hplan : mapping.planAll response ctx evaluator with
    | error error => exact Or.inl ⟨error, rfl⟩
    | ok writes =>
      obtain ⟨entries, kept, hplanned, rfl⟩ := SimpleMapping.planAll_eq_ok hplan
      cases hpoisoned : s.poisoned with
      | true =>
        rcases SimpleMapping.writeAll_of_poisoned hpoisoned (kept.filterMap id) with
          hnone | hrefused
        · refine Or.inr ⟨mapping, entries, kept, s, rfl, hplanned, ?_, ?_⟩
          · rw [hnone]
            rfl
          · rw [hnone]
            exact .nil s
        · exact Or.inl ⟨_, hrefused⟩
      | false =>
        have hwrites := hplanned.isUnderRoot
        rw [hroot] at hwrites
        obtain ⟨after, hafter, hmakes⟩ := SimpleMapping.writeAll_of_open hpoisoned hwrites
        exact Or.inr ⟨mapping, entries, kept, after, rfl, hplanned, hafter, hmakes⟩

/-- The name is in the response and is written; the age is missing, not required, and left out. -/
theorem simpleMapping_all_or_nothing_for_name :
    ∃ mapping entries kept after,
      SimpleMapping.ofJson? (.object [("stringMap", .object
          [("~~.name", .object [("value", .string "user.name")]),
            ("~~.age", .object [("value", .string "user.age"), ("required", .bool false)])])]) =
        some mapping ∧
      mapping.Planned (.object [("user", .object [("name", .string "x")])])
        (.ofGlobal ⟨.object [], "data"⟩) {} entries kept ∧
      simpleMapping (.object [("stringMap", .object
          [("~~.name", .object [("value", .string "user.name")]),
            ("~~.age", .object [("value", .string "user.age"), ("required", .bool false)])])])
          (.object [("user", .object [("name", .string "x")])])
          (.ofGlobal ⟨.object [], "data"⟩) {} (.root { store := .empty }) =
        (.ok (), .root after) ∧
      SharedStore.Makes { store := .empty } (kept.filterMap id) after := by
  rcases simpleMapping_all_or_nothing (s := { store := .empty }) (.object [("stringMap", .object
      [("~~.name", .object [("value", .string "user.name")]),
        ("~~.age", .object [("value", .string "user.age"), ("required", .bool false)])])])
      (.object [("user", .object [("name", .string "x")])]) (.ofGlobal ⟨.object [], "data"⟩) {}
      rfl with ⟨error, herror⟩ | hdone
  · have hanswer := congrArg Prod.fst herror
    change Except.ok () = Except.error error at hanswer
    cases hanswer
  · exact hdone

end DataBinding
