import DataBinding.Proofs.Update.Child

/-!
# One step of a descent

The probe, the write and the reader go down one path independently of each other. This file says what
each of them does at one container, so that a fact about whole paths is an induction on the segments
with one case for a container that does not accept its segment and one for a container that does.

* `IsBlocked`: an array on the way is addressed by a segment that denotes no index.
* `isBlocked_cons`, `isEffective_cons`, `get?_writeBelow_cons`: the step of each descent.
* `ofChild_cases`: the probe and the write go on in step. Either both go into the container that is
  there, or the probe notes that the write makes an empty object.
* `Json.updated`: the tree that an update leaves, whether it had an effect or not.
-/

namespace DataBinding.Json

/-! ## Blocked paths -/

/-- A front of the segments reads as an array, and the segment after it denotes no index. -/
def IsBlocked (value : Json) (segments : List String) : Prop :=
  ∃ front segment back items, segments = front ++ segment :: back ∧
    value.get? front = some (.array items) ∧ Text.arrayIndex? segment = none

section Blocked

variable {container : Json} {segment : String} {segments : List String}

theorem not_isBlocked_nil (value : Json) : ¬ value.IsBlocked [] := by
  rintro ⟨front, segment, back, items, hsegments, -⟩
  simp at hsegments

theorem accepts_eq_false_iff (hcontainer : container.isComposite) :
    container.accepts segment = false ↔
      ∃ items, container = .array items ∧ Text.arrayIndex? segment = none := by
  cases container <;> simp_all [accepts, isComposite]

theorem isBlocked_cons (hcontainer : container.isComposite) :
    container.IsBlocked (segment :: segments) ↔
      container.accepts segment = false ∨
        ∃ child, container.child? segment = some child ∧ child.IsBlocked segments := by
  rw [accepts_eq_false_iff hcontainer]
  constructor
  · rintro ⟨front, stop, back, items, hsegments, hread, hindex⟩
    cases front with
    | nil =>
      cases hsegments
      exact Or.inl ⟨items, Option.some.inj hread, hindex⟩
    | cons first front =>
      cases hsegments
      obtain ⟨child, hchild, hread⟩ := Option.bind_eq_some_iff.mp hread
      exact Or.inr ⟨child, hchild, front, stop, back, items, rfl, hread, hindex⟩
  · rintro (⟨items, rfl, hindex⟩ | ⟨child, hchild, front, stop, back, items, rfl, hread, hindex⟩)
    · exact ⟨[], segment, segments, items, rfl, rfl, hindex⟩
    · refine ⟨segment :: front, stop, back, items, rfl, ?_, hindex⟩
      rw [get?, hchild, Option.bind_some, hread]

theorem accepts_of_not_isBlocked (hcontainer : container.isComposite)
    (h : ¬ container.IsBlocked (segment :: segments)) : container.accepts segment := by
  cases haccepts : container.accepts segment with
  | true => rfl
  | false => exact absurd ((isBlocked_cons hcontainer).mpr (Or.inl haccepts)) h

theorem isComposite_of_isBlocked {value : Json} (h : value.IsBlocked segments) :
    value.isComposite := by
  obtain ⟨front, stop, back, items, -, hread, -⟩ := h
  exact isComposite_of_get? hread rfl

theorem IsBlocked.at?_eq_none {tree : Json} {path : DataPath} (h : tree.IsBlocked path.segments) :
    tree.at? path = none := by
  obtain ⟨front, segment, back, items, hpath, hread, hindex⟩ := h
  rw [at?, hpath, get?_append, hread, Option.bind_some, get?, child?, hindex]
  rfl

/-- A path that reads something is not blocked. -/
theorem not_isBlocked_of_at? {tree found : Json} {path : DataPath} (h : tree.at? path = some found) :
    ¬ tree.IsBlocked path.segments := by
  intro hblocked
  rw [hblocked.at?_eq_none] at h
  cases h

/-- What is blocked below a container for going down was blocked below what stood there before. -/
theorem isBlocked_asContainer {found : Option Json}
    (h : (asContainer found).IsBlocked (segment :: segments)) :
    ∃ child, found = some child ∧ child.IsBlocked (segment :: segments) := by
  cases found with
  | none =>
    rw [isBlocked_cons (isComposite_asContainer none)] at h
    rcases h with h | ⟨child, hchild, -⟩
    · cases h
    · cases hchild
  | some value =>
    cases hvalue : value.isComposite with
    | true =>
      rw [asContainer_some hvalue] at h
      exact ⟨value, rfl, h⟩
    | false =>
      rw [asContainer_of_not_isComposite hvalue, isBlocked_cons rfl] at h
      rcases h with h | ⟨child, hchild, -⟩
      · cases h
      · cases hchild

end Blocked

/-! ## The probe -/

attribute [simp] Probe.isEffective

section Probe

variable {container : Json} {segment : String}

/-- In a new object only the value and the mode count. -/
theorem isEffective_fresh (value : Option Json) (mode : UpdateMode) (segment : String)
    (segments : List String) :
    Probe.fresh.isEffective value mode segment segments = isFreshEffective value mode := by
  induction segments generalizing segment with
  | nil => rfl
  | cons next segments ih => exact ih next

/-- A container that does not accept the segment makes the update a no-op. -/
theorem isEffective_of_not_accepts (hcontainer : container.isComposite)
    (h : container.accepts segment = false) (value : Option Json) (mode : UpdateMode)
    (segments : List String) :
    (Probe.node container).isEffective value mode segment segments = false := by
  obtain ⟨items, rfl, hindex⟩ := (accepts_eq_false_iff hcontainer).mp h
  cases segments <;> simp [isArray, hindex]

theorem isEffective_cons (hcontainer : container.isComposite)
    (h : container.accepts segment) (value : Option Json) (mode : UpdateMode) (next : String)
    (segments : List String) :
    (Probe.node container).isEffective value mode segment (next :: segments) =
      (Probe.ofChild (container.child? segment)).isEffective value mode next segments := by
  cases container with
  | object members => simp [isArray]
  | array items =>
    have hindex : ¬ Text.arrayIndex? segment = none := by
      intro hnone
      simp [accepts, hnone] at h
    simp [isArray, hindex]
  | _ => cases hcontainer

/-- The probe and the write go on in step. -/
theorem ofChild_cases (found : Option Json) :
    (∃ child, found = some child ∧ child.isComposite ∧ Probe.ofChild found = .node child ∧
        asContainer found = child) ∨
      (Probe.ofChild found = .fresh ∧ asContainer found = .object [] ∧
        ∀ child, found = some child → child.isComposite = false) := by
  cases found with
  | none => exact Or.inr ⟨rfl, rfl, by simp⟩
  | some value =>
    cases hvalue : value.isComposite with
    | true =>
      refine Or.inl ⟨value, rfl, hvalue, ?_, asContainer_some hvalue⟩
      rw [Probe.ofChild, if_pos hvalue]
    | false =>
      refine Or.inr ⟨?_, asContainer_of_not_isComposite hvalue, ?_⟩
      · rw [Probe.ofChild, hvalue]
        rfl
      · rintro child ⟨⟩
        exact hvalue

end Probe

/-! ## The write -/

theorem get?_singleton (value : Json) (segment : String) :
    value.get? [segment] = value.child? segment := by
  rw [get?]
  cases value.child? segment <;> rfl

theorem isComposite_editItems (container : Json) (segment : String)
    (edit : List Json → Nat → List Json) :
    (container.editItems segment edit).isComposite = container.isComposite := by
  unfold editItems
  split <;> rfl

theorem isComposite_updateChild (container : Json) (segment : String) (value : Option Json)
    (mode : UpdateMode) :
    (container.updateChild segment value mode).isComposite = container.isComposite := by
  cases mode with
  | replace =>
    cases value with
    | some value => exact isComposite_setChild container segment value
    | none =>
      cases container with
      | array items => exact isComposite_editItems (.array items) segment _
      | _ => rfl
  | add =>
    cases value with
    | some value => exact isComposite_setChild container segment _
    | none => rfl
  | remove => exact isComposite_editItems container segment _
  | move => exact isComposite_editItems container segment _

/-- A write keeps a container a container. -/
theorem isComposite_writeBelow (value : Option Json) (mode : UpdateMode) (container : Json)
    (segment : String) (segments : List String) :
    (writeBelow value mode container segment segments).isComposite = container.isComposite := by
  cases segments with
  | nil => exact isComposite_updateChild container segment value mode
  | cons next segments => exact isComposite_setChild container segment _

/-- What was written below a segment is read below it. -/
theorem get?_writeBelow_cons {container : Json} {segment : String}
    (h : container.accepts segment) (value : Option Json) (mode : UpdateMode) (next : String)
    (segments path : List String) :
    (writeBelow value mode container segment (next :: segments)).get? (segment :: path) =
      (writeBelow value mode (asContainer (container.child? segment)) next segments).get?
        path := by
  rw [writeBelow, get?, child?_setChild h, Option.bind_some]

theorem writeBelow_cons_of_not_accepts {container : Json} {segment : String}
    (h : container.accepts segment = false) (value : Option Json) (mode : UpdateMode)
    (next : String) (segments : List String) :
    writeBelow value mode container segment (next :: segments) = container :=
  setChild_of_not_accepts h _

/-- The tree that an update leaves: the new one, or the old one after a no-op. -/
def updated (tree : Json) (path : DataPath) (value : Option Json) (mode : UpdateMode) : Json :=
  (tree.update? path value mode).getD tree

end DataBinding.Json
