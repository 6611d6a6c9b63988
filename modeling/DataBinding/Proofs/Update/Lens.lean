import DataBinding.Proofs.Update.Descent

/-!
# The laws of setting a value

Setting a value at a path is a lens on trees, for every tree, path and value.

* `PutsChild`, `get?_writeBelow_made`: a write that puts a child made of the one in its place; what it
  made is read back, unless the path is blocked.
* `TakesChild`, `isEffective_iff_of_takesChild`: a probe that looks at the value in place alone finds an
  effect unless the path is blocked or this value is not taken.
* `get?_writeBelow`, `isEffective_replace`: both for setting a value. It has an effect unless an equal
  value is in its place.
* `writeBelow_beq`: a write to which the probe denies an effect would have given an equal tree. So
  the tree an update leaves equals the written one in every case (`updated_beq_write`).
* `write_write`: of two values written at one path nothing of the first is left.
* `replace_lens_laws`: the three laws together.
-/

namespace DataBinding.Json

/-! ## Below a container -/

section Below

variable {container : Json} {segment : String} {segments : List String}

/-- At the end of its path an update puts a child that is made of the one in its place. -/
def PutsChild (value : Option Json) (mode : UpdateMode) (make : Option Json → Json) : Prop :=
  ∀ (container : Json) (segment : String),
    container.updateChild segment value mode =
      container.setChild segment (make (container.child? segment))

theorem putsChild_replace (value : Json) : PutsChild (some value) .replace fun _ => value :=
  fun _ _ => rfl

/-- What was made of the value at the path is read there. -/
theorem get?_writeBelow_made {value : Option Json} {mode : UpdateMode} {make : Option Json → Json}
    (hputs : PutsChild value mode make) (hcontainer : container.isComposite)
    (hfree : ¬ container.IsBlocked (segment :: segments)) :
    (writeBelow value mode container segment segments).get? (segment :: segments) =
      some (make (container.get? (segment :: segments))) := by
  have haccepts := accepts_of_not_isBlocked hcontainer hfree
  induction segments generalizing container segment with
  | nil =>
    rw [get?_singleton, get?_singleton, writeBelow, hputs]
    exact child?_setChild haccepts _
  | cons next segments ih =>
    have hbelow : ¬ (asContainer (container.child? segment)).IsBlocked (next :: segments) :=
      fun hblocked => hfree ((isBlocked_cons hcontainer).mpr (Or.inr (isBlocked_asContainer hblocked)))
    have hchild := isComposite_asContainer (container.child? segment)
    rw [get?_writeBelow_cons haccepts,
      ih hchild hbelow (accepts_of_not_isBlocked hchild hbelow),
      get?_asContainer _ (List.cons_ne_nil next segments)]
    rfl

/-- Put, then get. -/
theorem get?_writeBelow (hcontainer : container.isComposite)
    (hfree : ¬ container.IsBlocked (segment :: segments)) (value : Json) :
    (writeBelow (some value) .replace container segment segments).get? (segment :: segments) =
      some value :=
  get?_writeBelow_made (putsChild_replace value) hcontainer hfree

/-- Whether an update has an effect is decided by the child at the end of its path alone, and it has one
where nothing is there. -/
structure TakesChild (value : Option Json) (mode : UpdateMode) (takes : Option Json → Bool) :
    Prop where
  fresh : isFreshEffective value mode
  absent : takes none
  child : ∀ {container : Json} {segment : String}, container.accepts segment →
    (Probe.node container).isEffective value mode segment [] = takes (container.child? segment)

/-- The probe finds an effect unless the path is blocked or the value there is not taken. -/
theorem isEffective_iff_of_takesChild {value : Option Json} {mode : UpdateMode}
    {takes : Option Json → Bool} (htakes : TakesChild value mode takes)
    (hcontainer : container.isComposite) :
    (Probe.node container).isEffective value mode segment segments ↔
      ¬ container.IsBlocked (segment :: segments) ∧
        takes (container.get? (segment :: segments)) := by
  induction segments generalizing container segment with
  | nil =>
    rw [isBlocked_cons hcontainer]
    cases haccepts : container.accepts segment with
    | false =>
      rw [isEffective_of_not_accepts hcontainer haccepts]
      simp
    | true =>
      rw [htakes.child haccepts, get?_singleton]
      simp [not_isBlocked_nil]
  | cons next segments ih =>
    rw [isBlocked_cons hcontainer]
    cases haccepts : container.accepts segment with
    | false =>
      rw [isEffective_of_not_accepts hcontainer haccepts]
      simp
    | true =>
      rw [isEffective_cons hcontainer haccepts, get?]
      rcases ofChild_cases (container.child? segment) with
        ⟨child, hchild, hcomposite, hprobe, -⟩ | ⟨hprobe, -, hscalar⟩
      · rw [hprobe, ih hcomposite, hchild]
        simp
      · -- The write makes an object here, so nothing was below and nothing could block.
        have hread : (container.child? segment).bind (get? · (next :: segments)) = none := by
          rw [Option.bind_eq_none_iff]
          intro child hchild
          exact get?_cons_of_not_isComposite (hscalar child hchild) next segments
        have hfree : ¬ ∃ child, container.child? segment = some child ∧
            child.IsBlocked (next :: segments) := by
          rintro ⟨child, hchild, hblocked⟩
          have := isComposite_of_isBlocked hblocked
          rw [hscalar child hchild] at this
          cases this
        rw [hprobe, isEffective_fresh, hread]
        simp [htakes.fresh, htakes.absent, hfree]

theorem isEffective_replace_nil (haccepts : container.accepts segment) (value : Json) :
    (Probe.node container).isEffective (some value) .replace segment [] =
      !(container.child? segment == some value) := by
  cases container with
  | object members => rfl
  | array items =>
    obtain ⟨index, hindex⟩ := Option.isSome_iff_exists.mp haccepts
    simp [isElementEffective, child?, hindex]
  | _ => cases haccepts

theorem takesChild_replace (value : Json) :
    TakesChild (some value) .replace fun found => !(found == some value) where
  fresh := rfl
  absent := rfl
  child haccepts := isEffective_replace_nil haccepts value

/-- The probe finds an effect unless the path is blocked or reads as an equal value. -/
theorem isEffective_replace (hcontainer : container.isComposite) (value : Json) :
    (Probe.node container).isEffective (some value) .replace segment segments ↔
      ¬ container.IsBlocked (segment :: segments) ∧
        ¬ container.get? (segment :: segments) == some value := by
  rw [isEffective_iff_of_takesChild (takesChild_replace value) hcontainer, Bool.not_eq_eq_eq_not,
    Bool.not_true, Bool.not_eq_true]

/-- A write to which the probe denies an effect gives an equal container. -/
theorem writeBelow_beq (hcontainer : container.isComposite) {value : Json}
    (h : (Probe.node container).isEffective (some value) .replace segment segments = false) :
    writeBelow (some value) .replace container segment segments == container := by
  induction segments generalizing container segment with
  | nil =>
    cases haccepts : container.accepts segment with
    | false =>
      change container.setChild segment value == container
      rw [setChild_of_not_accepts haccepts]
      exact BEq.rfl
    | true =>
      rw [isEffective_replace_nil haccepts, Bool.not_eq_false'] at h
      exact setChild_beq h
  | cons next segments ih =>
    cases haccepts : container.accepts segment with
    | false =>
      rw [writeBelow_cons_of_not_accepts haccepts]
      exact BEq.rfl
    | true =>
      rw [isEffective_cons hcontainer haccepts] at h
      rcases ofChild_cases (container.child? segment) with
        ⟨child, hchild, hcomposite, hprobe, hdown⟩ | ⟨hprobe, -, -⟩
      · rw [hprobe] at h
        rw [writeBelow, hdown]
        refine setChild_beq ?_
        rw [hchild]
        exact BEq.symm (ih hcomposite h)
      · rw [hprobe, isEffective_fresh] at h
        cases h

/-- Put, then put. -/
theorem writeBelow_writeBelow (hcontainer : container.isComposite) (first second : Json) :
    writeBelow (some second) .replace
        (writeBelow (some first) .replace container segment segments) segment segments =
      writeBelow (some second) .replace container segment segments := by
  induction segments generalizing container segment with
  | nil => exact setChild_setChild container segment first second
  | cons next segments ih =>
    cases haccepts : container.accepts segment with
    | false =>
      rw [writeBelow_cons_of_not_accepts haccepts]
    | true =>
      have hdown := isComposite_asContainer (container.child? segment)
      rw [writeBelow, writeBelow, child?_setChild haccepts, asContainer_some, ih hdown,
        setChild_setChild, writeBelow]
      rw [isComposite_writeBelow, hdown]

end Below

/-! ## On whole trees -/

theorem isEffective_object (members : List (String × Json)) (segment : String)
    (segments : List String) (value : Option Json) (mode : UpdateMode) :
    (Json.object members).isEffective ⟨segment :: segments⟩ value mode =
      (Probe.node (.object members)).isEffective value mode segment segments := rfl

/-- A root that is no object counts as a new object. -/
theorem isEffective_of_not_isObject {tree : Json} (h : tree.isObject = false) (segment : String)
    (segments : List String) (value : Option Json) (mode : UpdateMode) :
    tree.isEffective ⟨segment :: segments⟩ value mode = isFreshEffective value mode := by
  cases tree with
  | object members => cases h
  | _ => exact isEffective_fresh value mode segment segments

theorem write_cons (tree : Json) (segment : String) (segments : List String)
    (value : Option Json) (mode : UpdateMode) :
    tree.write ⟨segment :: segments⟩ value mode =
      writeBelow value mode tree.asRoot segment segments := rfl

theorem isComposite_asRoot (tree : Json) : tree.asRoot.isComposite := by
  cases tree <;> rfl

/-- After a value was set the root is an object. -/
theorem asRoot_writeBelow (tree : Json) (segment : String) (segments : List String)
    (value : Json) :
    (writeBelow (some value) .replace tree.asRoot segment segments).asRoot =
      writeBelow (some value) .replace tree.asRoot segment segments := by
  cases segments <;> cases tree <;> rfl

theorem update?_eq_none_iff {tree : Json} {path : DataPath} {value : Option Json}
    {mode : UpdateMode} :
    tree.update? path value mode = none ↔ tree.isEffective path value mode = false := by
  unfold update?
  split <;> simp_all

theorem update?_eq_some_iff {tree result : Json} {path : DataPath} {value : Option Json}
    {mode : UpdateMode} :
    tree.update? path value mode = some result ↔
      tree.isEffective path value mode ∧ tree.write path value mode = result := by
  unfold update?
  split <;> simp_all

/-- A value set at a path is read back there. -/
theorem at?_of_update? {tree result value : Json} {path : DataPath}
    (h : tree.update? path (some value) .replace = some result) :
    result.at? path = some value := by
  obtain ⟨heffective, rfl⟩ := update?_eq_some_iff.mp h
  obtain ⟨segments⟩ := path
  cases segments with
  | nil => rfl
  | cons segment segments =>
    refine get?_writeBelow (isComposite_asRoot tree) ?_ value
    cases tree with
    | object members =>
      rw [isEffective_object] at heffective
      exact ((isEffective_replace rfl value).mp heffective).1
    | _ =>
      intro hblocked
      obtain ⟨child, hchild, -⟩ := ((isBlocked_cons rfl).mp hblocked).resolve_left (by simp [accepts, asRoot])
      cases hchild

/-- Setting a value below the root is a no-op only in an object, where an equal value is in its place
or the path is blocked. -/
theorem replace_eq_none_iff {tree value : Json} {segment : String} {segments : List String} :
    tree.update? ⟨segment :: segments⟩ (some value) .replace = none ↔
      tree.isObject ∧ ((∃ current, tree.get? (segment :: segments) = some current ∧
        current == value) ∨ tree.IsBlocked (segment :: segments)) := by
  rw [update?_eq_none_iff, ← beq_some_iff]
  cases tree with
  | object members =>
    rw [isEffective_object, ← Bool.not_eq_true, isEffective_replace rfl,
      Classical.not_and_iff_not_or_not, Classical.not_not, Classical.not_not, or_comm]
    simp [isObject]
  | _ =>
    rw [isEffective_of_not_isObject rfl]
    simp [isFreshEffective, isObject]

/-- The tree that setting a value leaves equals the written one, with an effect or without. -/
theorem updated_beq_write (tree : Json) (path : DataPath) (value : Json) :
    tree.updated path (some value) .replace == tree.write path (some value) .replace := by
  unfold updated update?
  split
  · exact BEq.rfl
  · rename_i hnone
    rw [Bool.not_eq_true] at hnone
    obtain ⟨segments⟩ := path
    cases segments with
    | nil =>
      change tree == value
      simpa [isEffective] using hnone
    | cons segment segments =>
      cases tree with
      | object members => exact BEq.symm (writeBelow_beq rfl hnone)
      | _ =>
        rw [isEffective_of_not_isObject rfl] at hnone
        cases hnone

theorem write_write (tree : Json) (path : DataPath) (first second : Json) :
    (tree.write path (some first) .replace).write path (some second) .replace =
      tree.write path (some second) .replace := by
  obtain ⟨segments⟩ := path
  cases segments with
  | nil => rfl
  | cons segment segments =>
    rw [write_cons, write_cons, write_cons, asRoot_writeBelow,
      writeBelow_writeBelow (isComposite_asRoot tree)]

/-- The value that was set last decides the tree. -/
theorem updated_updated_beq (tree : Json) (path : DataPath) (first second : Json) :
    (tree.updated path (some first) .replace).updated path (some second) .replace ==
      tree.updated path (some second) .replace := by
  cases hfirst : tree.update? path (some first) .replace with
  | none =>
    have hkept : tree.updated path (some first) .replace = tree := by
      rw [updated, hfirst]
      rfl
    rw [hkept]
    exact BEq.rfl
  | some result =>
    obtain ⟨-, rfl⟩ := update?_eq_some_iff.mp hfirst
    have hwritten : tree.updated path (some first) .replace =
        tree.write path (some first) .replace := by
      rw [updated, hfirst]
      rfl
    have hlast := updated_beq_write (tree.write path (some first) .replace) path second
    rw [write_write] at hlast
    rw [hwritten]
    exact BEq.trans hlast (BEq.symm (updated_beq_write tree path second))

/-- **Setting a value obeys the lens laws.** A value that was set is read back. Setting a value is a
no-op at the root if the tree equals it, and below the root if the tree is an object in which the
path reads as an equal value or is blocked; the root of an object does not block, so the front of a
blocked path has a segment. And the last of two values set at one path decides the tree, a no-op
keeping the tree as it was. -/
theorem replace_lens_laws (tree : Json) (path : DataPath) (first second : Json) :
    (∀ result, tree.update? path (some first) .replace = some result →
      result.at? path = some first) ∧
    (path = .root → (tree.update? path (some first) .replace = none ↔ tree == first)) ∧
    (path ≠ .root →
      (tree.update? path (some first) .replace = none ↔
        tree.isObject ∧ ((∃ current, tree.at? path = some current ∧ current == first) ∨
          tree.IsBlocked path.segments))) ∧
    (tree.updated path (some first) .replace).updated path (some second) .replace ==
      tree.updated path (some second) .replace := by
  refine ⟨fun result h => at?_of_update? h, ?_, ?_, updated_updated_beq tree path first second⟩
  · rintro rfl
    rw [update?_eq_none_iff]
    simp [isEffective, DataPath.root]
  · intro hpath
    obtain ⟨segments⟩ := path
    cases segments with
    | nil => exact absurd rfl hpath
    | cons segment segments => exact replace_eq_none_iff

end DataBinding.Json
