import DataBinding.Proofs.Update.Subtree

/-!
# What an effective update changes

The probe promises an effect without writing. Setting, deleting, appending and removing keep the
promise: the tree differs afterwards, for every tree, path and value. A move keeps it only if the
element passes over a different one, since the probe looks at the places and never at the elements.

* `not_beq_of_update?`: the promise for the modes other than a move.
* `getElem?_moveElement`: where the elements of an array come from after a move.
* `moveElement_beq_iff`: a move leaves an equal array if and only if all elements from the old to
  the new place are equal.
* `isEffective_move_iff`, `write_move_beq_iff`: both for whole trees.
-/

namespace DataBinding.Json

/-! ## Setting, deleting, appending and removing -/

section Effect

variable {container : Json} {segment : String} {segments : List String} {value : Option Json}
  {mode : UpdateMode}

theorem not_beq_of_child? {changed : Json} (segment : String)
    (h : ¬ changed.child? segment == container.child? segment) : ¬ changed == container :=
  fun hbeq => h (child?_beq hbeq segment)

theorem accepts_of_isEffective (hcontainer : container.isComposite)
    (h : (Probe.node container).isEffective value mode segment segments) :
    container.accepts segment := by
  cases haccepts : container.accepts segment with
  | true => rfl
  | false =>
    rw [isEffective_of_not_accepts hcontainer haccepts] at h
    cases h

/-- An update that makes nothing where nothing is goes down through what is there. -/
theorem exists_part_of_isEffective {front : List String} {last : String}
    (hfresh : isFreshEffective value mode = false) (hcontainer : container.isComposite)
    (hpath : segment :: segments = front ++ [last])
    (h : (Probe.node container).isEffective value mode segment segments) :
    ∃ inner, container.get? front = some inner ∧ inner.isComposite ∧
      (Probe.node inner).isEffective value mode last [] := by
  induction segments generalizing container segment front with
  | nil =>
    cases front with
    | nil =>
      cases hpath
      exact ⟨container, rfl, hcontainer, h⟩
    | cons step front => simp at hpath
  | cons next segments ih =>
    cases front with
    | nil => cases hpath
    | cons step front =>
      obtain ⟨rfl, hrest⟩ := List.cons.inj hpath
      rw [isEffective_cons hcontainer (accepts_of_isEffective hcontainer h)] at h
      rcases ofChild_cases (container.child? segment) with
        ⟨child, hchild, hcomposite, hprobe, -⟩ | ⟨hprobe, -, -⟩
      · rw [hprobe] at h
        obtain ⟨inner, hread, hinner⟩ := ih hcomposite hrest h
        exact ⟨inner, by rw [get?, hchild, Option.bind_some, hread], hinner⟩
      · rw [hprobe, isEffective_fresh, hfresh] at h
        cases h

theorem isEffective_add_nil (haccepts : container.accepts segment) (value : Option Json) :
    (Probe.node container).isEffective value .add segment [] =
      isAddEffective (container.child? segment) value := by
  cases container with
  | object members => rfl
  | array items =>
    obtain ⟨index, hindex⟩ := Option.isSome_iff_exists.mp haccepts
    simp [isElementEffective, child?, hindex]
  | _ => cases haccepts

theorem not_beq_setChild (haccepts : container.accepts segment) (value : Json)
    (h : (Probe.node container).isEffective (some value) .replace segment []) :
    ¬ container.setChild segment value == container := by
  rw [isEffective_replace_nil haccepts] at h
  refine not_beq_of_child? segment fun hbeq => ?_
  rw [child?_setChild haccepts] at hbeq
  rw [BEq.symm hbeq] at h
  cases h

/-- What is deleted was there, and `null` is not deleted from an array. -/
theorem not_beq_deleteChild (haccepts : container.accepts segment)
    (h : (Probe.node container).isEffective none .replace segment []) :
    ¬ container.deleteChild segment == container := by
  refine not_beq_of_child? segment fun hbeq => ?_
  cases container with
  | object members =>
    have hthere : (members.lookup segment).isSome := h
    have hgone : (eraseMember segment members).lookup segment == members.lookup segment := hbeq
    rw [lookup_eraseMember, if_pos rfl] at hgone
    rw [none_beq_iff.mp hgone] at hthere
    cases hthere
  | array items =>
    obtain ⟨index, hindex⟩ := Option.isSome_iff_exists.mp haccepts
    have hthere : items[index]?.any (!·.isNull) := by
      simpa [isElementEffective, hindex] using h
    have hgone : some Json.null == items[index]? := by
      simpa [deleteChild, editItems, child?, hindex, getElem?_setElement] using hbeq
    obtain ⟨item, hitem, hnull⟩ := some_beq_iff.mp hgone
    rw [hitem, null_beq_iff.mp hnull] at hthere
    cases hthere
  | _ => cases haccepts

/-- An array that grows differs by its length, and a new one by being there. -/
theorem not_beq_addChild (haccepts : container.accepts segment) (value : Json)
    (h : (Probe.node container).isEffective (some value) .add segment []) :
    ¬ container.setChild segment (((container.child? segment).getD (.array [])).push value) ==
      container := by
  rw [isEffective_add_nil haccepts] at h
  refine not_beq_of_child? segment fun hbeq => ?_
  rw [child?_setChild haccepts] at hbeq
  cases hfound : container.child? segment with
  | none =>
    rw [hfound] at hbeq
    cases hbeq
  | some current =>
    rw [hfound] at h hbeq
    cases current with
    | array items =>
      have hlength : (items ++ [value]).length = items.length := length_eq_of_beq hbeq
      rw [List.length_append, List.length_singleton] at hlength
      omega
    | _ => simp [isAddEffective, isArray] at h

theorem not_beq_removeElement (haccepts : container.accepts segment)
    (h : (Probe.node container).isEffective value .remove segment []) :
    ¬ container.editItems segment List.eraseIdx == container := by
  intro hbeq
  cases container with
  | object members => cases h
  | array items =>
    obtain ⟨index, hindex⟩ := Option.isSome_iff_exists.mp haccepts
    have hlt : index < items.length := by
      simpa [isElementEffective, hindex] using h
    have hshorter : Json.array (items.eraseIdx index) == .array items := by
      simpa [editItems, hindex] using hbeq
    have hlength := length_eq_of_beq hshorter
    rw [List.length_eraseIdx_of_lt hlt] at hlength
    omega
  | _ => cases haccepts

theorem not_beq_updateChild (haccepts : container.accepts segment) (hmode : mode ≠ .move)
    (h : (Probe.node container).isEffective value mode segment []) :
    ¬ container.updateChild segment value mode == container := by
  cases mode with
  | replace =>
    cases value with
    | some value => exact not_beq_setChild haccepts value h
    | none => exact not_beq_deleteChild haccepts h
  | add =>
    cases value with
    | some value => exact not_beq_addChild haccepts value h
    | none =>
      rw [isEffective_add_nil haccepts] at h
      cases h
  | remove => exact not_beq_removeElement haccepts h
  | move => exact absurd rfl hmode

/-- A write that the probe allows changes the container. -/
theorem not_beq_writeBelow (hcontainer : container.isComposite) (hmode : mode ≠ .move)
    (h : (Probe.node container).isEffective value mode segment segments) :
    ¬ writeBelow value mode container segment segments == container := by
  have haccepts := accepts_of_isEffective hcontainer h
  induction segments generalizing container segment with
  | nil => exact not_beq_updateChild haccepts hmode h
  | cons next segments ih =>
    rw [isEffective_cons hcontainer haccepts] at h
    refine not_beq_of_child? segment fun hbeq => ?_
    rw [writeBelow, child?_setChild haccepts] at hbeq
    obtain ⟨old, hold, hsame⟩ := some_beq_iff.mp hbeq
    rcases ofChild_cases (container.child? segment) with
      ⟨child, hchild, hcomposite, hprobe, hdown⟩ | ⟨hprobe, hdown, hscalar⟩
    · rw [hchild] at hold
      cases hold
      rw [hprobe] at h
      rw [hdown] at hsame
      exact ih hcomposite h (accepts_of_isEffective hcomposite h) hsame
    · -- An object took the place of something that was no container.
      have hkind := isComposite_eq_of_beq hsame
      rw [isComposite_writeBelow, hdown, hscalar old hold] at hkind
      cases hkind

end Effect

/-- A write below the root leaves an object. -/
theorem isObject_write_cons (tree : Json) (segment : String) (segments : List String)
    (value : Option Json) (mode : UpdateMode) :
    (tree.write ⟨segment :: segments⟩ value mode).isObject := by
  obtain ⟨members, hroot⟩ : ∃ members, tree.asRoot = .object members := by
    cases tree <;> exact ⟨_, rfl⟩
  rw [write_cons, hroot]
  cases segments with
  | cons next segments => rfl
  | nil => cases mode <;> cases value <;> rfl

theorem isObject_of_update? {tree result : Json} {path : DataPath} {value : Option Json}
    {mode : UpdateMode} (hpath : path ≠ .root) (h : tree.update? path value mode = some result) :
    result.isObject := by
  obtain ⟨-, rfl⟩ := update?_eq_some_iff.mp h
  obtain ⟨_ | ⟨segment, segments⟩⟩ := path
  · exact absurd rfl hpath
  · exact isObject_write_cons tree segment segments value mode

/-- **An effective update that is no move changes the tree.** -/
theorem not_beq_of_update? {tree result : Json} {path : DataPath} {value : Option Json}
    {mode : UpdateMode} (hmode : mode ≠ .move)
    (h : tree.update? path value mode = some result) : ¬ result == tree := by
  obtain ⟨heffective, rfl⟩ := update?_eq_some_iff.mp h
  obtain ⟨segments⟩ := path
  cases segments with
  | nil =>
    cases mode with
    | replace =>
      cases value with
      | some value =>
        have hdiffers : (!(tree == value)) = true := heffective
        intro hbeq
        have hsame : tree == value := BEq.symm hbeq
        rw [hsame] at hdiffers
        cases hdiffers
      | none => cases heffective
    | _ => cases heffective
  | cons segment segments =>
    cases hobject : tree.isObject with
    | false =>
      -- A root that was no object is one afterwards.
      intro hbeq
      have hkind := (kind_eq_of_beq hbeq).1
      rw [isObject_write_cons, hobject] at hkind
      cases hkind
    | true =>
      cases tree with
      | object members => exact not_beq_writeBelow rfl hmode heffective
      | _ => cases hobject

/-! ## Moving -/

/-- The place from which the element at a place came, after the element at `index` was moved to
`target`. -/
def moveSource (index target place : Nat) : Nat :=
  if place = target then index
  else if index ≤ place ∧ place < target then place + 1
  else if target < place ∧ place ≤ index then place - 1
  else place

theorem moveSource_between {index target place : Nat} (hfrom : min index target ≤ place)
    (hto : place ≤ max index target) :
    min index target ≤ moveSource index target place ∧
      moveSource index target place ≤ max index target := by
  unfold moveSource
  grind

theorem moveSource_outside {index target place : Nat}
    (h : ¬ (min index target ≤ place ∧ place ≤ max index target)) :
    moveSource index target place = place := by
  unfold moveSource
  grind

section Move

variable {items : List Json} {index target : Nat} {value : Option Json}

theorem moveTarget?_eq_some {length : Nat} (h : moveTarget? length index value = some target) :
    index < length ∧ target < length ∧ target ≠ index := by
  unfold moveTarget? at h
  split at h
  · rename_i hindex
    split at h
    · dsimp only at h
      split at h
      · cases h
      · rename_i hne
        have htarget := Option.some.inj h
        omega
    · cases h
  · cases h

theorem moveElement_eq {item : Json} (h : moveTarget? items.length index value = some target)
    (hitem : items[index]? = some item) :
    moveElement items index value = (items.eraseIdx index).insertIdx target item := by
  rw [moveElement, hitem, h]

theorem getElem?_moveElement (h : moveTarget? items.length index value = some target)
    (place : Nat) :
    (moveElement items index value)[place]? = items[moveSource index target place]? := by
  obtain ⟨hindex, htarget, hne⟩ := moveTarget?_eq_some h
  have hlength := List.length_eraseIdx_of_lt hindex
  rw [moveElement_eq h (List.getElem?_eq_getElem hindex), List.getElem?_insertIdx,
    List.getElem?_eraseIdx, List.getElem?_eraseIdx]
  unfold moveSource
  rcases Nat.lt_trichotomy place target with hlt | rfl | hgt
  · have hplace : place ≠ target := by omega
    rw [if_pos hlt, if_neg hplace]
    by_cases hbefore : place < index
    · have hkept : ¬ (index ≤ place ∧ place < target) := by omega
      have hkept' : ¬ (target < place ∧ place ≤ index) := by omega
      rw [if_pos hbefore, if_neg hkept, if_neg hkept']
    · rw [if_neg hbefore, if_pos ⟨by omega, hlt⟩]
  · rw [if_neg (Nat.lt_irrefl place), if_pos rfl, if_pos (by omega), if_pos rfl,
      List.getElem?_eq_getElem hindex]
  · have hplace : place ≠ target := by omega
    have hnot : ¬ (index ≤ place ∧ place < target) := by omega
    rw [if_neg (by omega), if_neg hplace, if_neg hplace, if_neg hnot]
    by_cases hbefore : place ≤ index
    · rw [if_pos (by omega), if_pos ⟨hgt, hbefore⟩]
    · have hsame : place - 1 + 1 = place := by omega
      rw [if_neg (by omega), if_neg fun hboth => hbefore hboth.2, hsame]

/-- The elements from one place to another, both included, are all equal to the first. -/
def EqualBetween (items : List Json) (index target : Nat) : Prop :=
  ∀ place, min index target ≤ place → place ≤ max index target → items[place]? == items[index]?

theorem equalBetween_of_next (hlt : index < target)
    (h : ∀ place, index ≤ place → place < target → items[place + 1]? == items[place]?) :
    EqualBetween items index target := by
  intro place hmin hmax
  have hle : index ≤ place := by omega
  have hbound : place ≤ target := by omega
  clear hmin hmax
  induction hle with
  | refl => exact BEq.rfl
  | @step place hle ih =>
    have hlast := h place hle (by omega)
    exact BEq.trans hlast (ih (by omega))

theorem equalBetween_of_previous (hlt : target < index)
    (h : ∀ place, target < place → place ≤ index → items[place - 1]? == items[place]?) :
    EqualBetween items index target := by
  intro place hmin hmax
  obtain ⟨steps, rfl⟩ : ∃ steps, index = place + steps := ⟨index - place, by omega⟩
  have hbound : target ≤ place := by omega
  clear hmin hmax hlt
  induction steps generalizing place with
  | zero => exact BEq.rfl
  | succ steps ih =>
    have hnext := h (place + 1) (by omega) (by omega)
    have hrest := ih (place + 1) (fun other hother hle => h other hother (by omega)) (by omega)
    have hsum : place + 1 + steps = place + (steps + 1) := by omega
    rw [hsum] at hrest
    exact BEq.trans hnext hrest

theorem moveElement_beq_iff (h : moveTarget? items.length index value = some target) :
    Json.array (moveElement items index value) == .array items ↔
      EqualBetween items index target := by
  obtain ⟨-, -, hne⟩ := moveTarget?_eq_some h
  rw [array_beq_array]
  constructor
  · intro hsame
    rcases Nat.lt_or_gt_of_ne hne with hlt | hgt
    · refine equalBetween_of_previous hlt fun place hfrom hto => ?_
      have hplace := hsame place
      have hnot : ¬ (index ≤ place ∧ place < target) := by omega
      rw [getElem?_moveElement h, moveSource, if_neg (by omega), if_neg hnot,
        if_pos ⟨hfrom, hto⟩] at hplace
      exact hplace
    · refine equalBetween_of_next hgt fun place hfrom hto => ?_
      have hplace := hsame place
      rw [getElem?_moveElement h, moveSource, if_neg (by omega), if_pos ⟨hfrom, hto⟩] at hplace
      exact hplace
  · intro hequal place
    rw [getElem?_moveElement h]
    by_cases hbetween : min index target ≤ place ∧ place ≤ max index target
    · obtain ⟨hfrom, hto⟩ := moveSource_between hbetween.1 hbetween.2
      exact BEq.trans (hequal _ hfrom hto) (BEq.symm (hequal place hbetween.1 hbetween.2))
    · rw [moveSource_outside hbetween]
      exact BEq.rfl

end Move

/-- A move at a path takes the element `index` of the array `items`, in an object, to the place
`target`, which is another one. -/
structure MovesElement (tree : Json) (path : DataPath) (value : Option Json) (items : List Json)
    (index target : Nat) : Prop where
  isObject : tree.isObject
  place : ∃ front last, path.segments = front ++ [last] ∧ tree.get? front = some (.array items) ∧
    Text.arrayIndex? last = some index
  target : moveTarget? items.length index value = some target

/-- Removing and moving have an effect at an element of an array only. -/
theorem exists_array_of_isEffective {container : Json} {value : Option Json} {mode : UpdateMode}
    {segment : String} {segments : List String} (hmode : mode = .remove ∨ mode = .move)
    (hcontainer : container.isComposite)
    (h : (Probe.node container).isEffective value mode segment segments) :
    ∃ front last items index, segment :: segments = front ++ [last] ∧
      container.get? front = some (.array items) ∧ Text.arrayIndex? last = some index ∧
        isElementEffective items index value mode := by
  have hfresh : isFreshEffective value mode = false := by
    rcases hmode with rfl | rfl <;> rfl
  obtain ⟨front, last, hpath⟩ :=
    (List.eq_nil_or_concat (segment :: segments)).resolve_left (List.cons_ne_nil segment segments)
  rw [List.concat_eq_append] at hpath
  obtain ⟨inner, hread, hinner, hpart⟩ := exists_part_of_isEffective hfresh hcontainer hpath h
  cases inner with
  | object members => rcases hmode with rfl | rfl <;> cases hpart
  | array items =>
    obtain ⟨index, hindex⟩ := Option.isSome_iff_exists.mp (accepts_of_isEffective hinner hpart)
    exact ⟨front, last, items, index, hpath, hread, hindex, by simpa [hindex] using hpart⟩
  | _ => cases hinner

/-- A move has an effect if and only if there is an element that it takes to another place. -/
theorem isEffective_move_iff {tree : Json} {path : DataPath} {value : Option Json} :
    tree.isEffective path value .move ↔
      ∃ items index target, tree.MovesElement path value items index target := by
  obtain ⟨segments⟩ := path
  constructor
  · intro h
    cases segments with
    | nil => cases h
    | cons segment segments =>
      cases tree with
      | object members =>
        rw [isEffective_object] at h
        obtain ⟨front, last, items, index, hpath, hread, hindex, heffective⟩ :=
          exists_array_of_isEffective (Or.inr rfl) rfl h
        obtain ⟨target, htarget⟩ := Option.isSome_iff_exists.mp heffective
        exact ⟨items, index, target, rfl, ⟨front, last, hpath, hread, hindex⟩, htarget⟩
      | _ =>
        rw [isEffective_of_not_isObject rfl] at h
        cases h
  · rintro ⟨items, index, target, hobject, ⟨front, last, hpath, hread, hindex⟩, htarget⟩
    obtain ⟨segment, rest, rfl⟩ := List.exists_cons_of_ne_nil (l := segments) (by
      rintro rfl
      simp at hpath)
    cases tree with
    | object members =>
      rw [isEffective_object, isEffective_append hread rfl hpath]
      simp [isElementEffective, hindex, htarget]
    | _ => cases hobject

/-- A move leaves an equal tree if and only if all the elements it passes over are equal to the one
that is moved. -/
theorem write_move_beq_iff {tree : Json} {path : DataPath} {value : Option Json}
    {items : List Json} {index target : Nat}
    (h : tree.MovesElement path value items index target) :
    tree.write path value .move == tree ↔ EqualBetween items index target := by
  obtain ⟨hobject, ⟨front, last, hpath, hread, hindex⟩, htarget⟩ := h
  obtain ⟨segments⟩ := path
  obtain ⟨segment, rest, rfl⟩ := List.exists_cons_of_ne_nil (l := segments) (by
    rintro rfl
    simp at hpath)
  cases tree with
  | object members =>
    have hmoved : writeBelow value .move (.array items) last [] =
        .array (moveElement items index value) := by
      rw [writeBelow, updateChild]
      simp only [editItems, hindex]
    rw [write_cons, asRoot, writeBelow_beq_iff hread rfl hpath, hmoved,
      moveElement_beq_iff htarget]
  | _ => cases hobject

end DataBinding.Json
