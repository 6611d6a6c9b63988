import DataBinding.Proofs.Update.Aside

/-!
# What is read elsewhere, in every mode

Setting, deleting and appending leave alone what is aside of their path, apart from aliases and gaps.
Removing and moving do not: they take the elements of one array to other places. What is read through
an element of this array is what was read before through the element that came to stand there, and all
else is read as before. They go down through what is there and make nothing, so they leave no gap.

* `Json.elementSource`, `exists_updateChild_array`: the place that an element comes from.
* `Json.MeetsInArray`: a path that ends at an element of an array, and another one through the array.
* `at?_updated_of_meetsInArray`, `at?_updated_of_not_meetsInArray`: removing and moving.
* `at?_updated_of_not_isObject`: a root that is no object.
* `Json.ReadsAfter`, `readsAfter_updated`: what is read aside of the path, in every mode.
-/

namespace DataBinding.Json

/-! ## One array -/

/-- The place from which the element at a place comes, after an update of the element at `index`. -/
def elementSource (value : Option Json) (length index place : Nat) : UpdateMode → Nat
  | .remove => if place < index then place else place + 1
  | .move =>
    match moveTarget? length index value with
    | some target => moveSource index target place
    | none => place
  | .replace | .add => place

section Array

variable {items : List Json} {index : Nat} {value : Option Json} {mode : UpdateMode}

/-- Every element of the array was an element of it before. -/
theorem exists_updateChild_array (items : List Json) (value : Option Json) {segment : String}
    (hindex : Text.arrayIndex? segment = some index) (hmode : mode = .remove ∨ mode = .move) :
    ∃ changed, (Json.array items).updateChild segment value mode = .array changed ∧
      ∀ place : Nat,
        changed[place]? = items[elementSource value items.length index place mode]? := by
  rcases hmode with rfl | rfl
  · refine ⟨items.eraseIdx index, ?_, fun place => ?_⟩
    · simp only [updateChild, editItems, hindex]
    · rw [List.getElem?_eraseIdx, elementSource]
      split <;> rfl
  · refine ⟨moveElement items index value, ?_, fun place => ?_⟩
    · simp only [updateChild, editItems, hindex]
    · rw [elementSource]
      cases htarget : moveTarget? items.length index value with
      | some target => exact getElem?_moveElement htarget place
      | none =>
        rw [moveElement, htarget]
        cases items[index]? <;> rfl

/-- Without an effect every element comes from its own place. -/
theorem getElem?_elementSource (hmode : mode = .remove ∨ mode = .move)
    (h : isElementEffective items index value mode = false) (place : Nat) :
    items[elementSource value items.length index place mode]? = items[place]? := by
  rcases hmode with rfl | rfl
  · have hbeyond : items.length ≤ index := by simpa [isElementEffective] using h
    rw [elementSource]
    split
    · rfl
    · rw [List.getElem?_eq_none (by omega), List.getElem?_eq_none (by omega)]
  · have htarget : moveTarget? items.length index value = none := by
      simpa [isElementEffective] using h
    rw [elementSource, htarget]

end Array

/-! ## Through the array, and aside of it -/

/-- One path ends at the element `index` of an array, and the other one goes through the element at
`place` and on along `back`. -/
def MeetsInArray (tree : Json) (path other : List String) (items : List Json) (index place : Nat)
    (back : List String) : Prop :=
  ∃ front last segment, path = front ++ [last] ∧ other = front ++ segment :: back ∧
    tree.get? front = some (.array items) ∧ Text.arrayIndex? last = some index ∧
      Text.arrayIndex? segment = some place

section Rearrange

variable {members : List (String × Json)} {path other : DataPath} {value : Option Json}
  {mode : UpdateMode}

/-- Through the array in which the path ends, every place reads as the one it comes from did. -/
theorem at?_updated_of_meetsInArray (hmode : mode = .remove ∨ mode = .move) {items : List Json}
    {index place : Nat} {back : List String}
    (h : (Json.object members).MeetsInArray path.segments other.segments items index place back) :
    ((Json.object members).updated path value mode).at? other =
      (items[elementSource value items.length index place mode]?).bind (get? · back) := by
  obtain ⟨segments⟩ := path
  obtain ⟨others⟩ := other
  obtain ⟨front, last, segment, hpath, hother, hread, hindex, hplace⟩ := h
  dsimp only at hpath hother
  obtain ⟨first, rest, rfl⟩ := List.exists_cons_of_ne_nil (l := segments) (by simp [hpath])
  have hprobe : (Json.object members).isEffective ⟨first :: rest⟩ value mode =
      isElementEffective items index value mode := by
    rw [isEffective_object, isEffective_append hread rfl hpath]
    simp [hindex]
  rw [at?, hother, get?_append]
  cases heffective : isElementEffective items index value mode with
  | false =>
    rw [updated_of_not_isEffective (hprobe.trans heffective), hread, Option.bind_some, get?, child?,
      hplace, Option.bind_some, getElem?_elementSource hmode heffective]
  | true =>
    obtain ⟨changed, hchanged, helements⟩ := exists_updateChild_array items value hindex hmode
    rw [updated_of_isEffective (hprobe.trans heffective), write_cons, asRoot,
      get?_writeBelow_append hread rfl hpath, writeBelow, hchanged, Option.bind_some, get?, child?,
      hplace, Option.bind_some, helements]

/-- A write that goes on below an array or object of the way leaves alone what parts there. -/
theorem get?_writeBelow_through (value : Option Json) (mode : UpdateMode) {container : Json}
    {first segment segment' next : String} {rest front back : List String}
    (hpath : first :: rest = front ++ segment :: next :: back)
    (hchild : ∃ child, container.get? (front ++ [segment]) = some child ∧ child.isComposite)
    (hne : segment' ≠ segment)
    (hshare : ∀ node, container.get? front = some node → ¬ node.SharesElement segment segment')
    (back' : List String) :
    (writeBelow value mode container first rest).get? (front ++ segment' :: back') =
      container.get? (front ++ segment' :: back') := by
  induction front generalizing container first rest with
  | nil =>
    cases hpath
    obtain ⟨child, hread, -⟩ := hchild
    rw [List.nil_append, get?_singleton] at hread
    rw [List.nil_append, get?, get?, writeBelow]
    rcases child?_setChild_aside hne (hshare container rfl)
        (writeBelow value mode (asContainer (container.child? segment)) next back) with
      hsame | ⟨-, -, items, index, place, rfl, hindex, -, hbeyond, hlt⟩
    · rw [hsame]
    · -- The child is there, so the array does not end before it.
      rw [child?, hindex, Option.bind_some] at hread
      have hlength := (List.getElem?_eq_some_iff.mp hread).1
      omega
  | cons step front ih =>
    obtain ⟨rfl, hrest⟩ := List.cons.inj hpath
    obtain ⟨next', segments, rfl⟩ := List.exists_cons_of_ne_nil (l := rest) (by simp [hrest])
    obtain ⟨found, hread, hfound⟩ := hchild
    obtain ⟨child, hchild, hbelow⟩ := Option.bind_eq_some_iff.mp hread
    have hcomposite : child.isComposite := isComposite_of_get? hbelow hfound
    rw [List.cons_append, get?_writeBelow_cons (accepts_of_child? hchild), get?, hchild,
      asContainer_some hcomposite, Option.bind_some]
    refine ih hrest ⟨found, hbelow, hfound⟩ fun node hnode => hshare node ?_
    rw [get?, hchild, Option.bind_some, hnode]

/-- A segment that is no index reads nothing in the array, neither before nor after. -/
theorem get?_writeBelow_of_no_index (hmode : mode = .remove ∨ mode = .move) {container : Json}
    {items : List Json} {index : Nat} {first last segment : String} {rest stop : List String}
    (hread : container.get? stop = some (.array items)) (hpath : first :: rest = stop ++ [last])
    (hindex : Text.arrayIndex? last = some index) (hnone : Text.arrayIndex? segment = none)
    (back : List String) :
    (writeBelow value mode container first rest).get? (stop ++ segment :: back) =
      container.get? (stop ++ segment :: back) := by
  obtain ⟨changed, hchanged, -⟩ := exists_updateChild_array items value hindex hmode
  rw [get?_append, get?_append, get?_writeBelow_append hread rfl hpath, hread, writeBelow, hchanged,
    Option.bind_some, Option.bind_some, get?, get?, child?, child?, hnone]
  rfl

/-- Where the other path parts from a removal or a move before its array, nothing is changed. -/
theorem get?_writeBelow_before_array (value : Option Json) (mode : UpdateMode) {container : Json}
    {items : List Json} {first last final segment segment' : String}
    {rest stop front between : List String}
    (hread : container.get? stop = some (.array items)) (hend : first :: rest = stop ++ [last])
    (hpath : first :: rest = front ++ segment :: (between ++ [final])) (hne : segment' ≠ segment)
    (hshare : ∀ node, container.get? front = some node → ¬ node.SharesElement segment segment')
    (back : List String) :
    (writeBelow value mode container first rest).get? (front ++ segment' :: back) =
      container.get? (front ++ segment' :: back) := by
  have hstop : stop = front ++ [segment] ++ between := by
    have hends : stop ++ [last] = (front ++ [segment] ++ between) ++ [final] := by
      rw [← hend, hpath]
      simp
    exact (List.append_inj' hends rfl).1
  rw [hstop, get?_append] at hread
  obtain ⟨child, hchild, hbelow⟩ := Option.bind_eq_some_iff.mp hread
  obtain ⟨next, tail, hnext⟩ := List.exists_cons_of_ne_nil (l := between ++ [final]) (by simp)
  rw [hnext] at hpath
  exact get?_writeBelow_through value mode hpath
    ⟨child, hchild, isComposite_of_get? hbelow rfl⟩ hne hshare back

/-- Aside of the array in which the path ends, everything reads as before. -/
theorem at?_updated_of_not_meetsInArray (hmode : mode = .remove ∨ mode = .move)
    (haside : path.IsAside other)
    (haliased : ¬ (Json.object members).Aliased path.segments other.segments)
    (hmeets : ∀ items index place back,
      ¬ (Json.object members).MeetsInArray path.segments other.segments items index place back) :
    ((Json.object members).updated path value mode).at? other =
      (Json.object members).at? other := by
  obtain ⟨segments⟩ := path
  obtain ⟨others⟩ := other
  cases heffective : (Json.object members).isEffective ⟨segments⟩ value mode with
  | false => rw [updated_of_not_isEffective heffective]
  | true =>
    rw [updated_of_isEffective heffective]
    obtain ⟨first, rest, rfl⟩ := List.exists_cons_of_ne_nil (l := segments) (by
      rintro rfl
      exact haside.ne_root rfl)
    rw [isEffective_object] at heffective
    obtain ⟨stop, last, items, index, hend, hread, hindex, -⟩ :=
      exists_array_of_isEffective hmode rfl heffective
    have hcovers := haside
    simp only [DataPath.IsAside, DataPath.covers, List.isPrefixOf_iff_prefix] at hcovers
    obtain ⟨front, segment, segment', back, back', hpath, hother, hne⟩ :=
      exists_parting hcovers.1 hcovers.2
    dsimp only at hmeets haliased hother hpath
    rw [write_cons, asRoot, at?, at?, hother]
    rcases List.eq_nil_or_concat back with rfl | ⟨between, final, rfl⟩
    · -- They part in the array itself, and the other path addresses no element.
      obtain ⟨rfl, hlast⟩ := List.append_inj' (hend.symm.trans hpath) rfl
      cases hlast
      cases hplace : Text.arrayIndex? segment' with
      | some place =>
        exact absurd ⟨stop, last, segment', hpath, hother, hread, hindex, hplace⟩
          (hmeets items index place back')
      | none => exact get?_writeBelow_of_no_index hmode hread hend hindex hplace back'
    · -- They part before the array, where the removal or the move goes down further.
      rw [List.concat_eq_append] at hpath
      refine get?_writeBelow_before_array value mode hread hend hpath hne
        (fun node hnode hshares => ?_) back'
      exact haliased
        ⟨front, segment, segment', between ++ [final], back', node, hpath, hother, hne, hnode,
          hshares⟩

end Rearrange

/-! ## In every mode -/

/-- In a root that is no object a value that is set or appended makes a new object, in which nothing
is aside of the path. -/
theorem at?_updated_of_not_isObject {tree : Json} (htree : tree.isObject = false)
    {path other : DataPath} (haside : path.IsAside other) (value : Option Json)
    (mode : UpdateMode) :
    (tree.updated path value mode).at? other =
      if isFreshEffective value mode then none else tree.at? other := by
  obtain ⟨segments⟩ := path
  obtain ⟨first, rest, rfl⟩ := List.exists_cons_of_ne_nil (l := segments) (by
    rintro rfl
    exact haside.ne_root rfl)
  have hprobe := isEffective_of_not_isObject htree first rest value mode
  cases hfresh : isFreshEffective value mode with
  | false =>
    rw [updated_of_not_isEffective (hprobe.trans hfresh)]
    rfl
  | true =>
    have hmode : mode = .replace ∨ mode = .add := by
      cases mode with
      | replace => exact Or.inl rfl
      | add => exact Or.inr rfl
      | _ => cases hfresh
    have hnone : (Json.object []).at? other = none := by
      obtain ⟨others⟩ := other
      obtain ⟨next, last, rfl⟩ := List.exists_cons_of_ne_nil (l := others) (by
        rintro rfl
        exact haside.symm.ne_root rfl)
      rfl
    have hwrite : tree.write ⟨first :: rest⟩ value mode =
        (Json.object []).write ⟨first :: rest⟩ value mode := by
      rw [write_cons, write_cons, asRoot_of_not_isObject htree]
      rfl
    rw [updated_of_isEffective (hprobe.trans hfresh), hwrite, if_pos rfl]
    rcases at?_write_aside hmode [] value haside.1 haside.2
        (fun haliased => not_meetsArray_empty _ haliased.meetsArray) with hsame | ⟨-, -, hpadding⟩
    · exact hsame.trans hnone
    · exact absurd hpadding.meetsArray (not_meetsArray_empty _)

/-- What is read at `key` after an update at `path`, where neither covers the other. In an object, two
spellings of one element on the way are left out. -/
structure ReadsAfter (before after : Json) (path : DataPath) (value : Option Json)
    (mode : UpdateMode) (key : DataPath) : Prop where
  /-- After setting, deleting and appending: what was there, or `null` in a gap. -/
  written : before.isObject → mode = .replace ∨ mode = .add →
    ¬ before.Aliased path.segments key.segments →
      Undisturbed (before.at? key) (after.at? key) (before.IsPadding path.segments key.segments)
  /-- After removing and moving, through the array: what was read through the element that came. -/
  rearranged : before.isObject → mode = .remove ∨ mode = .move →
    ∀ items index place back,
      before.MeetsInArray path.segments key.segments items index place back →
        after.at? key =
          (items[elementSource value items.length index place mode]?).bind (get? · back)
  /-- After removing and moving, elsewhere: what was there. -/
  elsewhere : before.isObject → mode = .remove ∨ mode = .move →
    ¬ before.Aliased path.segments key.segments →
      (∀ items index place back,
        ¬ before.MeetsInArray path.segments key.segments items index place back) →
        after.at? key = before.at? key
  /-- In a root that is no object: nothing, if the update makes an object of it. -/
  coerced : before.isObject = false →
    after.at? key = if isFreshEffective value mode then none else before.at? key

/-- One update, seen from a place aside of it. -/
theorem readsAfter_updated (tree : Json) {path key : DataPath} (haside : path.IsAside key)
    (value : Option Json) (mode : UpdateMode) :
    tree.ReadsAfter (tree.updated path value mode) path value mode key where
  written htree hmode haliased := by
    cases tree with
    | object members =>
      cases heffective : (Json.object members).isEffective path value mode with
      | false =>
        rw [updated_of_not_isEffective heffective]
        exact Or.inl rfl
      | true =>
        rw [updated_of_isEffective heffective]
        exact at?_write_aside hmode members value haside.1 haside.2 haliased
    | _ => cases htree
  rearranged htree hmode items index place back hmeets := by
    cases tree with
    | object members => exact at?_updated_of_meetsInArray hmode hmeets
    | _ => cases htree
  elsewhere htree hmode haliased hmeets := by
    cases tree with
    | object members => exact at?_updated_of_not_meetsInArray hmode haside haliased hmeets
    | _ => cases htree
  coerced htree := at?_updated_of_not_isObject htree haside value mode

end DataBinding.Json
