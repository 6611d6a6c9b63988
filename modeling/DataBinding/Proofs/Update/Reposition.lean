import Mathlib.Data.List.InsertIdx
import Mathlib.Data.List.Perm.Basic
import DataBinding.Proofs.Update.InPlace
import DataBinding.Text

/-!
# Moving an element, and moving it back

A move takes an element out of its array and puts it back in a place that lies the increment further on,
or at the end of the array if there are not as many places. The other elements keep their order, nothing
outside of the array changes, and the opposite move from the new place gives the tree back as it was, to
the order of its members.

* `Json.clampedPlace`, `wordPlace_eq_clampedPlace`: the new place, and that signed 64-bit integers are
  wide enough to find it, although their sums saturate.
* `Json.CarriesMove`: all that a move needs; without it a move has no effect.
* `CarriesMove.update?_eq`: the tree after a move, as a change of one array in its place.
* `Json.clamped_move_undone`: what a move does, and that it can be undone.
-/

namespace DataBinding.Json

/-! ## The new place -/

/-- The place that lies an increment after `index` in an array, or the last or first one if that is
beyond an end. -/
def clampedPlace (length index : Nat) (increment : Int) : Nat :=
  (max 0 (min (index + increment) (length - 1 : Int))).toNat

/-- The same place, found in signed 64-bit integers: the sum saturates, it is clamped to the length, and
an array has no place after its last one. -/
def wordPlace (length index : Nat) (increment : Int) : Nat :=
  let sum := max (-0x8000000000000000) (min (index + increment) 0x7FFFFFFFFFFFFFFF)
  min (max 0 (min sum length)).toNat (length - 1)

/-- No array has more elements than a signed 64-bit integer can count, so that a sum which saturates is
beyond the end in any case. -/
theorem wordPlace_eq_clampedPlace {length index : Nat} (hindex : index < length)
    (hlength : length < 0x8000000000000000) (increment : Int) :
    wordPlace length index increment = clampedPlace length index increment := by
  unfold wordPlace clampedPlace
  dsimp only
  omega

/-- From the new place the old one is as far as the increment back to it says. -/
theorem clampedPlace_sub {length index : Nat} (hindex : index < length) (target : Nat) :
    clampedPlace length target (index - target) = index := by
  unfold clampedPlace
  omega

theorem moveTarget?_eq {length index : Nat} (hindex : index < length) {value : Option Json}
    {increment : Int} (h : value.bind increment? = some increment) :
    moveTarget? length index value =
      if clampedPlace length index increment = index then none
      else some (clampedPlace length index increment) := by
  rw [moveTarget?, if_pos hindex, h]
  rfl

/-- Every signed 64-bit integer can be carried as an increment. -/
theorem exists_increment?_eq {increment : Int} (hlow : -0x8000000000000000 ≤ increment)
    (hhigh : increment < 0x8000000000000000) :
    ∃ value : Json, value.increment? = some increment := by
  have hrange : -0x8000000000000000 ≤ increment ∧ increment < 0x10000000000000000 := by omega
  have hsaturated : (Number.integer increment hrange).toInt64Saturating = increment := by
    rw [Number.toInt64Saturating]
    omega
  exact ⟨.object [("increment", .number (.integer increment hrange))], congrArg some hsaturated⟩

/-! ## One array -/

section Array

variable {items : List Json} {index target : Nat} {value : Option Json}

/-- The moved element is in its new place, the others are in the order that they have without it, and
none is lost or made up. -/
theorem moveElement_spec (h : moveTarget? items.length index value = some target) :
    (moveElement items index value)[target]? = items[index]? ∧
      (moveElement items index value).eraseIdx target = items.eraseIdx index ∧
      (moveElement items index value).Perm items := by
  obtain ⟨hindex, htarget, -⟩ := moveTarget?_eq_some h
  have hlength := List.length_eraseIdx_of_lt hindex
  have hle : target ≤ (items.eraseIdx index).length := by omega
  have hitem : items[index]? = some items[index] := List.getElem?_eq_getElem hindex
  rw [moveElement_eq h hitem]
  refine ⟨?_, List.eraseIdx_insertIdx_self .., ?_⟩
  · rw [List.getElem?_insertIdx_self, if_pos hle, hitem]
  · exact (List.perm_insertIdx _ _ hle).trans (List.getElem_cons_eraseIdx_perm hindex)

/-- Moving an element back to where it was undoes the move. -/
theorem moveElement_moveElement (h : moveTarget? items.length index value = some target)
    {back : Option Json} (hback : moveTarget? items.length target back = some index) :
    moveElement (moveElement items index value) target back = items := by
  obtain ⟨hindex, -, -⟩ := moveTarget?_eq_some h
  obtain ⟨hmoved, hothers, hperm⟩ := moveElement_spec h
  rw [← hperm.length_eq] at hback
  rw [List.getElem?_eq_getElem hindex] at hmoved
  rw [moveElement_eq hback hmoved, hothers, List.insertIdx_eraseIdx_getElem hindex]

end Array

/-! ## Whole trees -/

/-- A move at a path carries an increment to the element `index` of the array `items`, which the object
`tree` holds at `front`. -/
structure CarriesMove (tree : Json) (path : DataPath) (value : Option Json) (front : List String)
    (items : List Json) (index : Nat) (increment : Int) : Prop where
  isObject : tree.isObject
  place : ∃ last, path.segments = front ++ [last] ∧ Text.arrayIndex? last = some index
  array : tree.get? front = some (.array items)
  index_lt : index < items.length
  increment : value.bind increment? = some increment

/-- What a move from `index` to `target` in the array `items` at `front` leaves of a tree. -/
structure Repositioned (tree : Json) (front : List String) (items : List Json)
    (index target : Nat) (result : Json) : Prop where
  /-- The array is changed in its place: its element `index` is at `target`, and the others are as they
  are without it. -/
  moved : ∃ moved, result = tree.modifyAt front (fun _ => .array moved) ∧
    moved[target]? = items[index]? ∧ moved.eraseIdx target = items.eraseIdx index ∧
    moved.Perm items
  /-- Every place outside of the array is read as before. -/
  aside : ∀ other : DataPath, DataPath.IsAside ⟨front⟩ other →
    ¬ tree.Aliased front other.segments → result.at? other = tree.at? other
  /-- The opposite move from the new place gives the tree back. -/
  undone : ∀ (last : String) (back : Option Json), Text.arrayIndex? last = some target →
    back.bind increment? = some (index - target : Int) →
    result.update? ⟨front ++ [last]⟩ back .move = some tree
  /-- There is such a move, as long as the array can be counted by a signed 64-bit integer. -/
  opposite : items.length < 0x8000000000000000 → ∃ (last : String) (back : Json),
    Text.arrayIndex? last = some target ∧ back.increment? = some (index - target : Int)

section Move

variable {tree : Json} {path : DataPath} {value : Option Json} {front : List String}
  {items : List Json} {index : Nat} {increment : Int}

/-- A move that has an effect changes the array in its place. -/
theorem CarriesMove.update?_eq (h : tree.CarriesMove path value front items index increment) :
    tree.update? path value .move =
      if clampedPlace items.length index increment = index then none
      else some (tree.modifyAt front fun _ => .array (moveElement items index value)) := by
  obtain ⟨last, hpath, hindex⟩ := h.place
  have hprobe : (Probe.node (.array items)).isEffective value .move last [] =
      (moveTarget? items.length index value).isSome := by
    simp only [Probe.isEffective, hindex, isElementEffective]
  have hmoved : writeBelow value .move (.array items) last [] =
      .array (moveElement items index value) := by
    simp only [writeBelow, updateChild, editItems, hindex]
  rw [update?_of_part h.isObject h.array rfl hpath, hprobe, hmoved,
    moveTarget?_eq h.index_lt h.increment]
  split <;> rfl

/-- Without an array, an element, an increment or an object at the root a move has no effect. -/
theorem exists_carriesMove_of_isEffective (h : tree.isEffective path value .move) :
    ∃ front items index increment, tree.CarriesMove path value front items index increment := by
  obtain ⟨items, index, target, hobject, ⟨front, last, hpath, hread, hindex⟩, htarget⟩ :=
    isEffective_move_iff.mp h
  have hlt := (moveTarget?_eq_some htarget).1
  cases hincrement : value.bind increment? with
  | none =>
    rw [moveTarget?, if_pos hlt, hincrement] at htarget
    cases htarget
  | some increment =>
    exact ⟨front, items, index, increment, hobject, ⟨last, hpath, hindex⟩, hread, hlt, hincrement⟩

/-- The opposite move, from the place where the element is by then. -/
theorem CarriesMove.opposite (h : tree.CarriesMove path value front items index increment)
    {target : Nat} (htarget : moveTarget? items.length index value = some target) {last : String}
    (hlast : Text.arrayIndex? last = some target) {back : Option Json}
    (hback : back.bind increment? = some (index - target : Int)) :
    (tree.modifyAt front fun _ => .array (moveElement items index value)).CarriesMove
      ⟨front ++ [last]⟩ back front (moveElement items index value) target (index - target) where
  isObject := by
    refine isObject_modifyAt h.isObject ?_
    rintro rfl
    cases h.array
    cases h.isObject
  place := ⟨last, rfl, hlast⟩
  array := by
    rw [get?_modifyAt, h.array]
    rfl
  index_lt := by
    rw [(moveElement_spec htarget).2.2.length_eq]
    exact (moveTarget?_eq_some htarget).2.1
  increment := hback

theorem CarriesMove.repositioned (h : tree.CarriesMove path value front items index increment)
    {target : Nat} (htarget : moveTarget? items.length index value = some target) :
    tree.Repositioned front items index target
      (tree.modifyAt front fun _ => .array (moveElement items index value)) where
  moved := ⟨_, rfl, moveElement_spec htarget⟩
  aside other haside haliased := at?_modifyAt_aside haside haliased
  undone last back hlast hback := by
    obtain ⟨-, hlt, hne⟩ := moveTarget?_eq_some htarget
    have hlength := (moveElement_spec htarget).2.2.length_eq
    have hreturn := clampedPlace_sub h.index_lt target
    have hreturns := moveTarget?_eq hlt hback
    rw [hreturn, if_neg (Ne.symm hne)] at hreturns
    rw [(h.opposite htarget hlast hback).update?_eq, hlength, hreturn, if_neg (Ne.symm hne),
      modifyAt_modifyAt, modifyAt_eq_self]
    intro found hfound
    rw [h.array] at hfound
    cases hfound
    exact congrArg Json.array (moveElement_moveElement htarget hreturns)
  opposite hlength := by
    obtain ⟨hindex, hlt, -⟩ := moveTarget?_eq_some htarget
    have hlow : -0x8000000000000000 ≤ (index - target : Int) := by omega
    have hhigh : (index - target : Int) < 0x8000000000000000 := by omega
    obtain ⟨back, hback⟩ := exists_increment?_eq hlow hhigh
    exact ⟨toString target, back, Text.arrayIndex?_toString (by omega), hback⟩

/-- **A move is a clamped repositioning that can be undone.** Let the tree be an object, and let a move
address the element `index` of an array in it and carry an increment. Without an effect is the move if
and only if the place that lies the increment further on, or the end of the array on that side, is the
place of the element. Otherwise the element is there afterwards, the other elements keep their order,
nothing outside of the array changes, and the move from there by the opposite increment gives back the
tree as it was, with its members in their order. The place is the one that signed 64-bit integers find.
Every other move is without an effect. -/
theorem clamped_move_undone (tree : Json) (path : DataPath) (value : Option Json) :
    (∀ front items index increment,
      tree.CarriesMove path value front items index increment →
        (items.length < 0x8000000000000000 →
          wordPlace items.length index increment = clampedPlace items.length index increment) ∧
        (tree.update? path value .move = none ↔
          clampedPlace items.length index increment = index) ∧
        (clampedPlace items.length index increment ≠ index →
          ∃ result, tree.update? path value .move = some result ∧
            tree.Repositioned front items index (clampedPlace items.length index increment)
              result)) ∧
    ((¬ ∃ front items index increment,
        tree.CarriesMove path value front items index increment) →
      tree.update? path value .move = none) := by
  refine ⟨fun front items index increment h => ⟨?_, ?_, fun hne => ?_⟩, fun hnone => ?_⟩
  · exact fun hlength => wordPlace_eq_clampedPlace h.index_lt hlength increment
  · rw [h.update?_eq]
    split <;> simp_all
  · have htarget := moveTarget?_eq h.index_lt h.increment
    rw [if_neg hne] at htarget
    exact ⟨_, by rw [h.update?_eq, if_neg hne], h.repositioned htarget⟩
  · rw [update?_eq_none_iff, ← Bool.not_eq_true]
    exact fun heffective => hnone (exists_carriesMove_of_isEffective heffective)

/-- Seven places after the first one is past the end of a list of three, so the element comes to stand at
the end of it. Two places back from there it is where it was. -/
theorem clamped_move_undone_past_end : ∃ tree moved : Json,
    tree.CarriesMove ⟨["list", "0"]⟩ (some (.object [("increment", .string "7")])) ["list"]
      [.bool true, .bool false, .null] 0 7 ∧
    tree.update? ⟨["list", "0"]⟩ (some (.object [("increment", .string "7")])) .move = some moved ∧
    moved.update? ⟨["list", "2"]⟩ (some (.object [("increment", .string "-2")])) .move =
      some tree := by
  have hmove : (Json.object [("list", .array [.bool true, .bool false, .null])]).CarriesMove
      ⟨["list", "0"]⟩ (some (.object [("increment", .string "7")])) ["list"]
      [.bool true, .bool false, .null] 0 7 :=
    ⟨rfl, ⟨"0", rfl, by decide⟩, rfl, by decide, by decide⟩
  obtain ⟨-, -, hmoves⟩ := (clamped_move_undone _ _ _).1 _ _ _ _ hmove
  obtain ⟨moved, hmoved, hrepositioned⟩ := hmoves (by decide)
  exact ⟨_, moved, hmove, hmoved, hrepositioned.undone "2" _ (by decide) (by decide)⟩

end Move

end DataBinding.Json
