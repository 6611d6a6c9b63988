import DataBinding.DataPath

/-!
# Updates of a tree

An update applies a value at a path, in one of four modes. It goes down the path and changes what is at
the end. On the way a root that is no object, and a missing or scalar value, count as the empty object;
an array is entered by index and filled with `null` up to it; a segment that denotes no index makes the
update a no-op at an array.

Every update is first probed without touching the tree, and only an effective one is written. So a
no-op leaves no trace: nothing is created, padded or coerced on the way.

* `getElem?_setElement`: what an array holds after an element was set.
* `Json.isEffective`: the probe, which goes down to the place and stops at what a write would create.
* `Json.write`: the tree with the update written, which creates what is missing.
* `Json.update?`: the new tree, or nothing if the update is a no-op.
-/

namespace DataBinding

/-! ## Modes -/

inductive UpdateMode where
  /-- Set the value, or delete what is there when no value is given. -/
  | replace
  /-- Append to the array, which is created if it is missing. -/
  | add
  /-- Take out an array element. -/
  | remove
  /-- Reposition an array element by an increment. -/
  | move
  deriving DecidableEq

namespace UpdateMode

/-- The mode of a name; the empty name means `replace`. -/
def named? : String → Option UpdateMode
  | "" | "replace" => some .replace
  | "add" => some .add
  | "remove" => some .remove
  | "move" => some .move
  | _ => none

/-- The mode of a name, where names that are unknown mean `replace`. -/
def ofName (name : String) : UpdateMode := (named? name).getD .replace

def name : UpdateMode → String
  | .replace => "replace"
  | .add => "add"
  | .remove => "remove"
  | .move => "move"

end UpdateMode

namespace Json

/-! ## Parts of containers -/

/-- Sets an element, with `null` in the places between the end of the array and a later index. A list has
room for any index; an update that runs out of memory, as at 18446744073709551615, where the length of
the array overflows, is a failure without a result and not described here. -/
def setElement (items : List Json) (index : Nat) (value : Json) : List Json :=
  if index < items.length then items.set index value
  else items ++ List.replicate (index - items.length) .null ++ [value]

/-- The set element is in its place, `null` is in the places that were made for it, and every other
place is as before. -/
theorem getElem?_setElement (items : List Json) (index : Nat) (value : Json) (place : Nat) :
    (setElement items index value)[place]? =
      if place = index then some value
      else if items.length ≤ place ∧ place < index then some .null
      else items[place]? := by
  unfold setElement
  by_cases hindex : index < items.length
  · rw [if_pos hindex, List.getElem?_set]
    by_cases hplace : index = place
    · subst place
      simp [hindex]
    · have hgap : ¬ (items.length ≤ place ∧ place < index) := by omega
      rw [if_neg hplace, if_neg (Ne.symm hplace), if_neg hgap]
  · rw [if_neg hindex, List.append_assoc, List.getElem?_append]
    by_cases hold : place < items.length
    · have hne : place ≠ index := by omega
      have hgap : ¬ (items.length ≤ place ∧ place < index) := by omega
      rw [if_pos hold, if_neg hne, if_neg hgap]
    · rw [if_neg hold, List.getElem?_append, List.length_replicate]
      by_cases hgap : place < index
      · have hlt : place - items.length < index - items.length := by omega
        have hne : place ≠ index := by omega
        rw [if_pos hlt, if_neg hne, if_pos ⟨by omega, hgap⟩, List.getElem?_replicate, if_pos hlt]
      · have hge : ¬ place - items.length < index - items.length := by omega
        rw [if_neg hge]
        by_cases hplace : place = index
        · subst place
          simp
        · have hlast : 1 ≤ place - items.length - (index - items.length) := by omega
          rw [if_neg hplace, if_neg (fun h => hgap h.2), List.getElem?_eq_none (by simpa using hlast),
            List.getElem?_eq_none (by omega)]

/-- The array with a value at its end. Nothing else can grow. -/
def push (current value : Json) : Json :=
  match current with
  | .array items => .array (items ++ [value])
  | other => other

/-- Changes the elements of an array around the index that a segment denotes. -/
def editItems (container : Json) (segment : String) (edit : List Json → Nat → List Json) : Json :=
  match container, Text.arrayIndex? segment with
  | .array items, some index => .array (edit items index)
  | other, _ => other

/-- Puts a child at a segment: a member, or the element of the index that the segment denotes. -/
def setChild (container : Json) (segment : String) (child : Json) : Json :=
  match container with
  | .object members => .object (insertMember segment child members)
  | other => other.editItems segment (setElement · · child)

/-- Deletes the child at a segment. Deleting an element leaves `null` in its place. -/
def deleteChild (container : Json) (segment : String) : Json :=
  match container with
  | .object members => .object (eraseMember segment members)
  | other => other.editItems segment (setElement · · .null)

/-- A value to go down into: containers stay, all else counts as the empty object. -/
def asContainer : Option Json → Json
  | some (.array items) => .array items
  | some (.object members) => .object members
  | _ => .object []

/-- The root to go down into: only an object stays. -/
def asRoot : Json → Json
  | .object members => .object members
  | _ => .object []

/-! ## Moves -/

/-- The signed 64-bit number that a move carries as its `increment`: a number, or a numeral. -/
def increment? (value : Json) : Option Int :=
  match value.member? "increment" with
  | some (.number n) => some n.toInt64Saturating
  | some (.string text) => Text.int64? text
  | _ => none

/-- Where the element at `index` comes to stand after a move, which ends at either end of the array.
Nothing if it stays. -/
def moveTarget? (length index : Nat) (value : Option Json) : Option Nat :=
  if index < length then
    match value.bind increment? with
    | some increment =>
      let target := (max 0 (min (index + increment) (length - 1 : Int))).toNat
      if target = index then none else some target
    | none => none
  else none

def moveElement (items : List Json) (index : Nat) (value : Option Json) : List Json :=
  match items[index]?, moveTarget? items.length index value with
  | some item, some target => (items.eraseIdx index).insertIdx target item
  | _, _ => items

/-! ## The probe -/

inductive Probe where
  /-- At an array or object of the tree. -/
  | node (value : Json)
  /-- Where a write would make an empty object. -/
  | fresh

def Probe.ofChild : Option Json → Probe
  | some child => if child.isComposite then .node child else .fresh
  | none => .fresh

def isFreshEffective (value : Option Json) : UpdateMode → Bool
  | .replace | .add => value.isSome
  | .remove | .move => false

/-- Whether a value can be appended to what is there. An array does not grow by a value equal to
itself. -/
def isAddEffective (current value : Option Json) : Bool :=
  match value, current with
  | none, _ => false
  | some _, none => true
  | some value, some current => !(current == value) && current.isArray

def isMemberEffective (current value : Option Json) : UpdateMode → Bool
  | .replace =>
    match value with
    | some value => !(current == some value)
    | none => current.isSome
  | .add => isAddEffective current value
  | .remove | .move => false

/-- Whether an update of the element at `index` has an effect. Deleting an element leaves `null` in
its place. -/
def isElementEffective (items : List Json) (index : Nat) (value : Option Json) :
    UpdateMode → Bool
  | .replace =>
    match value with
    | some value => !(items[index]? == some value)
    | none => items[index]?.any (!·.isNull)
  | .add => isAddEffective items[index]? value
  | .remove => index < items.length
  | .move => (moveTarget? items.length index value).isSome

/-- Whether an update at a segment and the segments below it has an effect. -/
def Probe.isEffective (value : Option Json) (mode : UpdateMode) :
    Probe → String → List String → Bool
  | .fresh, _, [] => isFreshEffective value mode
  | .node (.object members), segment, [] =>
    isMemberEffective (members.lookup segment) value mode
  | .node (.array items), segment, [] =>
    match Text.arrayIndex? segment with
    | some index => isElementEffective items index value mode
    | none => false
  | .node _, _, [] => false
  | .fresh, _, next :: segments => Probe.fresh.isEffective value mode next segments
  | .node container, segment, next :: segments =>
    if container.isArray && (Text.arrayIndex? segment).isNone then false
    else (Probe.ofChild (container.child? segment)).isEffective value mode next segments

/-- Whether an update has an effect. At the root only a different value in its place has one. -/
def isEffective (tree : Json) (path : DataPath) (value : Option Json) (mode : UpdateMode) : Bool :=
  match path.segments with
  | [] =>
    match mode, value with
    | .replace, some value => !(tree == value)
    | _, _ => false
  | segment :: segments =>
    let start :=
      match tree with
      | .object members => .node (.object members)
      | _ => .fresh
    Probe.isEffective value mode start segment segments

/-! ## The write -/

def updateChild (container : Json) (segment : String) (value : Option Json) : UpdateMode → Json
  | .replace =>
    match value with
    | some value => container.setChild segment value
    | none => container.deleteChild segment
  | .add =>
    match value with
    | some value =>
      container.setChild segment (((container.child? segment).getD (.array [])).push value)
    | none => container
  | .remove => container.editItems segment List.eraseIdx
  | .move => container.editItems segment (moveElement · · value)

/-- A container after an update at a segment and the segments below it. -/
def writeBelow (value : Option Json) (mode : UpdateMode) : Json → String → List String → Json
  | container, segment, [] => container.updateChild segment value mode
  | container, segment, next :: segments =>
    container.setChild segment
      (writeBelow value mode (asContainer (container.child? segment)) next segments)

def write (tree : Json) (path : DataPath) (value : Option Json) (mode : UpdateMode) : Json :=
  match path.segments with
  | [] => value.getD tree
  | segment :: segments => writeBelow value mode tree.asRoot segment segments

/-- The tree after an update, or nothing if the update changes nothing. -/
def update? (tree : Json) (path : DataPath) (value : Option Json) (mode : UpdateMode) :
    Option Json :=
  if tree.isEffective path value mode then some (tree.write path value mode) else none

end Json

end DataBinding
