import DataBinding.Json.Written

/-!
# Records

A record is written as an object of its fields, or as an array of them in order, of which the last
ones may be missing. Members that are no fields are ignored.

A text is read for a record of a known shape. What is no field is held to the grammar of JSON alone:
it may nest as deep as it likes, hold numbers out of range and half surrogates. A field may not
occur twice, and what is read nests at most 127 deep.

* `Json.fields?`: the fields of either form.
* `Json.field?`: the value of one field, which has a default where it may be missing.
* `Shape.read?`: the data value of a text, cut down to the shape.
-/

namespace DataBinding

/-! ## Fields -/

namespace Json

/-- The fields of a record by name. An array has at most as many elements as there are names. -/
def fields? (names : List String) : Json → Option (List (String × Json))
  | .object members => some members
  | .array items => if items.length ≤ names.length then some (names.zip items) else none
  | _ => none

/-- The decoded value of a field, or `default` if the field is missing. -/
def field? {α : Type} (fields : List (String × Json)) (name : String) (default : α)
    (decode : Json → Option α) : Option α :=
  match fields.lookup name with
  | some value => decode value
  | none => some default

/-- Decodes a value that may be `null`. -/
def nullable {α : Type} (decode : Json → Option α) : Json → Option (Option α)
  | .null => some none
  | value => (decode value).map some

/-- Writes `null` for nothing. -/
def ofNullable {α : Type} (encode : α → Json) : Option α → Json
  | some value => encode value
  | none => .null

/-- A member that is written only if there is a value. -/
def optionalMember (name : String) (value : Option Json) : List (String × Json) :=
  match value with
  | some value => [(name, value)]
  | none => []

def members? : Json → Option (List (String × Json))
  | .object members => some members
  | _ => none

def items? : Json → Option (List Json)
  | .array items => some items
  | _ => none

/-- An integer, which a double never is. -/
def integer? : Json → Option Int
  | .number (.integer value _) => some value
  | _ => none

def int32? (value : Json) : Option Int32 :=
  (value.integer?.filter fun n => -0x80000000 ≤ n && n < 0x80000000).map Int32.ofInt

def uint32? (value : Json) : Option UInt32 :=
  (value.integer?.filter fun n => 0 ≤ n && n < 0x100000000).map fun n => UInt32.ofNat n.toNat

def uint64? (value : Json) : Option UInt64 :=
  (value.integer?.filter fun n => 0 ≤ n).map fun n => UInt64.ofNat n.toNat

end Json

/-! ## Shapes -/

inductive Shape where
  /-- Any value at all. -/
  | any
  /-- A record with these fields, in order. -/
  | record (fields : List (String × Shape))
  /-- An array of equal shapes. -/
  | list (item : Shape)

namespace Shape

/-- The deepest nesting of containers in what is read. -/
def maxNesting : Nat := 127

mutual

/-- The data value of a written one, without the members that its shape does not name. A value of
another kind than its shape is left for the decoder to refuse. -/
def restrict? (shape : Shape) (room : Nat) : WrittenValue → Option Json
  | .object members =>
    match shape with
    | .record fields =>
      if room = 0 then none else (restrictMembers? fields [] (room - 1) members).map .object
    | _ => (WrittenValue.object members).toJson? room
  | .array items =>
    match shape with
    | .record fields =>
      if room = 0 then none else (restrictFields? fields (room - 1) items).map .array
    | .list item =>
      if room = 0 then none else (restrictItems? item (room - 1) items).map .array
    | .any => (WrittenValue.array items).toJson? room
  | value => value.toJson? room

/-- The members that are fields, each at most once. -/
def restrictMembers? (fields : List (String × Shape)) (seen : List String) (room : Nat) :
    List (Option String × WrittenValue) → Option (List (String × Json))
  | [] => some []
  | (name, value) :: members =>
    match name with
    | none => none
    | some name =>
      match fields.lookup name with
      | none => restrictMembers? fields seen room members
      | some shape =>
        if seen.contains name then none
        else
          match restrict? shape room value, restrictMembers? fields (name :: seen) room members with
          | some value, some members => some ((name, value) :: members)
          | _, _ => none

/-- The elements of a record that is written as an array. -/
def restrictFields? (fields : List (String × Shape)) (room : Nat) :
    List WrittenValue → Option (List Json)
  | [] => some []
  | item :: items =>
    match fields with
    | [] => none
    | (_, shape) :: fields =>
      match restrict? shape room item, restrictFields? fields room items with
      | some item, some items => some (item :: items)
      | _, _ => none

def restrictItems? (shape : Shape) (room : Nat) : List WrittenValue → Option (List Json)
  | [] => some []
  | item :: items =>
    match restrict? shape room item, restrictItems? shape room items with
    | some item, some items => some (item :: items)
    | _, _ => none

end

/-- The data value of a text, cut down to the shape. -/
def read? (shape : Shape) (text : String) : Option Json :=
  (WrittenValue.ofText? text).bind (shape.restrict? maxNesting)

end Shape

end DataBinding
