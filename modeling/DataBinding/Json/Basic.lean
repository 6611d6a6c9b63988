import DataBinding.Json.Number
import DataBinding.Text

/-!
# Data values

A data value is a JSON value whose objects keep the order of their members. An object is read
through the first member of a name; `insertMember` overwrites in place or appends, and
`eraseMember` leaves the other members in their order.

* `Json.beq`: equality that ignores the order of members.
* `lookup_insertMember`, `lookup_eraseMember`: what is read after a member was set or removed.
* `Json.isTruthy`, `Json.isAffirmative`: which values count as set, and how flags that arrive as text are
  read.
-/

namespace DataBinding

inductive Json where
  | null
  | bool (value : Bool)
  | number (value : Number)
  | string (value : String)
  | array (items : List Json)
  | object (members : List (String × Json))

instance : Inhabited Json := ⟨.null⟩

namespace Json

/-- The members with `name` set to `value`: in its old place, or else at the end. -/
def insertMember (name : String) (value : Json) : List (String × Json) → List (String × Json)
  | [] => [(name, value)]
  | (other, old) :: rest =>
    if other = name then (name, value) :: rest
    else (other, old) :: insertMember name value rest

def eraseMember (name : String) (members : List (String × Json)) : List (String × Json) :=
  members.filter (fun member => member.1 ≠ name)

theorem lookup_cons_eq_ite (name : String) (value : Json) (rest : List (String × Json))
    (key : String) :
    ((name, value) :: rest).lookup key = if key = name then some value else rest.lookup key := by
  by_cases h : key = name
  · simp [h]
  · rw [List.lookup_cons, beq_false_of_ne h, if_neg h]

/-- Only the name that was set reads differently. -/
theorem lookup_insertMember (name : String) (value : Json) (members : List (String × Json))
    (key : String) :
    (insertMember name value members).lookup key =
      if key = name then some value else members.lookup key := by
  induction members with
  | nil => exact lookup_cons_eq_ite name value [] key
  | cons member rest ih =>
    obtain ⟨other, old⟩ := member
    rw [insertMember]
    by_cases hname : other = name
    · subst other
      rw [if_pos rfl, lookup_cons_eq_ite, lookup_cons_eq_ite]
      by_cases hkey : key = name <;> simp [hkey]
    · rw [if_neg hname, lookup_cons_eq_ite, lookup_cons_eq_ite, ih]
      by_cases hkey : key = other
      · subst key
        simp [hname]
      · simp [hkey]

/-- A removed name reads as missing and all others as before. -/
theorem lookup_eraseMember (name : String) (members : List (String × Json)) (key : String) :
    (eraseMember name members).lookup key =
      if key = name then none else members.lookup key := by
  unfold eraseMember
  induction members with
  | nil => simp
  | cons member rest ih =>
    obtain ⟨other, old⟩ := member
    rw [List.filter_cons, lookup_cons_eq_ite]
    by_cases hname : other = name
    · subst other
      rw [if_neg (by simp), ih]
      by_cases hkey : key = name <;> simp [hkey]
    · rw [if_pos (by simpa using hname), lookup_cons_eq_ite, ih]
      by_cases hkey : key = other
      · subst key
        simp [hname]
      · simp [hkey]

/-- Whether a value has members or elements of its own. -/
def isComposite : Json → Bool
  | .array _ | .object _ => true
  | _ => false

def isArray : Json → Bool
  | .array _ => true
  | _ => false

def isObject : Json → Bool
  | .object _ => true
  | _ => false

theorem exists_of_isObject {value : Json} (h : value.isObject) :
    ∃ members, value = .object members := by
  cases value with
  | object members => exact ⟨members, rfl⟩
  | _ => cases h

def isNull : Json → Bool
  | .null => true
  | _ => false

/-- The member of an object; nothing else has members. -/
def member? (name : String) : Json → Option Json
  | .object members => members.lookup name
  | _ => none

def string? : Json → Option String
  | .string value => some value
  | _ => none

def bool? : Json → Option Bool
  | .bool value => some value
  | _ => none

/-- The name of the kind of a value. -/
def typeName : Json → String
  | .null => "null"
  | .bool _ => "boolean"
  | .number _ => "number"
  | .string _ => "string"
  | .array _ => "array"
  | .object _ => "object"

/-! ## Equality -/

mutual

/-- Equality of values. Two objects are equal if they have the same names and equal values under
each of them, in whatever order. -/
protected def beq : Json → Json → Bool
  | .null, .null => true
  | .bool a, .bool b => a == b
  | .number a, .number b => a == b
  | .string a, .string b => a == b
  | .array items, .array others => beqItems items others
  | .object members, .object others =>
    beqMembers [] members others &&
      others.all (fun other => (members.lookup other.1).isSome)
  | _, _ => false

/-- Equality element by element. -/
def beqItems : List Json → List Json → Bool
  | [], [] => true
  | item :: items, other :: others => Json.beq item other && beqItems items others
  | _, _ => false

/-- Whether every member has an equal partner under its name. A name that occurred before is not
looked at again, as an object is read through the first member of a name. -/
def beqMembers : List String → List (String × Json) → List (String × Json) → Bool
  | _, [], _ => true
  | seen, (name, value) :: members, others =>
    (seen.contains name ||
      match others.lookup name with
      | some other => Json.beq value other
      | none => false) &&
    beqMembers (name :: seen) members others

end

instance : BEq Json := ⟨Json.beq⟩

/-! ## Truth -/

/-- Whether a value counts as set: `null`, `false`, zero and the empty string do not. -/
def isTruthy : Json → Bool
  | .null => false
  | .bool value => value
  | .number value => !value.isZero
  | .string value => !value.isEmpty
  | .array _ | .object _ => true

/-- The words that deny, in lower case. -/
def denials : List String := ["false", "no", "0", "null", "undefined"]

/-- The truth of a flag. A text denies if it is one of `denials`, blanks around it and the case of
its letters apart; any other text that is not empty affirms. No letter beyond ASCII has an ASCII
letter alone as its lower case except the Kelvin sign, and no denial has a `k`. -/
def isAffirmative : Json → Bool
  | .string value =>
    !value.isEmpty &&
      !denials.contains (String.ofList ((Text.trimBlanks value.toList).map Char.toLower))
  | value => value.isTruthy

end Json

end DataBinding
