import DataBinding.Json.Basic

/-!
# Reading JSON text

Text is read in two stages. The first follows the grammar and yields a `WrittenValue`, which still
holds what the grammar allows and a data value cannot hold: a member given twice, a number beyond
the range of doubles, a string with half of a surrogate pair. The second turns a written value
into a data value, within a bound on nesting.

A number literal is read in one pass with a 64-bit significand. Whole digits that no longer fit raise
the power of ten by one each. Fraction digits count only as long as they fit. The value is then the
significand, rounded to a double, times or divided by a power of ten, rounded again. Long literals
can thus differ in their last place from the double nearest to them.

* `NumberLiteral.toNumber?`: the number, or nothing if the literal is beyond the range of doubles.
* `WrittenValue.ofText?`: the first stage.
* `WrittenValue.toJson?`: the second stage.
-/

namespace DataBinding

/-! ## Number literals -/

/-- The parts of a literal such as `-12.5e3`, as digit values. -/
structure NumberLiteral where
  negative : Bool
  whole : List Nat
  fraction : Option (List Nat)
  /-- The sign, `true` for minus, and the digits of the exponent. -/
  exponent : Option (Bool × List Nat)

namespace NumberLiteral

/-- The digits taken into a 64-bit significand, and those from the first that does not fit. -/
def accumulate : Nat → List Nat → Nat × List Nat
  | significand, [] => (significand, [])
  | significand, digit :: digits =>
    if significand * 10 + digit < 0x10000000000000000 then accumulate (significand * 10 + digit) digits
    else (significand, digit :: digits)

/-- The rank of a power of ten. -/
def powerOfTenRank (power : Nat) : Nat := Double.rankOfRatio (Nat.pow 10 power) 1

/-- The magnitude of `rank * 10 ^ power`, one rounding a step. A power below -308 is applied in steps
of `10 ^ 308`; a power above 308 is out of range unless the magnitude is zero. -/
def scale (rank : Nat) (power : Int) : Option Nat :=
  if 0 ≤ power then
    if power ≤ 308 then
      let scaled := Double.rankMul rank (powerOfTenRank power.toNat)
      if scaled < Double.rankBound then some scaled else none
    else if rank = 0 then some 0
    else none
  else if -308 ≤ power then some (Double.rankDiv rank (powerOfTenRank (-power).toNat))
  else if rank = 0 then some 0
  else scale (Double.rankDiv rank (powerOfTenRank 308)) (power + 308)
termination_by (-power).toNat

/-- The value of decimal digits. -/
def digitsValue (digits : List Nat) : Nat :=
  digits.foldl (fun value digit => value * 10 + digit) 0

/-- The largest exponent that is read as a number. -/
def maxExponent : Nat := 0x7fffffff

/-- The double of a literal that is no integer in range. -/
def toDouble? (l : NumberLiteral) : Option Double :=
  let (significand, extra) := accumulate 0 l.whole
  let fraction := l.fraction.getD []
  let (significand, dropped) := accumulate significand fraction
  let power : Int := extra.length - (fraction.length - dropped.length : Nat)
  let rank :=
    match l.exponent with
    | none => scale (Double.rankOfRatio significand 1) power
    | some (down, digits) =>
      let exponent := digitsValue digits
      if exponent ≤ maxExponent then
        scale (Double.rankOfRatio significand 1)
          (if down then power - exponent else power + exponent)
      else if significand = 0 ∨ down then some 0
      else none
  rank.bind (Double.ofRank? l.negative)

/-- The number that a literal stands for. Integers stay integers as long as they fit; minus zero is a
double. -/
def toNumber? (l : NumberLiteral) : Option Number :=
  let (significand, extra) := accumulate 0 l.whole
  let integer? :=
    if l.fraction.isSome || l.exponent.isSome || !extra.isEmpty then none
    else if l.negative then
      if significand = 0 then none else Number.ofInt? (-(significand : Int))
    else Number.ofInt? significand
  match integer? with
  | some number => some number
  | none => l.toDouble?.map .double

end NumberLiteral

/-! ## Written values -/

/-- A value as it stands in a text. A number out of range and a string or name that is no Unicode
text are `none`. -/
inductive WrittenValue where
  | null
  | bool (value : Bool)
  | number (value : Option Number)
  | string (value : Option String)
  | array (items : List WrittenValue)
  | object (members : List (Option String × WrittenValue))

/-! ## Strings -/

/-- The text of a string read so far, last character first. Escapes give UTF-16 units, of which a
high surrogate waits for the low one that has to follow it at once. -/
structure PartialText where
  chars : List Char := []
  pending : Option Nat := none
  valid : Bool := true

namespace PartialText

def pushChar (t : PartialText) (c : Char) : PartialText :=
  { chars := c :: t.chars, valid := t.valid && t.pending.isNone }

/-- Takes a UTF-16 unit. -/
def pushUnit (t : PartialText) (unit : Nat) : PartialText :=
  if 0xDC00 ≤ unit ∧ unit < 0xE000 then
    match t.pending with
    | some high =>
      { t with
        chars := Char.ofNat (0x10000 + (high - 0xD800) * 0x400 + (unit - 0xDC00)) :: t.chars
        pending := none }
    | none => { t with valid := false }
  else if 0xD800 ≤ unit ∧ unit < 0xDC00 then
    { t with pending := some unit, valid := t.valid && t.pending.isNone }
  else t.pushChar (Char.ofNat unit)

/-- The finished string, unless half of a pair stands alone. -/
def finish (t : PartialText) : Option String :=
  if t.valid && t.pending.isNone then some (String.ofList t.chars.reverse) else none

end PartialText

namespace WrittenValue

def hexDigit? (c : Char) : Option Nat :=
  if '0' ≤ c ∧ c ≤ '9' then some (c.toNat - '0'.toNat)
  else if 'a' ≤ c ∧ c ≤ 'f' then some (c.toNat - 'a'.toNat + 10)
  else if 'A' ≤ c ∧ c ≤ 'F' then some (c.toNat - 'A'.toNat + 10)
  else none

def hexUnit? (a b c d : Char) : Option Nat := do
  return (((← hexDigit? a) * 16 + (← hexDigit? b)) * 16 + (← hexDigit? c)) * 16 + (← hexDigit? d)

/-- The character that a one-letter escape stands for. -/
def escaped? : Char → Option Char
  | '"' => some '"'
  | '\\' => some '\\'
  | '/' => some '/'
  | 'b' => some '\x08'
  | 'f' => some '\x0c'
  | 'n' => some '\n'
  | 'r' => some '\r'
  | 't' => some '\t'
  | _ => none

/-- Reads up to the closing quote. Control characters have to be escaped. -/
def readString (t : PartialText) : List Char → Option (Option String × List Char)
  | [] => none
  | '"' :: rest => some (t.finish, rest)
  | '\\' :: 'u' :: a :: b :: c :: d :: rest =>
    match hexUnit? a b c d with
    | some unit => readString (t.pushUnit unit) rest
    | none => none
  | '\\' :: c :: rest =>
    match escaped? c with
    | some char => readString (t.pushChar char) rest
    | none => none
  | c :: rest => if c < ' ' ∨ c = '\\' then none else readString (t.pushChar c) rest

/-! ## Numbers -/

/-- The values of the leading digits, and what follows them. -/
def readDigits (chars : List Char) : List Nat × List Char :=
  ((chars.takeWhile Text.isDigit).map (fun c => c.toNat - '0'.toNat), chars.dropWhile Text.isDigit)

/-- The whole part: a zero, or digits that do not start with one. -/
def readWhole (chars : List Char) : Option (List Nat × List Char) :=
  match readDigits chars with
  | ([], _) => none
  | (0 :: _ :: _, _) => none
  | found => some found

def readFraction (chars : List Char) : Option (Option (List Nat) × List Char) :=
  match chars with
  | '.' :: rest =>
    match readDigits rest with
    | ([], _) => none
    | (digits, rest) => some (some digits, rest)
  | _ => some (none, chars)

/-- The sign of an exponent, `true` for minus. -/
def readSign : List Char → Bool × List Char
  | '-' :: rest => (true, rest)
  | '+' :: rest => (false, rest)
  | rest => (false, rest)

def readExponent (chars : List Char) : Option (Option (Bool × List Nat) × List Char) :=
  match chars with
  | c :: rest =>
    if c = 'e' ∨ c = 'E' then
      let (down, rest) := readSign rest
      match readDigits rest with
      | ([], _) => none
      | (digits, rest) => some (some (down, digits), rest)
    else some (none, chars)
  | [] => some (none, [])

def readNumber (chars : List Char) : Option (WrittenValue × List Char) := do
  let (negative, chars) :=
    match chars with
    | '-' :: rest => (true, rest)
    | _ => (false, chars)
  let (whole, chars) ← readWhole chars
  let (fraction, chars) ← readFraction chars
  let (exponent, chars) ← readExponent chars
  let literal : NumberLiteral := ⟨negative, whole, fraction, exponent⟩
  return (.number literal.toNumber?, chars)

/-! ## Values -/

/-- The blanks of JSON text, which are fewer than the white space of Unicode. -/
def isBlank (c : Char) : Bool := c == ' ' || c == '\t' || c == '\n' || c == '\r'

def skipBlanks (chars : List Char) : List Char := chars.dropWhile isBlank

mutual

/-- Reads one value and gives back what follows it. The first argument bounds the number of steps. -/
def readValue : Nat → List Char → Option (WrittenValue × List Char)
  | 0, _ => none
  | steps + 1, chars =>
    match skipBlanks chars with
    | 'n' :: 'u' :: 'l' :: 'l' :: rest => some (.null, rest)
    | 't' :: 'r' :: 'u' :: 'e' :: rest => some (.bool true, rest)
    | 'f' :: 'a' :: 'l' :: 's' :: 'e' :: rest => some (.bool false, rest)
    | '"' :: rest => (readString {} rest).map fun (text, rest) => (.string text, rest)
    | '[' :: rest =>
      match skipBlanks rest with
      | ']' :: rest => some (.array [], rest)
      | rest => readItems steps [] rest
    | '\x7b' :: rest =>
      match skipBlanks rest with
      | '\x7d' :: rest => some (.object [], rest)
      | rest => readMembers steps [] rest
    | rest => readNumber rest

/-- Reads the elements of an array from the next one on. -/
def readItems : Nat → List WrittenValue → List Char → Option (WrittenValue × List Char)
  | 0, _, _ => none
  | steps + 1, found, chars =>
    match readValue steps chars with
    | none => none
    | some (item, rest) =>
      match skipBlanks rest with
      | ',' :: rest => readItems steps (item :: found) rest
      | ']' :: rest => some (.array (item :: found).reverse, rest)
      | _ => none

/-- Reads the members of an object from the next one on. -/
def readMembers :
    Nat → List (Option String × WrittenValue) → List Char → Option (WrittenValue × List Char)
  | 0, _, _ => none
  | steps + 1, found, chars =>
    match skipBlanks chars with
    | '"' :: rest =>
      match readString {} rest with
      | none => none
      | some (name, rest) =>
        match skipBlanks rest with
        | ':' :: rest =>
          match readValue steps rest with
          | none => none
          | some (value, rest) =>
            match skipBlanks rest with
            | ',' :: rest => readMembers steps ((name, value) :: found) rest
            | '\x7d' :: rest => some (.object ((name, value) :: found).reverse, rest)
            | _ => none
        | _ => none
    | _ => none

end

/-- The value that a text holds, with nothing but blanks around it. Two steps a character are
enough. -/
def ofText? (text : String) : Option WrittenValue :=
  let chars := text.toList
  match readValue (2 * chars.length + 2) chars with
  | some (value, rest) => if (skipBlanks rest).isEmpty then some value else none
  | none => none

/-! ## Data values -/

mutual

/-- The data value that is written, if its containers nest at most `room` deep. Of a member given
twice the first place and the last value count. -/
def toJson? (room : Nat) : WrittenValue → Option Json
  | .null => some .null
  | .bool value => some (.bool value)
  | .number value => value.map .number
  | .string value => value.map .string
  | .array items => if room = 0 then none else (itemsToJson? (room - 1) items).map .array
  | .object members =>
    if room = 0 then none
    else
      (membersToJson? (room - 1) members).map fun members =>
        .object (members.foldl (fun found (name, value) => Json.insertMember name value found) [])

def itemsToJson? (room : Nat) : List WrittenValue → Option (List Json)
  | [] => some []
  | item :: items =>
    match toJson? room item, itemsToJson? room items with
    | some item, some items => some (item :: items)
    | _, _ => none

def membersToJson? (room : Nat) :
    List (Option String × WrittenValue) → Option (List (String × Json))
  | [] => some []
  | (name, value) :: members =>
    match name, toJson? room value, membersToJson? room members with
    | some name, some value, some members => some ((name, value) :: members)
    | _, _, _ => none

end

end WrittenValue

/-- The data value that a text holds, of whatever depth. -/
def Json.ofText? (text : String) : Option Json :=
  (WrittenValue.ofText? text).bind (WrittenValue.toJson? text.length)

end DataBinding
