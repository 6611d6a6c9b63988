import DataBinding.Json.Basic

/-!
# Compact text of data values

The text has no blanks, members in their order, and escapes only where JSON demands them.

A double is written with the fewest significant digits that read back as the same double, and with
the digits nearest to its value among those. Between `0.00001` and `10 ^ 16` the text is
positional, elsewhere it has an exponent with its sign.

* `Double.shortest`: the digits and the power of ten.
* `Double.text`, `Json.text`: the texts.
-/

namespace DataBinding

/-! ## Doubles -/

/-- The number `coefficient * 10 ^ power`. -/
structure Decimal where
  coefficient : Nat
  power : Int

namespace Decimal

def num (d : Decimal) : Nat := d.coefficient * Nat.pow 10 d.power.toNat

def den (d : Decimal) : Nat := Nat.pow 10 (-d.power).toNat

end Decimal

namespace Double

def readsBack (rank : Nat) (d : Decimal) : Bool :=
  rankOfRatio d.num d.den == rank

/-- The power of ten of the leading digit of a positive magnitude. The smallest magnitude is above
`10 ^ (-324)`, so the magnitude shifted by 324 places has an integer part. -/
def leadingPower (rank : Nat) : Int :=
  (Nat.toDigits 10 (units rank * Nat.pow 10 324 / unitsPerOne)).length - 325

/-- A decimal in multiples of `10 ^ power` that reads back as `rank`: one of the two neighbours of
the magnitude on that grid, the nearer one if both will do, the even one if both are as near. -/
def onGrid? (rank : Nat) (power : Int) : Option Decimal :=
  let num := units rank * Nat.pow 10 (-power).toNat
  let den := unitsPerOne * Nat.pow 10 power.toNat
  let below : Decimal := ⟨num / den, power⟩
  let above : Decimal := ⟨num / den + 1, power⟩
  if readsBack rank below then
    if readsBack rank above then some ⟨divideRounded num den, power⟩ else some below
  else if readsBack rank above then some above
  else none

/-- The shortest decimal that reads back as `rank`. Seventeen digits always suffice. -/
def shortest (rank : Nat) : Decimal :=
  let leading := leadingPower rank
  ((List.range 17).findSome? fun (extra : Nat) => onGrid? rank (leading - extra)).getD ⟨0, 0⟩

/-- Decimal digits without the zeros at their end. -/
def significantDigits (n : Nat) : List Char :=
  ((Nat.toDigits 10 n).reverse.dropWhile (· == '0')).reverse

/-- Positional text, the leading digit standing for a power of ten from -5 to 15. At least one digit
stands on each side of the point. -/
def positionalText (digits : List Char) (leading : Int) : List Char :=
  if leading < 0 then
    '0' :: '.' :: List.replicate (-leading - 1).toNat '0' ++ digits
  else
    let whole := leading.toNat + 1
    let fraction := digits.drop whole
    digits.take whole ++ List.replicate (whole - digits.length) '0' ++
      '.' :: (if fraction.isEmpty then ['0'] else fraction)

/-- Text with an exponent; a single digit has no point after it. -/
def exponentText (digits : List Char) (leading : Int) : List Char :=
  let fraction := digits.drop 1
  digits.take 1 ++ (if fraction.isEmpty then [] else '.' :: fraction) ++
    'e' :: (if leading < 0 then '-' else '+') :: Nat.toDigits 10 leading.natAbs

def text (x : Double) : String :=
  let magnitude :=
    if x.rank = 0 then ['0', '.', '0']
    else
      let decimal := shortest x.rank
      let leading := decimal.power + (Nat.toDigits 10 decimal.coefficient).length - 1
      let digits := significantDigits decimal.coefficient
      if -5 ≤ leading ∧ leading ≤ 15 then positionalText digits leading
      else exponentText digits leading
  String.ofList (if x.negative then '-' :: magnitude else magnitude)

end Double

/-! ## Values -/

def Number.text : Number → String
  | .integer value _ => toString value
  | .double value => value.text

namespace Json

/-- Quotes, backslashes and control characters are escaped, all else stands for itself. -/
def escapeChar (c : Char) : List Char :=
  if c = '"' then ['\\', '"']
  else if c = '\\' then ['\\', '\\']
  else if c = '\n' then ['\\', 'n']
  else if c = '\r' then ['\\', 'r']
  else if c = '\t' then ['\\', 't']
  else if c = '\x08' then ['\\', 'b']
  else if c = '\x0c' then ['\\', 'f']
  else if c < ' ' then
    ['\\', 'u', '0', '0', Nat.digitChar (c.toNat / 16), Nat.digitChar (c.toNat % 16)]
  else [c]

/-- A string between quotes. -/
def quote (s : String) : String :=
  String.ofList ('"' :: s.toList.flatMap escapeChar ++ ['"'])

mutual

/-- The compact text of a value. -/
def text : Json → String
  | .null => "null"
  | .bool value => if value then "true" else "false"
  | .number value => value.text
  | .string value => quote value
  | .array items => "[" ++ ",".intercalate (itemTexts items) ++ "]"
  | .object members => "\x7b" ++ ",".intercalate (memberTexts members) ++ "\x7d"

def itemTexts : List Json → List String
  | [] => []
  | item :: items => text item :: itemTexts items

def memberTexts : List (String × Json) → List String
  | [] => []
  | (name, value) :: members => (quote name ++ ":" ++ text value) :: memberTexts members

end

end Json

end DataBinding
