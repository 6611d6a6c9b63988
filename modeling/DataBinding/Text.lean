/-!
# Text

What is read off characters: the blanks around a text, the number that its digits write, and its pieces
between the dots.

Every dot separates two pieces, so a text has one piece more than it has dots, and pieces may be
empty: the empty text is a single empty piece.

* `Text.arrayIndex?`: the index by which a segment addresses an array element; the decimal numeral of an
  index denotes it (`arrayIndex?_toString`).
* `Text.int64?`: a signed integer, which may have blanks around it.
* `Dotted.split`, `Dotted.join`: joining what was split gives the text back (`join_split`), and
  splitting what was joined gives the pieces back if none of them has a dot (`split_join`).
-/

namespace DataBinding

namespace Text

/-! ## Blanks -/

/-- Whether a character has the Unicode property `White_Space`, as 25 of them have. -/
def isBlank (c : Char) : Bool :=
  let n := c.toNat
  (0x09 ≤ n && n ≤ 0x0D) || n == 0x20 || n == 0x85 || n == 0xA0 || n == 0x1680 ||
    (0x2000 ≤ n && n ≤ 0x200A) || n == 0x2028 || n == 0x2029 || n == 0x202F || n == 0x205F ||
    n == 0x3000

/-- The characters without the blanks at both ends. -/
def trimBlanks (chars : List Char) : List Char :=
  ((chars.dropWhile isBlank).reverse.dropWhile isBlank).reverse

/-! ## Numerals -/

def isDigit (c : Char) : Bool := '0' ≤ c && c ≤ '9'

/-- The value of one or more digits. -/
def decimalValue? (chars : List Char) : Option Nat :=
  if !chars.isEmpty && chars.all isDigit then
    some (chars.foldl (fun value c => value * 10 + (c.toNat - '0'.toNat)) 0)
  else none

/-- The array index that a segment denotes: digits after an optional plus, within 64 bits. Several
segments denote the same index, such as `1`, `01` and `+1`. -/
def arrayIndex? (segment : String) : Option Nat :=
  let digits :=
    match segment.toList with
    | '+' :: rest => rest
    | chars => chars
  (decimalValue? digits).filter (· < 0x10000000000000000)

/-- A signed integer within 64 bits. -/
def int64? (text : String) : Option Int :=
  let value? : Option Int :=
    match trimBlanks text.toList with
    | '+' :: rest => (decimalValue? rest).map fun n => (n : Int)
    | '-' :: rest => (decimalValue? rest).map fun n => -(n : Int)
    | chars => (decimalValue? chars).map fun n => (n : Int)
  value?.filter fun n => -0x8000000000000000 ≤ n && n < 0x8000000000000000

/-! ## The numeral of an index -/

theorem isDigit_of_mem_toDigits {n : Nat} {c : Char} (h : c ∈ Nat.toDigits 10 n) : isDigit c := by
  have hdigit := Nat.isDigit_of_mem_toDigits (by omega) (by omega) h
  simp only [Char.isDigit, Bool.and_eq_true, decide_eq_true_eq] at hdigit
  rw [isDigit, Bool.and_eq_true, decide_eq_true_eq, decide_eq_true_eq]
  exact hdigit

theorem decimalValue?_toDigits (n : Nat) : decimalValue? (Nat.toDigits 10 n) = some n := by
  have hne : (Nat.toDigits 10 n).isEmpty = false := by simp [Nat.toDigits_ne_nil]
  have hall : (Nat.toDigits 10 n).all isDigit := by
    rw [List.all_eq_true]
    exact fun c hc => isDigit_of_mem_toDigits hc
  have hvalue : Nat.ofDigitChars 10 (Nat.toDigits 10 n) 0 = n := Nat.ofDigitChars_ten_toDigits
  rw [Nat.ofDigitChars_eq_foldl] at hvalue
  rw [decimalValue?, hne, hall]
  simp only [Nat.mul_comm _ 10, Bool.not_false, Bool.and_self, if_true, hvalue]

theorem toList_toString (n : Nat) : (toString n).toList = Nat.toDigits 10 n := by
  rw [Nat.toString_eq_ofList_toDigits, String.toList_ofList]

theorem toString_inj {m n : Nat} : toString m = toString n ↔ m = n := by
  refine ⟨fun h => ?_, fun h => congrArg toString h⟩
  have hdigits : Nat.toDigits 10 m = Nat.toDigits 10 n := by
    rw [← toList_toString, h, toList_toString]
  have hvalue := decimalValue?_toDigits m
  rw [hdigits, decimalValue?_toDigits] at hvalue
  exact (Option.some.inj hvalue).symm

theorem arrayIndex?_toString {index : Nat} (h : index < 0x10000000000000000) :
    arrayIndex? (toString index) = some index := by
  have hunsigned : ∀ rest, Nat.toDigits 10 index ≠ '+' :: rest := by
    intro rest hplus
    have hmem : '+' ∈ Nat.toDigits 10 index := by simp [hplus]
    have hdigit : isDigit '+' := isDigit_of_mem_toDigits hmem
    exact absurd hdigit (by decide)
  unfold arrayIndex?
  rw [toList_toString]
  split
  · rename_i rest hplus
    exact absurd hplus (hunsigned rest)
  · dsimp only
    rw [decimalValue?_toDigits]
    simpa using h

end Text

/-! ## Dotted text -/

namespace Dotted

/-- The pieces between the dots. -/
def splitChars : List Char → List (List Char)
  | [] => [[]]
  | c :: rest =>
    if c = '.' then [] :: splitChars rest else (splitChars rest).modifyHead (c :: ·)

def split (text : String) : List String :=
  (splitChars text.toList).map String.ofList

def join (pieces : List String) : String :=
  ".".intercalate pieces

theorem splitChars_ne_nil (chars : List Char) : splitChars chars ≠ [] := by
  induction chars with
  | nil => simp [splitChars]
  | cons c rest ih =>
    rw [splitChars]
    split
    · simp
    · simpa using ih

theorem split_ne_nil (text : String) : split text ≠ [] := by
  simp [split, splitChars_ne_nil]

/-- Joining undoes splitting. -/
theorem intercalate_splitChars (chars : List Char) :
    ['.'].intercalate (splitChars chars) = chars := by
  induction chars with
  | nil => rfl
  | cons c rest ih =>
    rw [splitChars]
    cases h : splitChars rest with
    | nil => exact absurd h (splitChars_ne_nil rest)
    | cons piece pieces =>
      rw [h] at ih
      split
      · rename_i hc
        cases pieces <;> simp_all [List.intercalate, List.intersperse]
      · cases pieces <;> simp_all [List.intercalate, List.intersperse]

/-- A text without dots is a single piece. -/
theorem splitChars_of_not_mem {piece : List Char} (h : '.' ∉ piece) :
    splitChars piece = [piece] := by
  induction piece with
  | nil => rfl
  | cons c rest ih =>
    rw [List.mem_cons, not_or] at h
    rw [splitChars, if_neg (Ne.symm h.1), ih h.2]
    rfl

/-- The piece before the first dot comes first. -/
theorem splitChars_append {piece : List Char} (h : '.' ∉ piece) (rest : List Char) :
    splitChars (piece ++ '.' :: rest) = piece :: splitChars rest := by
  induction piece with
  | nil => simp [splitChars]
  | cons c piece ih =>
    rw [List.mem_cons, not_or] at h
    rw [List.cons_append, splitChars, if_neg (Ne.symm h.1), ih h.2]
    rfl

/-- Splitting undoes joining, as long as no piece has a dot of its own. -/
theorem splitChars_intercalate {pieces : List (List Char)} (hne : pieces ≠ [])
    (h : ∀ piece ∈ pieces, '.' ∉ piece) : splitChars (['.'].intercalate pieces) = pieces := by
  induction pieces with
  | nil => exact absurd rfl hne
  | cons piece pieces ih =>
    have hpiece : '.' ∉ piece := h piece (by simp)
    cases pieces with
    | nil => simpa using splitChars_of_not_mem hpiece
    | cons next pieces =>
      have hrest : ∀ q ∈ next :: pieces, '.' ∉ q := fun q hq => h q (List.mem_cons_of_mem _ hq)
      rw [List.intercalate_cons_cons, List.append_assoc, List.singleton_append,
        splitChars_append hpiece, ih (by simp) hrest]

theorem split_join {pieces : List String} (hne : pieces ≠ [])
    (h : ∀ piece ∈ pieces, '.' ∉ piece.toList) : split (join pieces) = pieces := by
  have hchars : ∀ q ∈ pieces.map String.toList, '.' ∉ q := by
    intro q hq
    obtain ⟨piece, hpiece, rfl⟩ := List.mem_map.mp hq
    exact h piece hpiece
  rw [split, join, String.toList_intercalate]
  change (splitChars (['.'].intercalate (pieces.map String.toList))).map String.ofList = pieces
  rw [splitChars_intercalate (by simpa using hne) hchars]
  simp [Function.comp_def]

theorem join_split (text : String) : join (split text) = text := by
  apply String.toList_injective
  simp [join, split, Function.comp_def, intercalate_splitChars]

end Dotted

end DataBinding
