import Mathlib.Data.Set.Function
import DataBinding.Reference

/-!
# The grammar of references

The signs of the six forms are told apart by their first characters, and what stands behind a sign is taken
as it is; only an ancestor search cuts it up, at its first dot. So no text is read in two ways, what was
read is written as it was, and what is written is read as it was meant, unless the key of an ancestor
search has a dot of its own.

* `Reference.IsReferenceText`: the texts that are references.
* `Reference.HasPlainKey`: the references that can be told from their text.
* `Reference.parse?_eq_some_iff`: a text is read as a reference of which it is the text, and of no other.
* `Reference.grammar_unambiguous`: reading and writing are inverse to each other.
-/

namespace DataBinding.Reference

/-- The two roots by themselves, and whatever starts with one of the other four signs. -/
def IsReferenceText (text : String) : Prop :=
  text = "~" ∨ text = "~~" ∨ ∃ start ∈ ["~.", "~~.", "~>", "~~>"], ∃ rest, text = start ++ rest

/-- The key of an ancestor search has no dot. Other references have no key. -/
def HasPlainKey : Reference → Prop
  | .ancestor _ key _ => '.' ∉ key.toList
  | _ => True

variable {key text : String} {reference : Reference}

/-! ## Ancestor searches -/

/-- Behind the sign stand the key and, behind a dot, the rest. -/
theorem toList_text_ancestor (search : AncestorSearch) (key : String) (rest : Option String) :
    (ancestor search key rest).text.toList =
      (sign search).toList ++ (key.toList ++ rest.elim [] ('.' :: ·.toList)) := by
  cases rest <;> simp [text]

/-- The key ends at the first dot, so one without dots is read whole. -/
theorem ancestorOf_of_not_mem (search : AncestorSearch) (hkey : '.' ∉ key.toList)
    (rest : Option String) :
    ancestorOf search (key.toList ++ rest.elim [] ('.' :: ·.toList)) =
      ancestor search key rest := by
  have hall : ∀ c ∈ key.toList, (c ≠ '.' : Bool) := by
    intro c hc
    exact decide_eq_true (ne_of_mem_of_not_mem hc hkey)
  unfold ancestorOf
  rw [List.takeWhile_append_of_pos hall, List.dropWhile_append_of_pos hall]
  cases rest <;> simp

/-- Whatever stands behind the sign is cut up into a key without dots and a rest. -/
theorem exists_key_and_rest (tail : List Char) :
    ∃ (key : String) (rest : Option String),
      '.' ∉ key.toList ∧ tail = key.toList ++ rest.elim [] ('.' :: ·.toList) := by
  by_cases hdot : '.' ∈ tail
  · obtain ⟨front, back, htail, hfront⟩ := List.eq_append_cons_of_mem hdot
    exact ⟨String.ofList front, some (String.ofList back), by simpa using hfront,
      by simpa using htail⟩
  · exact ⟨String.ofList tail, none, by simpa using hdot, by simp⟩

theorem ancestorOf_spec (search : AncestorSearch) (tail : List Char) :
    (ancestorOf search tail).HasPlainKey ∧
      (ancestorOf search tail).text.toList = (sign search).toList ++ tail := by
  obtain ⟨key, rest, hkey, rfl⟩ := exists_key_and_rest tail
  rw [ancestorOf_of_not_mem search hkey]
  exact ⟨hkey, toList_text_ancestor search key rest⟩

theorem parse?_ancestor (search : AncestorSearch) (hkey : '.' ∉ key.toList) (rest : Option String) :
    parse? (ancestor search key rest).text = some (ancestor search key rest) := by
  rw [parse?, toList_text_ancestor, ← ancestorOf_of_not_mem search hkey rest]
  cases search <;> rfl

/-! ## Reading and writing -/

/-- What was read is written as it was. -/
theorem of_ofChars?_eq_some {chars : List Char} (h : ofChars? chars = some reference) :
    reference.HasPlainKey ∧ reference.text.toList = chars := by
  unfold ofChars? at h
  -- One case for each form, in the order in which they are tried, and one for all other texts.
  split at h
  · cases h
    exact ⟨trivial, rfl⟩
  · cases h
    exact ⟨trivial, rfl⟩
  · cases h
    exact ⟨trivial, by simp [text]⟩
  · cases h
    exact ⟨trivial, by simp [text]⟩
  · cases h
    exact ancestorOf_spec .outermost _
  · cases h
    exact ancestorOf_spec .nearest _
  · cases h

/-- What is written is read again. -/
theorem parse?_text (h : reference.HasPlainKey) : parse? reference.text = some reference := by
  cases reference with
  | localRoot => rfl
  | globalRoot => rfl
  | localPath rest =>
    have hchars : (localPath rest).text.toList = '~' :: '.' :: rest.toList := by simp [text]
    rw [parse?, hchars, ofChars?, String.ofList_toList]
  | globalPath rest =>
    have hchars : (globalPath rest).text.toList = '~' :: '~' :: '.' :: rest.toList := by
      simp [text]
    rw [parse?, hchars, ofChars?, String.ofList_toList]
  | ancestor search key rest => exact parse?_ancestor search h rest

theorem parse?_eq_some_iff :
    parse? text = some reference ↔ reference.HasPlainKey ∧ reference.text = text := by
  constructor
  · intro h
    obtain ⟨hkey, hchars⟩ := of_ofChars?_eq_some h
    exact ⟨hkey, String.toList_injective hchars⟩
  · rintro ⟨hkey, rfl⟩
    exact parse?_text hkey

/-! ## Which texts are references -/

/-- A reference is written with the sign of its form. -/
theorem isReferenceText_text (reference : Reference) : IsReferenceText reference.text := by
  cases reference with
  | localRoot => exact Or.inl rfl
  | globalRoot => exact Or.inr (Or.inl rfl)
  | localPath rest => exact Or.inr (Or.inr ⟨"~.", by simp, rest, rfl⟩)
  | globalPath rest => exact Or.inr (Or.inr ⟨"~~.", by simp, rest, rfl⟩)
  | ancestor search key rest =>
    refine Or.inr (Or.inr ⟨sign search, ?_, key ++ rest.elim "" ("." ++ ·), ?_⟩)
    · cases search <;> simp [sign]
    · cases rest <;> simp [text, String.append_assoc]

/-- Whatever follows a sign, the text is a reference. -/
theorem isSome_parse?_iff : (parse? text).isSome ↔ IsReferenceText text := by
  constructor
  · intro h
    obtain ⟨reference, hreference⟩ := Option.isSome_iff_exists.mp h
    obtain ⟨-, rfl⟩ := parse?_eq_some_iff.mp hreference
    exact isReferenceText_text reference
  · rintro (rfl | rfl | ⟨start, hstart, rest, rfl⟩)
    · rfl
    · rfl
    · -- The sign alone decides the form, so the rest is not looked at.
      rw [parse?, String.toList_append]
      simp only [List.mem_cons, List.not_mem_nil, or_false] at hstart
      rcases hstart with rfl | rfl | rfl | rfl <;> rfl

/-- The grammar of references is unambiguous. A text is a reference if and only if it is one of the two
roots or starts with one of the other signs. It is read as the reference whose text it is, and a
reference is read from its text if and only if its key has no dot. So writing is a bijection from the
references with such keys to the texts that are references, and reading is its inverse. -/
theorem grammar_unambiguous :
    (∀ text, (parse? text).isSome ↔ IsReferenceText text) ∧
    (∀ text reference,
      parse? text = some reference ↔ reference.HasPlainKey ∧ reference.text = text) ∧
    Set.BijOn Reference.text {reference | reference.HasPlainKey} {text | IsReferenceText text} := by
  refine ⟨fun text => isSome_parse?_iff, fun text reference => parse?_eq_some_iff, ?_, ?_, ?_⟩
  · exact fun reference _ => isReferenceText_text reference
  · -- Two references with one text are both what is read from it.
    intro reference hkey other hother htext
    have hsame : some reference = some other := by
      rw [← parse?_text hkey, htext, parse?_text hother]
    exact Option.some.inj hsame
  · intro text htext
    obtain ⟨reference, hreference⟩ := Option.isSome_iff_exists.mp (isSome_parse?_iff.mpr htext)
    exact ⟨reference, parse?_eq_some_iff.mp hreference⟩

/-- A key may be empty or look like a sign, and a rest that is empty differs from none. -/
example :
    parse? "~>" = some (.ancestor .nearest "" none) ∧
      parse? "~>." = some (.ancestor .nearest "" (some "")) ∧
      parse? "~~>~>k." = some (.ancestor .outermost "~>k" (some "")) ∧
      parse? "~~~" = none :=
  ⟨rfl, rfl, rfl, rfl⟩

end DataBinding.Reference
