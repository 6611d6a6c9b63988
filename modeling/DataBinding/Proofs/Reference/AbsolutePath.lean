import Mathlib.Data.String.Basic
import DataBinding.Reference
import DataBinding.Store

/-!
# Absolute paths by segments

An absolute path is text, and resolving, the store and the evaluator each cut it up in their own way:
by counting bytes, by stripping the root, by splitting at the dots. Here all three are described
by the segments of the path.

* `Dotted.split_append`: a dot between two texts separates their segments.
* `AncestorSearch.Picks`: which occurrence of a key among the segments a search means.
* `scanBytes_of_picks`: the count of bytes ends where the segments up to that occurrence end.
* `ancestorAnchor_eq_ok_iff`, `ancestorAnchor_eq_error_iff`: the anchor is the segments up to that
  occurrence, and there is none if the key is no segment.
* `IsInside`, `IsOutside`: the paths that a store accepts and refuses (`exists_relativeToRoot_iff`,
  `relativeToRoot_eq_error_iff`).
* `relativeToRoot_of_split`, `split_of_relativeToRoot`: a path whose first segment is the root is below
  the root, and what is left of it has the other segments.
-/

namespace DataBinding

/-! ## Splitting -/

namespace Dotted

theorem splitChars_append_dot (front back : List Char) :
    splitChars (front ++ '.' :: back) = splitChars front ++ splitChars back := by
  induction front with
  | nil => simp [splitChars]
  | cons c front ih =>
    obtain ⟨piece, pieces, hsplit⟩ := List.exists_cons_of_ne_nil (splitChars_ne_nil front)
    rw [List.cons_append, splitChars, splitChars, ih]
    by_cases hdot : c = '.'
    · rw [if_pos hdot, if_pos hdot, List.cons_append]
    · rw [if_neg hdot, if_neg hdot, hsplit]
      rfl

theorem split_append (front back : String) :
    split (front ++ "." ++ back) = split front ++ split back := by
  have hchars : (front ++ "." ++ back).toList = front.toList ++ '.' :: back.toList := by simp
  rw [split, hchars, splitChars_append_dot, List.map_append]
  rfl

theorem not_mem_of_mem_splitChars {piece chars : List Char} (h : piece ∈ splitChars chars) :
    '.' ∉ piece := by
  induction chars generalizing piece with
  | nil =>
    cases List.mem_singleton.mp h
    simp
  | cons c chars ih =>
    obtain ⟨first, rest, hsplit⟩ := List.exists_cons_of_ne_nil (splitChars_ne_nil chars)
    rw [hsplit] at ih
    rw [splitChars, hsplit] at h
    by_cases hdot : c = '.'
    · rw [if_pos hdot, List.mem_cons] at h
      rcases h with rfl | h
      · simp
      · exact ih h
    · rw [if_neg hdot, List.modifyHead_cons, List.mem_cons] at h
      rcases h with rfl | h
      · rw [List.mem_cons, not_or]
        exact ⟨Ne.symm hdot, ih List.mem_cons_self⟩
      · exact ih (List.mem_cons_of_mem _ h)

theorem not_mem_of_mem_split {piece text : String} (h : piece ∈ split text) :
    '.' ∉ piece.toList := by
  obtain ⟨chars, hchars, rfl⟩ := List.mem_map.mp h
  rw [String.toList_ofList]
  exact not_mem_of_mem_splitChars hchars

/-- A text without dots is one segment. -/
theorem split_of_not_mem {text : String} (h : '.' ∉ text.toList) : split text = [text] := by
  rw [split, splitChars_of_not_mem h]
  simp

/-- The segments after the first are the segments of the text after the first dot. -/
theorem eq_append_of_split_cons {text first second : String} {rest : List String}
    (h : split text = first :: second :: rest) :
    text = first ++ "." ++ join (second :: rest) ∧
      split (join (second :: rest)) = second :: rest := by
  constructor
  · have hjoin : join (first :: second :: rest) = first ++ "." ++ join (second :: rest) :=
      String.intercalate_cons_cons
    rw [← hjoin, ← h, join_split]
  · refine split_join (by simp) fun piece hpiece => ?_
    have hmem : piece ∈ split text := by
      rw [h]
      exact List.mem_cons_of_mem _ hpiece
    exact not_mem_of_mem_split hmem

/-- A text starts with its first segments as they are when joined. -/
theorem exists_append_of_split {text piece : String} {front back : List String}
    (h : split text = front ++ piece :: back) :
    ∃ rest, text = join (front ++ [piece]) ++ rest := by
  have htext : text = join (front ++ [piece] ++ back) := by
    rw [← join_split text, h, List.append_cons]
  cases back with
  | nil => exact ⟨"", by simpa using htext⟩
  | cons next back =>
    refine ⟨"." ++ join (next :: back), ?_⟩
    rw [htext, ← String.append_assoc]
    exact String.intercalate_append_of_ne_nil (by simp) (by simp)

theorem utf8ByteSize_join_cons (first : String) {pieces : List String} (h : pieces ≠ []) :
    (join (first :: pieces)).utf8ByteSize =
      first.utf8ByteSize + 1 + (join pieces).utf8ByteSize := by
  rw [join, String.intercalate_cons_of_ne_nil h, String.utf8ByteSize_append,
    String.utf8ByteSize_append]
  rfl

end Dotted

/-- The bytes of a text that is followed by another. -/
theorem extract_append (front back : String) :
    String.Pos.Raw.extract (front ++ back) 0 front.rawEndPos = front := by
  simpa [String.rawEndPos] using String.extract_of_valid [] front.toList back.toList

/-! ## Anchors -/

/-- Which occurrence of a key a search means: behind the nearest one, or in front of the outermost one,
there is no other. -/
def AncestorSearch.Picks {α : Type} (search : AncestorSearch) (key : α) (front back : List α) :
    Prop :=
  match search with
  | .nearest => key ∉ back
  | .outermost => key ∉ front

instance {α : Type} [DecidableEq α] (search : AncestorSearch) (key : α) (front back : List α) :
    Decidable (search.Picks key front back) :=
  match search with
  | .nearest => inferInstanceAs (Decidable (key ∉ back))
  | .outermost => inferInstanceAs (Decidable (key ∉ front))

namespace AncestorSearch

variable {α : Type} {search : AncestorSearch} {key first : α} {front back : List α}

theorem exists_picks (search : AncestorSearch) {segments : List α} (h : key ∈ segments) :
    ∃ front back, segments = front ++ key :: back ∧ search.Picks key front back := by
  cases search with
  | outermost => exact List.eq_append_cons_of_mem h
  | nearest =>
    obtain ⟨back, front, hreverse, hback⟩ :=
      List.eq_append_cons_of_mem (List.mem_reverse.mpr h)
    refine ⟨front.reverse, back.reverse, ?_, ?_⟩
    · rw [← segments.reverse_reverse, hreverse]
      simp
    · exact fun hmem => hback (List.mem_reverse.mp hmem)

theorem Picks.of_cons (h : search.Picks key (first :: front) back) :
    search.Picks key front back := by
  cases search with
  | nearest => exact h
  | outermost => exact fun hmem => h (List.mem_cons_of_mem _ hmem)

/-- Only the nearest occurrence has the key in front of it. -/
theorem Picks.eq_nearest (h : search.Picks key (key :: front) back) : search = .nearest := by
  cases search with
  | nearest => rfl
  | outermost => exact absurd List.mem_cons_self h

end AncestorSearch

namespace Reference

variable {search : AncestorSearch} {key path anchor : String} {front back : List String}

theorem scanBytes_of_not_mem {segments : List String} (h : key ∉ segments)
    (found : Option String.Pos.Raw) (start : Nat) :
    scanBytes search key found start segments = found := by
  induction segments generalizing start with
  | nil => rfl
  | cons segment segments ih =>
    rw [List.mem_cons, not_or] at h
    rw [scanBytes, if_neg (Ne.symm h.1)]
    exact ih h.2 _

/-- The count ends where the segments up to the occurrence that the search means end when they are
joined, whatever was found before. -/
theorem scanBytes_of_picks (h : search.Picks key front back) (found : Option String.Pos.Raw)
    (start : Nat) :
    scanBytes search key found start (front ++ key :: back) =
      some ⟨start + (Dotted.join (front ++ [key])).utf8ByteSize⟩ := by
  induction front generalizing found start with
  | nil =>
    have hjoin : Dotted.join ([] ++ [key]) = key := String.intercalate_singleton
    rw [List.nil_append, hjoin, scanBytes, if_pos rfl]
    cases search with
    | outermost => exact if_pos rfl
    | nearest => exact scanBytes_of_not_mem h _ _
  | cons first front ih =>
    rw [List.cons_append, List.cons_append, Dotted.utf8ByteSize_join_cons first (by simp),
      ← Nat.add_assoc, ← Nat.add_assoc, scanBytes]
    by_cases hfirst : first = key
    · subst hfirst
      rw [if_pos rfl, if_neg (by simp [h.eq_nearest])]
      exact ih h.of_cons _ _
    · rw [if_neg hfirst]
      exact ih h.of_cons _ _

/-- The anchor ends at a byte if and only if the key is a segment. -/
theorem anchorByte?_eq_none_iff : anchorByte? search key path = none ↔ key ∉ Dotted.split path := by
  constructor
  · intro h hkey
    obtain ⟨front, back, hpath, hpicks⟩ := search.exists_picks hkey
    rw [anchorByte?, hpath, scanBytes_of_picks hpicks] at h
    cases h
  · exact fun h => scanBytes_of_not_mem h none 0

theorem anchorByte?_of_picks (hpath : Dotted.split path = front ++ key :: back)
    (h : search.Picks key front back) :
    anchorByte? search key path = some (Dotted.join (front ++ [key])).rawEndPos := by
  rw [anchorByte?, hpath, scanBytes_of_picks h, Nat.zero_add]
  rfl

theorem anchorByte?_eq_some_iff {stop : String.Pos.Raw} :
    anchorByte? search key path = some stop ↔
      ∃ front back, Dotted.split path = front ++ key :: back ∧ search.Picks key front back ∧
        stop = (Dotted.join (front ++ [key])).rawEndPos := by
  constructor
  · intro h
    have hkey : key ∈ Dotted.split path := by
      refine not_not.mp fun hkey => ?_
      rw [anchorByte?_eq_none_iff.mpr hkey] at h
      cases h
    obtain ⟨front, back, hpath, hpicks⟩ := search.exists_picks hkey
    rw [anchorByte?_of_picks hpath hpicks] at h
    exact ⟨front, back, hpath, hpicks, (Option.some.inj h).symm⟩
  · rintro ⟨front, back, hpath, hpicks, rfl⟩
    exact anchorByte?_of_picks hpath hpicks

theorem ancestorAnchor_eq_error_iff {error : ReferenceError} :
    ancestorAnchor search key path = .error error ↔
      error = .ancestorNotFound key path ∧ key ∉ Dotted.split path := by
  rw [← anchorByte?_eq_none_iff]
  unfold ancestorAnchor
  cases anchorByte? search key path with
  | none => simp [eq_comm]
  | some stop => simp

/-- The anchor is the segments up to the occurrence that the search means. -/
theorem ancestorAnchor_of_picks (hpath : Dotted.split path = front ++ key :: back)
    (h : search.Picks key front back) :
    ancestorAnchor search key path = .ok (Dotted.join (front ++ [key])) := by
  obtain ⟨rest, hrest⟩ := Dotted.exists_append_of_split hpath
  rw [ancestorAnchor, anchorByte?_of_picks hpath h, hrest]
  exact congrArg Except.ok (extract_append _ rest)

theorem ancestorAnchor_eq_ok_iff :
    ancestorAnchor search key path = .ok anchor ↔
      ∃ front back, Dotted.split path = front ++ key :: back ∧ search.Picks key front back ∧
        anchor = Dotted.join (front ++ [key]) := by
  constructor
  · intro h
    cases hstop : anchorByte? search key path with
    | none =>
      rw [ancestorAnchor, hstop] at h
      cases h
    | some stop =>
      obtain ⟨front, back, hpath, hpicks, -⟩ := anchorByte?_eq_some_iff.mp hstop
      rw [ancestorAnchor_of_picks hpath hpicks] at h
      exact ⟨front, back, hpath, hpicks, (Except.ok.inj h).symm⟩
  · rintro ⟨front, back, hpath, hpicks, rfl⟩
    exact ancestorAnchor_of_picks hpath hpicks

theorem split_join_of_split (hpath : Dotted.split path = front ++ key :: back) :
    Dotted.split (Dotted.join (front ++ [key])) = front ++ [key] := by
  refine Dotted.split_join (by simp) fun piece hpiece => ?_
  have hmem : piece ∈ Dotted.split path := by
    rw [hpath, List.append_cons]
    exact List.mem_append_left _ hpiece
  exact Dotted.not_mem_of_mem_split hmem

/-- An anchor is made of the first segments of the path, the last of which is the key. -/
theorem split_ancestorAnchor (h : ancestorAnchor search key path = .ok anchor) :
    ∃ front back, Dotted.split path = front ++ key :: back ∧
      Dotted.split anchor = front ++ [key] := by
  obtain ⟨front, back, hpath, -, rfl⟩ := ancestorAnchor_eq_ok_iff.mp h
  exact ⟨front, back, hpath, split_join_of_split hpath⟩

end Reference

/-! ## Below the root -/

theorem relativeToRoot_append (root rest : String) :
    relativeToRoot (root ++ "." ++ rest) root = .ok (some rest) := by
  have hne : root ++ "." ++ rest ≠ root := by
    intro heq
    have := congrArg (fun text => text.toList.length) heq
    simp at this
  have hchars : (root ++ "." ++ rest).toList = root.toList ++ '.' :: rest.toList := by simp
  rw [relativeToRoot, if_neg hne, hchars, List.isPrefixOf?_eq_some_iff_append_eq.mpr rfl]
  simp

/-! ## Inside and outside of the root -/

/-- The path is the root segment, or starts with it and a dot. -/
def IsInside (path root : String) : Prop :=
  path = root ∨ (root ++ ".").toList <+: path.toList

instance (path root : String) : Decidable (IsInside path root) :=
  inferInstanceAs (Decidable (_ ∨ _))

/-- The path is not the root segment, and does not start with it and a dot. -/
def IsOutside (path root : String) : Prop :=
  path ≠ root ∧ ¬ (root ++ ".").toList <+: path.toList

instance (path root : String) : Decidable (IsOutside path root) :=
  inferInstanceAs (Decidable (_ ∧ _))

theorem isOutside_iff {path root : String} : IsOutside path root ↔ ¬ IsInside path root :=
  not_or.symm

theorem isInside_self (root : String) : IsInside root root := Or.inl rfl

theorem IsInside.append {path root : String} (h : IsInside path root) (rest : String) :
    IsInside (path ++ "." ++ rest) root := by
  rcases h with rfl | ⟨below, hbelow⟩
  · exact Or.inr ⟨rest.toList, by simp⟩
  · exact Or.inr ⟨below ++ '.' :: rest.toList, by simp [← hbelow]⟩

theorem eq_append_of_toList {path root : String} {rest : List Char}
    (h : (root ++ ".").toList ++ rest = path.toList) :
    path = root ++ "." ++ String.ofList rest := by
  apply String.toList_injective
  simp [← h]

/-- What is inside of the root can be stripped of it. -/
theorem exists_relativeToRoot_iff {path root : String} :
    (∃ relative, relativeToRoot path root = .ok relative) ↔ IsInside path root := by
  constructor
  · rintro ⟨relative, h⟩
    unfold relativeToRoot at h
    split at h
    · rename_i hpath
      exact Or.inl hpath
    · split at h
      · rename_i rest hrest
        refine Or.inr ⟨rest, ?_⟩
        rw [← List.isPrefixOf?_eq_some_iff_append_eq.mp hrest]
        simp
      · cases h
  · rintro (rfl | ⟨rest, hrest⟩)
    · exact ⟨none, by rw [relativeToRoot, if_pos rfl]⟩
    · exact ⟨some (String.ofList rest), by rw [eq_append_of_toList hrest, relativeToRoot_append]⟩

theorem relativeToRoot_eq_error_iff {path root : String} {error : StoreError} :
    relativeToRoot path root = .error error ↔
      error = .outsideRoot path root ∧ IsOutside path root := by
  rw [isOutside_iff, ← exists_relativeToRoot_iff]
  cases hrelative : relativeToRoot path root with
  | ok relative => simp
  | error found =>
    have hfound : found = .outsideRoot path root := by
      unfold relativeToRoot at hrelative
      split at hrelative
      · cases hrelative
      · split at hrelative
        · cases hrelative
        · exact (Except.error.inj hrelative).symm
    simp [hfound, eq_comm]

/-! ## By segments -/

/-- A path that starts with the root segment is not outside of the root, and what is left of it has
the other segments. -/
theorem relativeToRoot_of_split {path root : String} {segments : List String}
    (h : Dotted.split path = root :: segments) :
    ∃ relative, relativeToRoot path root = .ok relative ∧
      segments = relative.elim [] Dotted.split := by
  cases segments with
  | nil =>
    have hpath : path = root := by
      rw [← Dotted.join_split path, h]
      simp [Dotted.join]
    exact ⟨none, by rw [relativeToRoot, if_pos hpath], rfl⟩
  | cons first rest =>
    obtain ⟨hpath, hsplit⟩ := Dotted.eq_append_of_split_cons h
    refine ⟨some (Dotted.join (first :: rest)), ?_, hsplit.symm⟩
    rw [hpath, relativeToRoot_append]

/-- A path below the root starts with the root segment, as long as that has no dot. -/
theorem split_of_relativeToRoot {path root : String} {relative : Option String}
    (hroot : '.' ∉ root.toList) (h : relativeToRoot path root = .ok relative) :
    Dotted.split path = root :: relative.elim [] Dotted.split := by
  unfold relativeToRoot at h
  split at h
  · rename_i hpath
    cases h
    rw [hpath]
    exact Dotted.split_of_not_mem hroot
  · split at h
    · rename_i rest hprefix
      cases h
      have hchars : root.toList ++ '.' :: rest = path.toList :=
        List.isPrefixOf?_eq_some_iff_append_eq.mp hprefix
      have hpath : path = root ++ "." ++ String.ofList rest := by
        apply String.toList_injective
        simp [← hchars]
      rw [hpath, Dotted.split_append, Dotted.split_of_not_mem hroot]
      rfl
    · cases h

end DataBinding
