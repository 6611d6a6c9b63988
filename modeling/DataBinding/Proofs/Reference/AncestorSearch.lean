import DataBinding.Proofs.Reference.AbsolutePath
import DataBinding.Proofs.Reference.Grammar

/-!
# The segment that an ancestor search finds

An ancestor search names a segment of the current path, and the anchor is the path up to it. The path is
cut off without looking at its characters: the bytes of its segments and of the dots between them are
counted, and the count stops at the first occurrence of the key or keeps the last. What is cut off that
way is always made of whole segments, so the anchor is a path of its own, on which the search ends at the
same segment.

* `Reference.exists_slice`: the byte at which an anchor ends is in range and no part of a character.
* `Reference.resolveText_ancestor_eq_ok_iff`, `resolveText_ancestor_eq_error_iff`: what a search resolves
  to, and when it fails.
* `Reference.ancestorAnchor_anchor`: a search finds its own anchor again.
* `Reference.resolveText_ancestor`: these together.
-/

namespace DataBinding.Reference

variable {search : AncestorSearch} {key : String}

/-! ## Cutting a path -/

/-- A path can be cut where its anchor ends, and what is cut off is the anchor. -/
theorem exists_slice {path : String} {stop : String.Pos.Raw}
    (h : anchorByte? search key path = some stop) :
    ∃ hvalid : stop.IsValid path,
      ancestorAnchor search key path = .ok (path.sliceTo ⟨stop, hvalid⟩).copy := by
  obtain ⟨front, back, hpath, hpicks, rfl⟩ := anchorByte?_eq_some_iff.mp h
  obtain ⟨rest, hrest⟩ := Dotted.exists_append_of_split hpath
  have hvalid : (Dotted.join (front ++ [key])).rawEndPos.IsValid path :=
    String.Pos.Raw.isValid_iff_exists_append.mpr ⟨_, rest, hrest, rfl⟩
  have hsplits : (⟨_, hvalid⟩ : path.Pos).Splits (Dotted.join (front ++ [key])) rest :=
    ⟨hrest, rfl⟩
  refine ⟨hvalid, ?_⟩
  rw [ancestorAnchor_of_picks hpath hpicks, hsplits.copy_sliceTo_eq]

/-! ## What a search resolves to -/

section Resolving

variable {current localPath globalPath : String} {rest : Option String}

/-- The rest is appended to the anchor behind a dot. -/
theorem resolveText_ancestor_eq_map (search : AncestorSearch) (hkey : '.' ∉ key.toList) :
    resolveText current localPath globalPath (ancestor search key rest).text =
      (ancestorAnchor search key current).map (· ++ rest.elim "" ("." ++ ·)) := by
  rw [resolveText, parse?_ancestor search hkey]
  dsimp only
  cases rest with
  | none =>
    rw [resolve]
    cases ancestorAnchor search key current <;> simp [Except.map]
  | some rest =>
    rw [resolve]
    cases ancestorAnchor search key current <;> simp [Except.map, String.append_assoc]

theorem resolveText_ancestor_eq_ok_iff (hkey : '.' ∉ key.toList) {absolute : String} :
    resolveText current localPath globalPath (ancestor search key rest).text = .ok absolute ↔
      ∃ front back, Dotted.split current = front ++ key :: back ∧ search.Picks key front back ∧
        absolute = Dotted.join (front ++ [key]) ++ rest.elim "" ("." ++ ·) := by
  rw [resolveText_ancestor_eq_map search hkey]
  constructor
  · intro h
    cases hanchor : ancestorAnchor search key current with
    | error error =>
      rw [hanchor] at h
      cases h
    | ok anchor =>
      rw [hanchor] at h
      cases h
      obtain ⟨front, back, hpath, hpicks, rfl⟩ := ancestorAnchor_eq_ok_iff.mp hanchor
      exact ⟨front, back, hpath, hpicks, rfl⟩
  · rintro ⟨front, back, hpath, hpicks, rfl⟩
    rw [ancestorAnchor_of_picks hpath hpicks]
    rfl

theorem resolveText_ancestor_eq_error_iff (hkey : '.' ∉ key.toList) {error : ReferenceError} :
    resolveText current localPath globalPath (ancestor search key rest).text = .error error ↔
      error = .ancestorNotFound key current ∧ key ∉ Dotted.split current := by
  rw [resolveText_ancestor_eq_map search hkey, ← ancestorAnchor_eq_error_iff]
  cases ancestorAnchor search key current <;> simp [Except.map]

theorem resolveText_ancestor_none (search : AncestorSearch) (hkey : '.' ∉ key.toList) :
    resolveText current localPath globalPath (ancestor search key none).text =
      ancestorAnchor search key current := by
  rw [resolveText_ancestor_eq_map search hkey]
  cases ancestorAnchor search key current <;> simp [Except.map]

end Resolving

/-- No segment follows the key in its anchor, and none in front of it has changed. -/
theorem ancestorAnchor_anchor {path anchor : String}
    (h : ancestorAnchor search key path = .ok anchor) :
    ancestorAnchor search key anchor = .ok anchor := by
  obtain ⟨front, back, hpath, hpicks, rfl⟩ := ancestorAnchor_eq_ok_iff.mp h
  have hsplit : Dotted.split (Dotted.join (front ++ [key])) = front ++ key :: [] :=
    split_join_of_split hpath
  refine ancestorAnchor_of_picks hsplit ?_
  cases search with
  | nearest => exact List.not_mem_nil
  | outermost => exact hpicks

/-- An ancestor search picks the right whole segment of the current path: it resolves to the segments
up to the nearest or outermost one that is the key, and what follows in the reference, and fails if and
only if no segment is the key. The byte at which the path is cut off is always in range and no part of a
character. Searching again from the anchor gives the anchor. -/
theorem resolveText_ancestor (search : AncestorSearch) (hkey : '.' ∉ key.toList)
    (rest : Option String) (current localPath globalPath : String) :
    (∀ absolute,
      resolveText current localPath globalPath (ancestor search key rest).text = .ok absolute ↔
        ∃ front back, Dotted.split current = front ++ key :: back ∧
          search.Picks key front back ∧
          absolute = Dotted.join (front ++ [key]) ++ rest.elim "" ("." ++ ·)) ∧
    (∀ error,
      resolveText current localPath globalPath (ancestor search key rest).text = .error error ↔
        error = .ancestorNotFound key current ∧ key ∉ Dotted.split current) ∧
    (anchorByte? search key current = none ↔ key ∉ Dotted.split current) ∧
    (∀ stop, anchorByte? search key current = some stop →
      ∃ hvalid : stop.IsValid current,
        ancestorAnchor search key current = .ok (current.sliceTo ⟨stop, hvalid⟩).copy) ∧
    ∀ anchor,
      resolveText current localPath globalPath (ancestor search key none).text = .ok anchor →
        resolveText anchor localPath globalPath (ancestor search key none).text = .ok anchor := by
  refine ⟨fun absolute => resolveText_ancestor_eq_ok_iff hkey,
    fun error => resolveText_ancestor_eq_error_iff hkey, anchorByte?_eq_none_iff,
    fun stop hstop => exists_slice hstop, fun anchor hanchor => ?_⟩
  rw [resolveText_ancestor_none search hkey] at hanchor ⊢
  exact ancestorAnchor_anchor hanchor

/-- The key has characters of two bytes, an empty segment stands in front of it, and behind it come a
longer segment that starts with it and the key again. The outermost anchor has five characters and
eight bytes. -/
theorem resolveText_ancestor_two_bytes :
    '.' ∉ "éé".toList ∧
    resolveText "é..éé.ééx.éé.0" "d" "d" "~~>éé.1" = .ok "é..éé.1" ∧
    resolveText "é..éé.ééx.éé.0" "d" "d" "~>éé.1" = .ok "é..éé.ééx.éé.1" ∧
    resolveText "é..éé" "d" "d" "~~>éé" = .ok "é..éé" ∧
    (⟨8⟩ : String.Pos.Raw).IsValid "é..éé.ééx.éé.0" := by
  have hkey : '.' ∉ "éé".toList := by decide
  obtain ⟨houtermost, -, -, hslice, hagain⟩ :=
    resolveText_ancestor .outermost hkey (some "1") "é..éé.ééx.éé.0" "d" "d"
  obtain ⟨hnearest, -⟩ :=
    resolveText_ancestor .nearest hkey (some "1") "é..éé.ééx.éé.0" "d" "d"
  obtain ⟨hvalid, -⟩ := hslice ⟨8⟩ (by rfl)
  refine ⟨hkey, ?_, ?_, hagain "é..éé" (by rfl), hvalid⟩
  · exact (houtermost _).mpr ⟨["é", ""], ["ééx", "éé", "0"], by rfl, by decide, by rfl⟩
  · exact (hnearest _).mpr ⟨["é", "", "éé", "ééx"], ["0"], by rfl, by decide, by rfl⟩

end DataBinding.Reference
