import DataBinding.Mapping
import DataBinding.Proofs.Nested.Projection

/-!
# Inside of the root

A path is inside of a root if it is the root or continues it after a dot. Stores find this out by what
they strip from a path, mappings and actions by what they compare it with. A reference that is resolved
from inside of the root leads inside of it again, whatever its form is: an ancestor search cuts the
current path off after one of its segments, and the root is the first of them.

* `isUnderRoot_iff`: the check of mappings and actions.
* `Reference.isInside_of_resolve`: where a reference leads.
* `Reference.resolve_eq_error_iff`: when it leads nowhere.
-/

namespace DataBinding

/-! ## Being inside -/

/-- Mappings and actions look for the paths that a store accepts. -/
theorem isUnderRoot_iff {path root : String} : isUnderRoot path root ↔ IsInside path root := by
  rw [isUnderRoot, Bool.or_eq_true, beq_iff_eq, List.isPrefixOf_iff_prefix, IsInside,
    String.toList_append]
  rfl

/-- The first segment of a path is the root. -/
theorem isInside_iff_split {path root : String} (hroot : '.' ∉ root.toList) :
    IsInside path root ↔ ∃ segments, Dotted.split path = root :: segments := by
  rw [← exists_relativeToRoot_iff]
  constructor
  · rintro ⟨relative, hrelative⟩
    exact ⟨_, split_of_relativeToRoot hroot hrelative⟩
  · rintro ⟨segments, hsegments⟩
    obtain ⟨relative, hrelative, -⟩ := relativeToRoot_of_split hsegments
    exact ⟨relative, hrelative⟩

/-! ## Resolving -/

namespace Reference

variable {reference : Reference} {current localPath globalPath root path : String}

/-- Only an ancestor search fails, and only if no segment of the current path is the key. -/
theorem resolve_eq_error_iff {error : ReferenceError} :
    reference.resolve current localPath globalPath = .error error ↔
      ∃ search key rest, reference = .ancestor search key rest ∧
        error = .ancestorNotFound key current ∧ key ∉ Dotted.split current := by
  cases reference with
  | ancestor search key rest =>
    have hanchor : (ancestor search key rest).resolve current localPath globalPath =
        .error error ↔ ancestorAnchor search key current = .error error := by
      cases rest with
      | none => exact Iff.rfl
      | some rest =>
        rw [resolve]
        cases ancestorAnchor search key current <;> simp [Except.map]
    rw [hanchor, ancestorAnchor_eq_error_iff]
    constructor
    · exact fun h => ⟨search, key, rest, rfl, h⟩
    · rintro ⟨_, _, _, hreference, h⟩
      cases hreference
      exact h
  | _ => simp [resolve]

/-- A reference leads inside of the root. -/
theorem isInside_of_resolve (hroot : '.' ∉ root.toList) (hcurrent : IsInside current root)
    (hlocal : IsInside localPath root)
    (h : reference.resolve current localPath root = .ok path) : IsInside path root := by
  cases reference with
  | localRoot =>
    cases h
    exact hlocal
  | globalRoot =>
    cases h
    exact isInside_self root
  | localPath rest =>
    cases h
    exact hlocal.append rest
  | globalPath rest =>
    cases h
    exact (isInside_self root).append rest
  | ancestor search key rest =>
    rw [BindingContext.resolve_ancestor_congr _ _ _ _ _ _ current root] at h
    obtain ⟨segments, hsegments⟩ := (isInside_iff_split hroot).mp hcurrent
    exact (isInside_iff_split hroot).mpr (split_resolve_ancestor hsegments h)

end Reference

end DataBinding
