import Mathlib.Data.List.Basic
import DataBinding.Nested.Layer
import DataBinding.Proofs.Json.Equality

/-!
# Places in a value

A value has a place for itself and places for all of its parts, however deep. The walk through an
override that makes a reference map passes the places in the order of the document, and notes those of
references. It goes no deeper than it may, and so the entries of the map are filtered out of the places
by what stands there and by the length of the path.

* `Json.StandsAt`: a part of a value with its path.
* `Json.places`: all parts in the order of the document; `mem_places_iff` says that it lists what stands
  somewhere.
* `ReferenceMap.scan_eq`: the walk, by places.
* `ReferenceMap.entries_ofOverride`, `ReferenceMap.mem_entries_ofOverride`: the entries of an override.
-/

namespace DataBinding

namespace Json

/-! ## Places -/

/-- A value is another one, or stands in it at a path: members go by their names as they are, and elements
by their indices in decimal. -/
inductive StandsAt (value : Json) : List String → Json → Prop where
  | here : StandsAt value [] value
  | element {items : List Json} {index : Nat} {item : Json} {path : List String}
      (hitem : items[index]? = some item) (h : StandsAt value path item) :
      StandsAt value (toString index :: path) (.array items)
  | member {members : List (String × Json)} {name : String} {child : Json} {path : List String}
      (hchild : (name, child) ∈ members) (h : StandsAt value path child) :
      StandsAt value (name :: path) (.object members)

mutual

/-- A value and its parts with their paths, in the order of the document: the value comes first, and then
its elements or members, one after the other. -/
def places (path : DataPath) : Json → List (DataPath × Json)
  | .array items => (path, .array items) :: placesOfItems path 0 items
  | .object members => (path, .object members) :: placesOfMembers path members
  | scalar => [(path, scalar)]

/-- The places of the elements from `index` on. -/
def placesOfItems (path : DataPath) (index : Nat) : List Json → List (DataPath × Json)
  | [] => []
  | item :: items =>
    places (path.push (toString index)) item ++ placesOfItems path (index + 1) items

def placesOfMembers (path : DataPath) : List (String × Json) → List (DataPath × Json)
  | [] => []
  | (name, value) :: members => places (path.push name) value ++ placesOfMembers path members

end

variable {place : DataPath × Json}

theorem mem_placesOfItems {path : DataPath} {start : Nat} {items : List Json} :
    place ∈ placesOfItems path start items ↔
      ∃ index item, items[index]? = some item ∧
        place ∈ places (path.push (toString (start + index))) item := by
  induction items generalizing start with
  | nil => simp [placesOfItems]
  | cons item items ih =>
    rw [placesOfItems, List.mem_append, ih]
    constructor
    · rintro (hhead | ⟨index, found, hfound, hplace⟩)
      · exact ⟨0, item, rfl, hhead⟩
      · refine ⟨index + 1, found, hfound, ?_⟩
        rwa [Nat.add_assoc, Nat.add_comm 1] at hplace
    · rintro ⟨index, found, hfound, hplace⟩
      cases index with
      | zero =>
        cases hfound
        exact Or.inl hplace
      | succ index =>
        refine Or.inr ⟨index, found, hfound, ?_⟩
        rwa [Nat.add_assoc, Nat.add_comm 1]

theorem mem_placesOfMembers {path : DataPath} {members : List (String × Json)} :
    place ∈ placesOfMembers path members ↔
      ∃ member ∈ members, place ∈ places (path.push member.1) member.2 := by
  induction members with
  | nil => simp [placesOfMembers]
  | cons member members ih =>
    rw [placesOfMembers, List.mem_append, ih, List.exists_mem_cons_iff]

theorem self_mem_places (path : DataPath) (value : Json) : (path, value) ∈ places path value := by
  cases value <;> simp [places]

theorem exists_standsAt_of_mem_places {path : DataPath} {whole : Json}
    (h : place ∈ places path whole) :
    ∃ segments, place.1.segments = path.segments ++ segments ∧
      place.2.StandsAt segments whole := by
  induction whole using Json.inductionOn generalizing path with
  | array items ih =>
    rw [places, List.mem_cons] at h
    rcases h with rfl | h
    · exact ⟨[], (List.append_nil _).symm, .here⟩
    · obtain ⟨index, item, hitem, hplace⟩ := mem_placesOfItems.mp h
      rw [Nat.zero_add] at hplace
      obtain ⟨segments, hsegments, hstands⟩ := ih item (List.mem_of_getElem? hitem) hplace
      refine ⟨toString index :: segments, ?_, .element hitem hstands⟩
      rw [hsegments, DataPath.push, List.append_assoc]
      rfl
  | object members ih =>
    rw [places, List.mem_cons] at h
    rcases h with rfl | h
    · exact ⟨[], (List.append_nil _).symm, .here⟩
    · obtain ⟨member, hmember, hplace⟩ := mem_placesOfMembers.mp h
      obtain ⟨segments, hsegments, hstands⟩ := ih member.1 member.2 hmember hplace
      refine ⟨member.1 :: segments, ?_, .member hmember hstands⟩
      rw [hsegments, DataPath.push, List.append_assoc]
      rfl
  | _ =>
    cases List.mem_singleton.mp h
    exact ⟨[], (List.append_nil _).symm, .here⟩

theorem StandsAt.mem_places {value whole : Json} {segments : List String}
    (h : value.StandsAt segments whole) (path : DataPath) :
    (⟨path.segments ++ segments⟩, value) ∈ places path whole := by
  induction h generalizing path with
  | here =>
    rw [List.append_nil]
    exact self_mem_places path value
  | @element items index item rest hitem _ ih =>
    have hplace := ih (path.push (toString index))
    rw [DataPath.push, List.append_assoc, List.singleton_append] at hplace
    refine List.mem_cons_of_mem _ (mem_placesOfItems.mpr ⟨index, item, hitem, ?_⟩)
    rwa [Nat.zero_add]
  | @member members name child rest hchild _ ih =>
    have hplace := ih (path.push name)
    rw [DataPath.push, List.append_assoc, List.singleton_append] at hplace
    exact List.mem_cons_of_mem _ (mem_placesOfMembers.mpr ⟨(name, child), hchild, hplace⟩)

/-- The places below a path are those of what stands there. -/
theorem mem_places_iff {path : DataPath} {whole : Json} :
    place ∈ places path whole ↔
      ∃ segments, place.1.segments = path.segments ++ segments ∧
        place.2.StandsAt segments whole := by
  refine ⟨exists_standsAt_of_mem_places, ?_⟩
  rintro ⟨segments, hsegments, hstands⟩
  obtain ⟨⟨_⟩, value⟩ := place
  cases hsegments
  exact hstands.mem_places path

end Json

namespace ReferenceMap

/-! ## Entries -/

/-- The entry of a place: a reference that stands there, if the path is not too long. -/
def entryWithin (maxDepth : Nat) : DataPath × Json → Option (DataPath × String)
  | (path, .string text) =>
    if (Reference.parse? text).isSome ∧ path.segments.length ≤ maxDepth then some (path, text)
    else none
  | _ => none

variable {maxDepth : Nat} {place : DataPath × Json} {entry : DataPath × String}

theorem entryWithin_eq_some_iff :
    entryWithin maxDepth place = some entry ↔
      place = (entry.1, .string entry.2) ∧ (Reference.parse? entry.2).isSome ∧
        entry.1.segments.length ≤ maxDepth := by
  obtain ⟨path, value⟩ := place
  cases value with
  | string text =>
    rw [entryWithin, Option.ite_none_right_eq_some]
    constructor
    · rintro ⟨h, heq⟩
      cases heq
      exact ⟨rfl, h⟩
    · rintro ⟨heq, h⟩
      cases heq
      exact ⟨h, rfl⟩
  | _ => simp [entryWithin]

/-- Nothing below a path that is too long has an entry. -/
theorem entryWithin_of_mem_places {path : DataPath} {value : Json}
    (hplace : place ∈ Json.places path value) (hdeep : maxDepth < path.segments.length) :
    entryWithin maxDepth place = none := by
  rw [Option.eq_none_iff_forall_ne_some]
  intro entry hentry
  obtain ⟨rfl, -, hlength⟩ := entryWithin_eq_some_iff.mp hentry
  obtain ⟨segments, hsegments, -⟩ := Json.exists_standsAt_of_mem_places hplace
  rw [hsegments, List.length_append] at hlength
  omega

theorem length_push (path : DataPath) (segment : String) :
    (path.push segment).segments.length = path.segments.length + 1 := by
  rw [DataPath.push, List.length_append, List.length_singleton]

theorem scanItems_eq {items : List Json} {room : Nat} {path : DataPath} {start : Nat}
    (h : ∀ item ∈ items, ∀ path, scan room path item =
      (Json.places path item).filterMap (entryWithin (path.segments.length + room))) :
    scanItems room path start items =
      (Json.placesOfItems path start items).filterMap
        (entryWithin (path.segments.length + (room + 1))) := by
  induction items generalizing start with
  | nil => rfl
  | cons item items ih =>
    rw [List.forall_mem_cons] at h
    rw [scanItems, Json.placesOfItems, List.filterMap_append, h.1, ih h.2, length_push,
      Nat.add_assoc, Nat.add_comm 1]

theorem scanMembers_eq {members : List (String × Json)} {room : Nat} {path : DataPath}
    (h : ∀ member ∈ members, ∀ path, scan room path member.2 =
      (Json.places path member.2).filterMap (entryWithin (path.segments.length + room))) :
    scanMembers room path members =
      (Json.placesOfMembers path members).filterMap
        (entryWithin (path.segments.length + (room + 1))) := by
  induction members with
  | nil => rfl
  | cons member members ih =>
    rw [List.forall_mem_cons] at h
    rw [scanMembers, Json.placesOfMembers, List.filterMap_append, h.1, ih h.2, length_push,
      Nat.add_assoc, Nat.add_comm 1]

/-- The walk notes the entries of the places that it can reach. -/
theorem scan_eq (room : Nat) (path : DataPath) (value : Json) :
    scan room path value =
      (Json.places path value).filterMap (entryWithin (path.segments.length + room)) := by
  induction value using Json.inductionOn generalizing room path with
  | string text =>
    have hlength : path.segments.length ≤ path.segments.length + room := Nat.le_add_right _ _
    change _ = List.filterMap _ [(path, Json.string text)]
    rw [scan, List.filterMap_cons, List.filterMap_nil, entryWithin]
    by_cases hreference : (Reference.parse? text).isSome
    · rw [if_pos hreference, if_pos ⟨hreference, hlength⟩]
    · rw [if_neg hreference, if_neg fun h => hreference h.1]
  | array items ih =>
    rw [scan, Json.places, List.filterMap_cons_none rfl]
    cases room with
    | zero =>
      -- the elements have paths that are longer than any entry
      rw [if_pos rfl, eq_comm, List.filterMap_eq_nil_iff]
      intro place hplace
      obtain ⟨index, item, -, hplace⟩ := Json.mem_placesOfItems.mp hplace
      exact entryWithin_of_mem_places hplace (by rw [length_push]; omega)
    | succ room =>
      rw [if_neg (Nat.succ_ne_zero room), Nat.add_sub_cancel]
      exact scanItems_eq fun item hitem path => ih item hitem room path
  | object members ih =>
    rw [scan, Json.places, List.filterMap_cons_none rfl]
    cases room with
    | zero =>
      rw [if_pos rfl, eq_comm, List.filterMap_eq_nil_iff]
      intro place hplace
      obtain ⟨member, -, hplace⟩ := Json.mem_placesOfMembers.mp hplace
      exact entryWithin_of_mem_places hplace (by rw [length_push]; omega)
    | succ room =>
      rw [if_neg (Nat.succ_ne_zero room), Nat.add_sub_cancel]
      exact scanMembers_eq fun member hmember path => ih member.1 member.2 hmember room path
  | _ => rfl

/-- A value that does not count as set has no places of references. -/
theorem filterMap_places_of_not_isTruthy {path : DataPath} {value : Json}
    (h : ¬ value.isTruthy) :
    (Json.places path value).filterMap (entryWithin maxDepth) = [] := by
  cases value with
  | string text =>
    have hempty : text = "" := by simpa [Json.isTruthy] using h
    subst hempty
    rfl
  | array items => exact absurd rfl h
  | object members => exact absurd rfl h
  | _ => rfl

variable {dataOverride : Json}

/-- The entries of an override are those of its places, in the order of the document. -/
theorem entries_ofOverride :
    (ofOverride dataOverride maxDepth).entries =
      (Json.places .root dataOverride).filterMap (entryWithin maxDepth) := by
  unfold ofOverride
  dsimp only
  split
  · rw [scan_eq, DataPath.root, List.length_nil, Nat.zero_add]
  · rename_i htruthy
    exact (filterMap_places_of_not_isTruthy htruthy).symm

theorem mem_entries_ofOverride {path : DataPath} {reference : String} :
    (path, reference) ∈ (ofOverride dataOverride maxDepth).entries ↔
      (Json.string reference).StandsAt path.segments dataOverride ∧
        (Reference.parse? reference).isSome ∧ path.segments.length ≤ maxDepth := by
  rw [entries_ofOverride, List.mem_filterMap]
  constructor
  · rintro ⟨place, hplace, hentry⟩
    obtain ⟨rfl, hreference, hlength⟩ := entryWithin_eq_some_iff.mp hentry
    obtain ⟨segments, hsegments, hstands⟩ := Json.mem_places_iff.mp hplace
    rw [DataPath.root, List.nil_append] at hsegments
    exact ⟨hsegments ▸ hstands, hreference, hlength⟩
  · rintro ⟨hstands, hreference, hlength⟩
    exact ⟨(path, .string reference), hstands.mem_places .root,
      entryWithin_eq_some_iff.mpr ⟨rfl, hreference, hlength⟩⟩

end ReferenceMap

end DataBinding
