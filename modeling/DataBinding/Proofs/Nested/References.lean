import Mathlib.Data.List.Pairwise
import DataBinding.Proofs.Nested.Places
import DataBinding.Proofs.Update.Aside
import DataBinding.Text

/-!
# The places of references

A reference map is made by a walk through an override. In a well-formed override, where no object has
a name twice and every array can be indexed, the walk and the reader agree: each path of the map
reads as the reference there. As nothing lies below a reference, no two of these paths cover one
another. So an update belongs to one entry of the map at most, whatever the order of the entries is.

* `Json.IsWellFormed`: what holds of every value that was read from text.
* `ReferenceMap.get?_of_mem_ofOverride`: an entry is read at its path.
* `ReferenceMap.pairwise_ofOverride`: the entries lie aside of each other.
* `ReferenceMap.match?_eq_some_iff`: the entry to which a path belongs, as long as the entries lie aside
  of each other.
* `ReferenceMap.ofOverride_exact`: all that a map says about its override.
-/

namespace DataBinding

/-! ## Well-formed values -/

namespace Json

/-- No object has a name twice, and no array is longer than the indices that a segment can denote. -/
inductive IsWellFormed : Json → Prop where
  | scalar {value : Json} (h : value.isComposite = false) : IsWellFormed value
  | array {items : List Json} (hlength : items.length ≤ 0x10000000000000000)
      (hitems : ∀ item ∈ items, IsWellFormed item) : IsWellFormed (.array items)
  | object {members : List (String × Json)} (hnames : (members.map Prod.fst).Nodup)
      (hmembers : ∀ member ∈ members, IsWellFormed member.2) : IsWellFormed (.object members)

theorem child?_toString {items : List Json} (hlength : items.length ≤ 0x10000000000000000)
    {index : Nat} {item : Json} (h : items[index]? = some item) :
    (Json.array items).child? (toString index) = some item := by
  have hindex : index < items.length := (List.getElem?_eq_some_iff.mp h).1
  rw [child?, Text.arrayIndex?_toString (by omega), Option.bind_some, h]

theorem lookup_of_mem {α : Type} {members : List (String × α)}
    (hnames : (members.map Prod.fst).Nodup) {name : String} {value : α}
    (h : (name, value) ∈ members) : members.lookup name = some value := by
  induction members with
  | nil => cases h
  | cons member members ih =>
    obtain ⟨other, old⟩ := member
    rw [List.map_cons, List.nodup_cons] at hnames
    rcases List.mem_cons.mp h with hhead | htail
    · cases hhead
      simp
    · have hne : name ≠ other := by
        rintro rfl
        exact hnames.1 (List.mem_map.mpr ⟨(name, value), htail, rfl⟩)
      rw [List.lookup_cons, beq_false_of_ne hne, ih hnames.2 htail]

end Json

/-! ## Parts of paths -/

namespace DataPath

theorem below?_eq_some {p q : DataPath} {rest : List String}
    (h : q.segments = p.segments ++ rest) : q.below? p = some ⟨rest⟩ := by
  rw [below?, List.isPrefixOf?_eq_some_iff_append_eq.mpr h.symm]
  rfl

theorem segments_of_below? {p q rest : DataPath} (h : q.below? p = some rest) :
    q.segments = p.segments ++ rest.segments := by
  obtain ⟨segments, hsegments, rfl⟩ := Option.map_eq_some_iff.mp h
  exact (List.isPrefixOf?_eq_some_iff_append_eq.mp hsegments).symm

theorem below?_eq_none {p q : DataPath} (h : ¬ p.covers q) : q.below? p = none := by
  rw [below?, Option.map_eq_none_iff]
  cases hrest : p.segments.isPrefixOf? q.segments with
  | none => rfl
  | some rest =>
    have hsegments := List.isPrefixOf?_eq_some_iff_append_eq.mp hrest
    exact absurd (covers_iff.mpr ⟨rest, hsegments.symm⟩) h

end DataPath

/-! ## Well-formed places -/

namespace Json

/-- What stands at a path is read there. -/
theorem StandsAt.get?_eq {value whole : Json} {segments : List String} (hwhole : whole.IsWellFormed)
    (h : value.StandsAt segments whole) : whole.get? segments = some value := by
  induction h with
  | here => rfl
  | element hitem _ ih =>
    cases hwhole with
    | scalar hscalar => cases hscalar
    | array hlength hitems =>
      rw [get?, child?_toString hlength hitem]
      exact ih (hitems _ (List.mem_of_getElem? hitem))
  | member hchild _ ih =>
    cases hwhole with
    | scalar hscalar => cases hscalar
    | object hnames hmembers =>
      rw [get?, child?, lookup_of_mem hnames hchild]
      exact ih (hmembers _ hchild)

variable {place place' : DataPath × Json} {path : DataPath}

/-- Places in two different children are aside of each other. -/
theorem isAside_of_mem_places {value value' : Json} {segment segment' : String}
    (hne : segment ≠ segment') (h : place ∈ places (path.push segment) value)
    (h' : place' ∈ places (path.push segment') value') : place.1.IsAside place'.1 := by
  obtain ⟨segments, hsegments, -⟩ := exists_standsAt_of_mem_places h
  obtain ⟨segments', hsegments', -⟩ := exists_standsAt_of_mem_places h'
  rw [DataPath.push, List.append_assoc, List.singleton_append] at hsegments hsegments'
  exact DataPath.isAside_of_parting hsegments hsegments' hne

/-- Two places lie aside of each other if neither value has parts. -/
def PartsAside (place place' : DataPath × Json) : Prop :=
  place.2.isComposite = false → place'.2.isComposite = false → place.1.IsAside place'.1

theorem pairwise_placesOfItems {start : Nat} {items : List Json}
    (h : ∀ item ∈ items, ∀ path, (places path item).Pairwise PartsAside) :
    (placesOfItems path start items).Pairwise PartsAside := by
  induction items generalizing start with
  | nil => exact .nil
  | cons item items ih =>
    rw [List.forall_mem_cons] at h
    rw [placesOfItems, List.pairwise_append]
    refine ⟨h.1 _, ih h.2, fun place hplace place' hplace' _ _ => ?_⟩
    obtain ⟨index, other, -, hplace'⟩ := mem_placesOfItems.mp hplace'
    have hne : toString start ≠ toString (start + 1 + index) := by
      rw [Ne, Text.toString_inj]
      omega
    exact isAside_of_mem_places hne hplace hplace'

theorem pairwise_placesOfMembers {members : List (String × Json)}
    (hnames : (members.map Prod.fst).Nodup)
    (h : ∀ member ∈ members, ∀ path, (places path member.2).Pairwise PartsAside) :
    (placesOfMembers path members).Pairwise PartsAside := by
  induction members with
  | nil => exact .nil
  | cons member members ih =>
    obtain ⟨name, value⟩ := member
    rw [List.map_cons, List.nodup_cons] at hnames
    rw [List.forall_mem_cons] at h
    rw [placesOfMembers, List.pairwise_append]
    refine ⟨h.1 _, ih hnames.2 h.2, fun place hplace place' hplace' _ _ => ?_⟩
    obtain ⟨other, hother, hplace'⟩ := mem_placesOfMembers.mp hplace'
    have hne : name ≠ other.1 := by
      rintro rfl
      exact hnames.1 (List.mem_map.mpr ⟨other, hother, rfl⟩)
    exact isAside_of_mem_places hne hplace hplace'

/-- Nothing lies below a value without parts. -/
theorem pairwise_places {value : Json} (hvalue : value.IsWellFormed) (path : DataPath) :
    (places path value).Pairwise PartsAside := by
  induction hvalue generalizing path with
  | @scalar value hscalar =>
    cases value with
    | array items => cases hscalar
    | object members => cases hscalar
    | _ => exact List.pairwise_singleton _ _
  | array _ _ ih =>
    rw [places, List.pairwise_cons]
    refine ⟨?_, pairwise_placesOfItems ih⟩
    rintro place - ⟨⟩
  | object hnames _ ih =>
    rw [places, List.pairwise_cons]
    refine ⟨?_, pairwise_placesOfMembers hnames ih⟩
    rintro place - ⟨⟩

end Json

namespace ReferenceMap

variable {entry : DataPath × String}

/-! ## The entry of a path -/

/-- Of entries that lie aside of each other one at most covers a path, and the map finds it. -/
theorem match?_eq_some_of_pairwise {m : ReferenceMap}
    (hpairwise : m.entries.Pairwise (·.1.IsAside ·.1)) (hentry : entry ∈ m.entries) {path : String}
    {segments : List String}
    (hpath : (overridePath path).segments = entry.1.segments ++ segments) :
    m.match? path = some (⟨segments⟩, entry.2) := by
  unfold match?
  generalize m.entries = entries at hentry hpairwise
  induction entries with
  | nil => cases hentry
  | cons first entries ih =>
    rw [List.pairwise_cons] at hpairwise
    rw [List.findSome?_cons]
    dsimp only
    rcases List.mem_cons.mp hentry with rfl | htail
    · rw [DataPath.below?_eq_some hpath]
      rfl
    · have hcovers : entry.1.covers (overridePath path) :=
        DataPath.covers_iff.mpr ⟨segments, hpath⟩
      have hfirst := (hpairwise.1 entry htail).not_covers hcovers
      rw [DataPath.below?_eq_none hfirst]
      exact ih htail hpairwise.2

theorem match?_eq_some_iff {m : ReferenceMap} (hpairwise : m.entries.Pairwise (·.1.IsAside ·.1))
    {path reference : String} {rest : DataPath} :
    m.match? path = some (rest, reference) ↔
      ∃ entry ∈ m.entries, entry.2 = reference ∧
        (overridePath path).segments = entry.1.segments ++ rest.segments := by
  constructor
  · intro h
    obtain ⟨entry, hentry, hfound⟩ := List.exists_of_findSome?_eq_some h
    obtain ⟨_, hbelow, heq⟩ := Option.map_eq_some_iff.mp hfound
    cases heq
    exact ⟨entry, hentry, rfl, DataPath.segments_of_below? hbelow⟩
  · rintro ⟨entry, hentry, rfl, hpath⟩
    exact match?_eq_some_of_pairwise hpairwise hentry hpath

/-! ## The entries of an override -/

variable {dataOverride : Json} {maxDepth : Nat}

/-- Each entry is read at its path. -/
theorem get?_of_mem_ofOverride (hoverride : dataOverride.IsWellFormed)
    (h : entry ∈ (ofOverride dataOverride maxDepth).entries) :
    dataOverride.get? entry.1.segments = some (.string entry.2) ∧
      (Reference.parse? entry.2).isSome := by
  obtain ⟨hstands, hreference, -⟩ := mem_entries_ofOverride.mp h
  exact ⟨hstands.get?_eq hoverride, hreference⟩

/-- The entries lie aside of each other. -/
theorem pairwise_ofOverride (hoverride : dataOverride.IsWellFormed) :
    (ofOverride dataOverride maxDepth).entries.Pairwise (·.1.IsAside ·.1) := by
  rw [entries_ofOverride, List.pairwise_filterMap]
  refine (Json.pairwise_places hoverride .root).imp fun haside entry hentry entry' hentry' => ?_
  obtain ⟨rfl, -⟩ := entryWithin_eq_some_iff.mp hentry
  obtain ⟨rfl, -⟩ := entryWithin_eq_some_iff.mp hentry'
  exact haside rfl rfl

/-- A value that is no array and no object has no references but at its root. -/
theorem eq_root_of_mem_ofOverride (hscalar : dataOverride.isComposite = false)
    (h : entry ∈ (ofOverride dataOverride maxDepth).entries) : entry.1 = .root := by
  obtain ⟨hread, -⟩ := get?_of_mem_ofOverride (.scalar hscalar) h
  obtain ⟨⟨segments⟩, reference⟩ := entry
  cases segments with
  | nil => rfl
  | cons segment segments =>
    rw [Json.get?_cons_of_not_isComposite hscalar] at hread
    cases hread

/-- The other entries, before and after one of them, are aside of it. -/
theorem exists_split (hoverride : dataOverride.IsWellFormed)
    (h : entry ∈ (ofOverride dataOverride maxDepth).entries) :
    ∃ front back, (ofOverride dataOverride maxDepth).entries.map Prod.fst =
        front ++ entry.1 :: back ∧
      ∀ way ∈ front ++ back, way.IsAside entry.1 := by
  have hpairwise : (ofOverride dataOverride maxDepth).entries.Pairwise (·.1.IsAside ·.1) :=
    pairwise_ofOverride hoverride
  obtain ⟨front, back, hentries⟩ := List.append_of_mem h
  rw [hentries, List.pairwise_append, List.pairwise_cons] at hpairwise
  obtain ⟨-, ⟨hback, -⟩, hfront⟩ := hpairwise
  refine ⟨front.map Prod.fst, back.map Prod.fst, ?_, ?_⟩
  · rw [hentries, List.map_append, List.map_cons]
  · rw [List.forall_mem_append, List.forall_mem_map, List.forall_mem_map]
    exact ⟨fun other hother => hfront other hother entry List.mem_cons_self,
      fun other hother => (hback other hother).symm⟩

/-- Of the entries at most one covers a path, and the map finds it. -/
theorem match?_eq_some (hoverride : dataOverride.IsWellFormed)
    (hentry : entry ∈ (ofOverride dataOverride maxDepth).entries) {path : String}
    {segments : List String}
    (hpath : (overridePath path).segments = entry.1.segments ++ segments) :
    (ofOverride dataOverride maxDepth).match? path = some (⟨segments⟩, entry.2) :=
  match?_eq_some_of_pairwise (pairwise_ofOverride hoverride) hentry hpath

/-! ## One entry for a path -/

/-- Entries that cover the same path are the same. -/
theorem eq_of_covers (hoverride : dataOverride.IsWellFormed) {entry' : DataPath × String}
    (hentry : entry ∈ (ofOverride dataOverride maxDepth).entries)
    (hentry' : entry' ∈ (ofOverride dataOverride maxDepth).entries) {path : DataPath}
    (hcovers : entry.1.covers path) (hcovers' : entry'.1.covers path) : entry = entry' := by
  have : Std.Symm fun e e' : DataPath × String => e.1.IsAside e'.1 :=
    ⟨fun _ _ => DataPath.IsAside.symm⟩
  by_contra hne
  have haside : entry.1.IsAside entry'.1 :=
    (pairwise_ofOverride hoverride).forall hentry hentry' hne
  exact haside.not_covers hcovers' hcovers

/-- The analysis of an override finds its references and nothing else: an entry for each string that is
a reference, stands in the override, and is no deeper than the limit, in the order of the document.
In a well-formed override each path occurs once, the override reads as the reference there, and no
path lies below another one. A path therefore belongs to one entry at most, and lookup finds that
entry even if the entries come in another order. -/
theorem ofOverride_exact (dataOverride : Json) (maxDepth : Nat) :
    (∀ path reference, (path, reference) ∈ (ofOverride dataOverride maxDepth).entries ↔
      (Json.string reference).StandsAt path.segments dataOverride ∧
        (Reference.parse? reference).isSome ∧ path.segments.length ≤ maxDepth) ∧
    (ofOverride dataOverride maxDepth).entries =
      (Json.places .root dataOverride).filterMap (entryWithin maxDepth) ∧
    (dataOverride.IsWellFormed →
      ((ofOverride dataOverride maxDepth).entries.map Prod.fst).Nodup ∧
      (∀ entry ∈ (ofOverride dataOverride maxDepth).entries,
        dataOverride.at? entry.1 = some (.string entry.2)) ∧
      (∀ entry ∈ (ofOverride dataOverride maxDepth).entries,
        ∀ entry' ∈ (ofOverride dataOverride maxDepth).entries,
          entry.1.covers entry'.1 → entry = entry') ∧
      ∀ path : String,
        (∀ entry ∈ (ofOverride dataOverride maxDepth).entries,
          ∀ entry' ∈ (ofOverride dataOverride maxDepth).entries,
            entry.1.covers (overridePath path) → entry'.1.covers (overridePath path) →
              entry = entry') ∧
        ∀ m : ReferenceMap, m.entries.Perm (ofOverride dataOverride maxDepth).entries →
          ∀ rest reference, m.match? path = some (rest, reference) ↔
            ∃ entry ∈ (ofOverride dataOverride maxDepth).entries, entry.2 = reference ∧
              (overridePath path).segments = entry.1.segments ++ rest.segments) := by
  refine ⟨fun _ _ => mem_entries_ofOverride, entries_ofOverride, fun hoverride => ?_⟩
  have hpairwise : (ofOverride dataOverride maxDepth).entries.Pairwise (·.1.IsAside ·.1) :=
    pairwise_ofOverride hoverride
  refine ⟨?_, fun entry hentry => (get?_of_mem_ofOverride hoverride hentry).1, ?_, ?_⟩
  · rw [List.Nodup, List.pairwise_map]
    exact hpairwise.imp DataPath.IsAside.ne
  · intro entry hentry entry' hentry' hcovers
    exact eq_of_covers hoverride hentry hentry' hcovers
      (DataPath.covers_iff.mpr ⟨[], (List.append_nil _).symm⟩)
  · intro path
    refine ⟨fun entry hentry entry' hentry' => eq_of_covers hoverride hentry hentry', ?_⟩
    intro m hperm rest reference
    have hmap : m.entries.Pairwise (·.1.IsAside ·.1) :=
      (hperm.pairwise_iff fun h => h.symm).mpr hpairwise
    rw [match?_eq_some_iff hmap]
    exact exists_congr fun entry => and_congr_left' hperm.mem_iff

/-- References at the empty key and below a key with a dot, and one that lies too deep. The path `.` has
two empty segments, and belongs to the entry of the empty key also if that one comes last. -/
theorem ofOverride_exact_at_empty_key :
    let dataOverride : Json := .object
      [("", .string "~.name"), ("a.b", .array [.string "text", .string "~~"]),
        ("1", .object [("2", .object [("3", .string "~")])])]
    dataOverride.IsWellFormed ∧
      (ofOverride dataOverride 2).entries = [(⟨[""]⟩, "~.name"), (⟨["a.b", "1"]⟩, "~~")] ∧
      (ReferenceMap.mk [(⟨["a.b", "1"]⟩, "~~"), (⟨[""]⟩, "~.name")]).match? "." =
        some (⟨[""]⟩, "~.name") := by
  intro dataOverride
  have hdeep : (Json.object [("2", .object [("3", .string "~")])]).IsWellFormed := by
    refine .object (by decide) fun member hmember => ?_
    cases List.mem_singleton.mp hmember
    refine .object (by decide) fun member hmember => ?_
    cases List.mem_singleton.mp hmember
    exact .scalar rfl
  have hoverride : dataOverride.IsWellFormed := by
    refine .object (by decide) fun member hmember => ?_
    simp only [List.mem_cons, List.not_mem_nil, or_false] at hmember
    rcases hmember with rfl | rfl | rfl
    · exact .scalar rfl
    · refine .array (by decide) fun item hitem => ?_
      simp only [List.mem_cons, List.not_mem_nil, or_false] at hitem
      rcases hitem with rfl | rfl <;> exact .scalar rfl
    · exact hdeep
  obtain ⟨-, hentries, hwell⟩ := ofOverride_exact dataOverride 2
  have hlisted : (ofOverride dataOverride 2).entries =
      [(⟨[""]⟩, "~.name"), (⟨["a.b", "1"]⟩, "~~")] := by
    rw [hentries]
    rfl
  obtain ⟨-, -, -, hmatch⟩ := hwell hoverride
  refine ⟨hoverride, hlisted, ((hmatch ".").2 _ ?_ _ _).mpr ⟨(⟨[""]⟩, "~.name"), ?_, rfl, rfl⟩⟩
  · rw [hlisted]
    exact List.Perm.swap _ _ []
  · rw [hlisted]
    exact List.mem_cons_self

end ReferenceMap

end DataBinding
