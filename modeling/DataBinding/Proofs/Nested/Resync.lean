import DataBinding.Proofs.Nested.Lifetime
import DataBinding.Proofs.Nested.Parts
import DataBinding.Proofs.Update.Refresh

/-!
# What a sync reads, and what it spares

A sync refreshes the local copy of a layer from the projected override at the path of each entry of the
reference map, by the updates that every other write uses too. Two things follow that the entries alone
do not show. The projection is a single pass, so only the entries at most one segment deep are read from
the parent. And an update takes a root that is no object for the empty object, so a local copy that is an
array is lost with the first entry that is written.

* `Layer.BuiltOver.exists_resync`: a sync is a refresh of the local tree.
* `Layer.resync_of_ofOverride`: a layer fresh from its override has nothing to refresh.
* `Target.resync_rereads_references`: what is read at the entries after a sync.
* `Target.resync_spares_local_data`: what is read aside of them.
-/

namespace DataBinding

namespace Layer

/-! ## A sync is a refresh -/

variable {l : Layer} {root : String} {dataOverride projected : Json} {anchor : String}
  {parent : Scope}

theorem refresh_of_path {s : SharedStore} (hopen : s.poisoned = false) (projected : Json)
    (path : DataPath) :
    (refresh projected path s).2.store.tree =
      s.store.tree.updated path (projected.at? path) .replace := by
  rw [refresh, SharedStore.run_of_open hopen]
  cases hroot : path.isRoot with
  | false => exact s.store.tree_updatePath path (projected.at? path) .replace
  | true =>
    cases DataPath.isRoot_iff.mp hroot
    rw [if_pos rfl]
    by_cases hsame : s.store.tree == projected
    · have hineffective : s.store.tree.isEffective .root (some projected) .replace = false := by
        simp [Json.isEffective, DataPath.root, hsame]
      rw [if_pos hsame]
      exact (Json.updated_of_not_isEffective hineffective).symm
    · have heffective : s.store.tree.isEffective .root (some projected) .replace := by
        simp [Json.isEffective, DataPath.root, hsame]
      rw [if_neg hsame]
      exact (Json.updated_of_isEffective heffective).symm

/-- The local copy is refreshed from the projected data at the path of each entry. -/
theorem refreshAll_tree {s : SharedStore} (hopen : s.poisoned = false) (projected : Json)
    (entries : List (DataPath × String)) :
    (refreshAll projected entries s).2.store.tree =
      s.store.tree.refreshed projected (entries.map Prod.fst) := by
  induction entries generalizing s with
  | nil => rfl
  | cons entry entries ih =>
    obtain ⟨path, reference⟩ := entry
    obtain ⟨changed, after, hfirst, hfollows⟩ := refresh_of_open hopen projected path
    have hafter := refresh_of_path hopen projected path
    rw [hfirst] at hafter
    rw [refreshAll, hfirst, List.map_cons, Json.refreshed_cons, ← hafter]
    exact ih (hfollows.poisoned.trans hopen)

theorem BuiltOver.exists_resync (h : l.BuiltOver root) (parent : Scope) :
    ∃ projected changed synced, project l.dataOverride l.anchor parent = .ok projected ∧
      l.resync (.ok parent) = (.ok changed, { l with store := synced }) ∧
      synced.store.tree =
        l.store.store.tree.refreshed projected (l.references.entries.map Prod.fst) := by
  obtain ⟨projected, hprojected⟩ := h.exists_project parent
  obtain ⟨changed, synced, hrefresh, -⟩ :=
    refreshAll_of_open h.isOpen projected l.references.entries
  have htree := refreshAll_tree h.isOpen projected l.references.entries
  rw [hrefresh] at htree
  refine ⟨projected, changed, synced, hprojected, ?_, htree⟩
  simp only [resync, hprojected, hrefresh]

/-- Where the local copy is the projected data itself, nothing is written. -/
theorem refreshAll_self {s : SharedStore} (hopen : s.poisoned = false)
    {entries : List (DataPath × String)}
    (h : s.store.tree.isObject ∨ ∀ entry ∈ entries, entry.1 = .root) :
    refreshAll s.store.tree entries s = (.ok false, s) := by
  induction entries with
  | nil => rfl
  | cons entry entries ih =>
    obtain ⟨path, reference⟩ := entry
    rw [List.forall_mem_cons] at h
    have hfirst : refresh s.store.tree path s = (.ok false, s) := by
      rw [refresh, SharedStore.run_of_open hopen]
      split
      · rw [if_pos BEq.rfl]
      · have hineffective := Json.isEffective_at?_self (h.imp_right And.left)
        rw [← Json.update?_eq_none_iff] at hineffective
        simp only [Store.updatePath, hineffective]
        rfl
    rw [refreshAll, hfirst]
    dsimp only
    rw [ih (h.imp_right And.right)]
    rfl

/-- A layer fresh from its override is not changed by a sync, unless the override is an array. -/
theorem resync_of_ofOverride {settings : StoreSettings} (harray : dataOverride.isArray = false)
    (h : ofOverride dataOverride anchor settings (.ok parent) = .ok l) :
    l.resync (.ok parent) = (.ok false, l) := by
  obtain ⟨tree, hproject, rfl⟩ := ofOverride_eq_ok_iff.mp h
  simp only [resync, hproject]
  have hself : tree.isObject ∨ ∀ entry ∈ (ReferenceMap.ofOverride dataOverride
      settings.referenceScanDepth.toNat).entries, entry.1 = .root := by
    cases dataOverride with
    | object members =>
      rw [project_object] at hproject
      obtain ⟨results, -, rfl⟩ := except_map_eq_ok hproject
      exact Or.inl rfl
    | array items => cases harray
    | _ => exact Or.inr fun entry hentry => ReferenceMap.eq_root_of_mem_ofOverride rfl hentry
  have hopen : ({ store := { tree, settings } } : SharedStore).poisoned = false := rfl
  rw [refreshAll_self hopen hself]

/-! ## What is read at an entry -/

variable {entry : DataPath × String}

/-- A reference at the root has no other entries beside it, and its result is read. -/
theorem BuiltOver.at?_refreshed_of_root (h : l.BuiltOver root)
    (hoverride : l.dataOverride.IsWellFormed)
    (hprojected : project l.dataOverride l.anchor parent = .ok projected) {reference : String}
    (hentry : (.root, reference) ∈ l.references.entries) (tree : Json) :
    ∃ found, (parent.contextAt l.anchor).evaluateScalar (.string reference) = .ok found ∧
      (tree.refreshed projected (l.references.entries.map Prod.fst)).at? .root ==
        l.dataOverride.inPlace found := by
  rw [h.references_eq] at hentry ⊢
  obtain ⟨hread, -⟩ := ReferenceMap.get?_of_mem_ofOverride hoverride hentry
  obtain ⟨front, back, hpaths, haside⟩ := ReferenceMap.exists_split hoverride hentry
  have hothers : front ++ back = [] :=
    List.eq_nil_iff_forall_not_mem.mpr fun way hway => (haside way hway).symm.ne_root rfl
  obtain ⟨rfl, rfl⟩ := List.append_eq_nil_iff.mp hothers
  have hwhole : l.dataOverride = .string reference := Option.some.inj hread
  rw [hwhole, project_string] at hprojected
  obtain ⟨found, hfound, rfl⟩ := except_map_eq_ok hprojected
  refine ⟨found, hfound, ?_⟩
  rw [hpaths, hwhole]
  exact Json.some_beq_iff.mpr ⟨_, rfl, tree.updated_beq_write .root (found.getD .null)⟩

/-- One segment below the root the result of the reference is read. -/
theorem BuiltOver.at?_refreshed_of_child (h : l.BuiltOver root)
    (hoverride : l.dataOverride.IsWellFormed)
    (hprojected : project l.dataOverride l.anchor parent = .ok projected)
    {segment reference : String} (hentry : (⟨[segment]⟩, reference) ∈ l.references.entries)
    (tree : Json) :
    ∃ found, (parent.contextAt l.anchor).evaluateScalar (.string reference) = .ok found ∧
      ((tree.refreshed projected (l.references.entries.map Prod.fst)).at? ⟨[segment]⟩ ==
          l.dataOverride.inPlace found ∨
        l.dataOverride.inPlace found = none ∧
          (tree.refreshed projected (l.references.entries.map Prod.fst)).isArray) := by
  rw [h.references_eq] at hentry ⊢
  obtain ⟨hread, -⟩ := ReferenceMap.get?_of_mem_ofOverride hoverride hentry
  obtain ⟨front, back, hpaths, haside⟩ := ReferenceMap.exists_split hoverride hentry
  rw [Json.get?_singleton] at hread
  obtain ⟨found, hfound, hplaced⟩ := child?_project hoverride hprojected hread
  refine ⟨found, hfound, ?_⟩
  rw [← Json.get?_singleton] at hplaced
  rw [hpaths]
  cases hvalue : l.dataOverride.inPlace found with
  | some value =>
    obtain ⟨-, hset⟩ := Json.at?_refreshed (hplaced.trans hvalue) (by simp [DataPath.root]) haside
      fun _ _ haliased => tree.not_meetsArray_singleton segment haliased.meetsArray
    rcases hset with ⟨result, hresult, hsame⟩ | ⟨hlong, -⟩
    · rw [hresult]
      exact Or.inl hsame
    · exact absurd hlong (by simp)
  | none =>
    have hgone : (tree.refreshed projected (front ++ ⟨[segment]⟩ :: back)).asRoot.at?
        ⟨[segment]⟩ = none :=
      Json.at?_refreshed_of_none (hplaced.trans hvalue)
        fun way hway => haside way (List.mem_append_right front hway)
    generalize tree.refreshed projected (front ++ ⟨[segment]⟩ :: back) = after at hgone
    cases after with
    | object members =>
      have hmissing : (Json.object members).at? ⟨[segment]⟩ = none := hgone
      rw [hmissing]
      exact Or.inl rfl
    | array items => exact Or.inr ⟨rfl, rfl⟩
    | _ => exact Or.inl rfl

/-- At the root, or one segment below it, the result of the reference is read. -/
theorem BuiltOver.at?_refreshed_of_short (h : l.BuiltOver root)
    (hoverride : l.dataOverride.IsWellFormed)
    (hprojected : project l.dataOverride l.anchor parent = .ok projected)
    (hentry : entry ∈ l.references.entries) (hshort : entry.1.segments.length ≤ 1) (tree : Json) :
    ∃ found, (parent.contextAt l.anchor).evaluateScalar (.string entry.2) = .ok found ∧
      ((tree.refreshed projected (l.references.entries.map Prod.fst)).at? entry.1 ==
          l.dataOverride.inPlace found ∨
        l.dataOverride.inPlace found = none ∧
          (tree.refreshed projected (l.references.entries.map Prod.fst)).isArray) := by
  obtain ⟨⟨segments⟩, reference⟩ := entry
  match segments, hshort with
  | [], _ =>
    obtain ⟨found, hfound, hread⟩ := h.at?_refreshed_of_root hoverride hprojected hentry tree
    exact ⟨found, hfound, Or.inl hread⟩
  | [segment], _ => exact h.at?_refreshed_of_child hoverride hprojected hentry tree

/-- Deeper in the override the reference itself is read, or nothing. -/
theorem BuiltOver.at?_refreshed_of_deep (h : l.BuiltOver root)
    (hoverride : l.dataOverride.IsWellFormed)
    (hprojected : project l.dataOverride l.anchor parent = .ok projected)
    (hentry : entry ∈ l.references.entries) (hdeep : 1 < entry.1.segments.length) {tree : Json}
    (haliased : ∀ other ∈ l.references.entries, other.1 ≠ entry.1 →
      ¬ tree.asRoot.Aliased other.1.segments entry.1.segments) :
    (tree.refreshed projected (l.references.entries.map Prod.fst)).at? entry.1 =
        some (.string entry.2) ∨
      (tree.refreshed projected (l.references.entries.map Prod.fst)).at? entry.1 = none := by
  rw [h.references_eq] at hentry haliased ⊢
  obtain ⟨hread, -⟩ := ReferenceMap.get?_of_mem_ofOverride hoverride hentry
  obtain ⟨front, back, hpaths, haside⟩ := ReferenceMap.exists_split hoverride hentry
  have hplace : entry.1 ≠ .root := by
    intro hroot
    rw [hroot] at hdeep
    cases hdeep
  have hothers : ∀ way ∈ front ++ back,
      ¬ tree.asRoot.Aliased way.segments entry.1.segments := by
    intro way hway
    have hmem : way ∈ (ReferenceMap.ofOverride l.dataOverride
        l.store.store.settings.referenceScanDepth.toNat).entries.map Prod.fst := by
      rw [hpaths]
      simpa using (List.mem_append.mp hway).imp_right Or.inr
    obtain ⟨other, hother, rfl⟩ := List.mem_map.mp hmem
    exact haliased other hother (haside other.1 hway).ne
  rw [hpaths]
  obtain ⟨-, hset⟩ := Json.at?_refreshed (get?_project hoverride hprojected hdeep hread) hplace
    haside hothers
  rcases hset with ⟨result, hresult, hsame⟩ | ⟨-, hnone⟩
  · left
    rw [hresult, Json.string_beq_iff.mp (BEq.symm hsame)]
  · exact Or.inr hnone

end Layer

namespace Target

variable {layer : Layer} {parent : Target}

/-- **A sync reads the shallow references again, and the deep ones not at all.** After any writes to a
layer and to the stores below it, a sync is answered. At an entry of the reference map that is the root
of the override, or one segment below it, the local copy then holds what the reference evaluates to in
the scopes that the parent has by then: if it evaluates to nothing, nothing in an object and `null`
elsewhere. The one exception is a missing member where the local copy is an array by then, from which a
member cannot be deleted. An entry that is deeper has the text of the reference put back, unless an
array blocks the way or another entry is an alias. -/
theorem resync_rereads_references (h : Reachable (.nested layer parent))
    (hoverride : layer.dataOverride.IsWellFormed) :
    ∃ changed synced, (Target.nested layer parent).resync = (.ok changed, .nested synced parent) ∧
      ∀ entry ∈ layer.references.entries,
        (entry.1.segments.length ≤ 1 →
          ∃ found, (parent.store.store.scope.contextAt layer.anchor).evaluateScalar
              (.string entry.2) = .ok found ∧
            (synced.store.store.tree.at? entry.1 == layer.dataOverride.inPlace found ∨
              layer.dataOverride.inPlace found = none ∧ synced.store.store.tree.isArray)) ∧
        (1 < entry.1.segments.length →
          (∀ other ∈ layer.references.entries, other.1 ≠ entry.1 →
            ¬ layer.store.store.tree.asRoot.Aliased other.1.segments entry.1.segments) →
          synced.store.store.tree.at? entry.1 = some (.string entry.2) ∨
            synced.store.store.tree.at? entry.1 = none) := by
  cases h.isChain with
  | nested hlayer hparent =>
    obtain ⟨projected, changed, synced, hprojected, hsync, htree⟩ :=
      hlayer.exists_resync parent.store.store.scope
    refine ⟨changed, { layer with store := synced }, ?_, fun entry hentry => ?_⟩
    · rw [resync, hparent.scope_eq, hsync]
    · dsimp only
      rw [htree]
      exact ⟨fun hshort =>
          hlayer.at?_refreshed_of_short hoverride hprojected hentry hshort layer.store.store.tree,
        fun hdeep haliased =>
          hlayer.at?_refreshed_of_deep hoverride hprojected hentry hdeep haliased⟩

/-- A reference right below the root, after the parent was replaced. -/
theorem resync_rereads_references_at_replaced_parent :
    let parent : SharedStore := { store := { tree := .object [("x", .bool true)] } }
    let layer : Layer :=
      { store := { store := { tree := .object [("who", .bool true)] } }
        dataOverride := .object [("who", .string "~~.x")]
        references := ⟨[(⟨["who"]⟩, "~~.x")]⟩
        anchor := "data" }
    let later := ((Target.root parent).onStore
      (·.run (·.perform (.replace (.object [("x", .null)]))))).2
    Reachable (.nested layer later) ∧ layer.dataOverride.IsWellFormed ∧
      ∃ changed synced, (Target.nested layer later).resync = (.ok changed, .nested synced later) ∧
        synced.store.store.tree.at? ⟨["who"]⟩ == some .null := by
  intro parent layer later
  have hbuilt : Layer.ofOverride layer.dataOverride "data" {} (Target.root parent).scope =
      .ok layer := by
    refine Layer.ofOverride_eq_ok_iff.mpr ⟨layer.store.store.tree, ?_, rfl⟩
    rw [Layer.project_object]
    rfl
  have hreachable : Reachable (.nested layer later) :=
    .step (.build (.root rfl) hbuilt) (.parent layer (.direct _ _))
  have hoverride : layer.dataOverride.IsWellFormed := by
    refine .object (by decide) fun member hmember => ?_
    cases List.mem_singleton.mp hmember
    exact .scalar rfl
  obtain ⟨changed, synced, hsync, hentries⟩ := resync_rereads_references hreachable hoverride
  obtain ⟨found, hfound, hread⟩ := (hentries _ List.mem_cons_self).1 (by decide)
  have hnull : Except.ok found = .ok (some Json.null) := hfound.symm
  cases hnull
  refine ⟨hreachable, hoverride, changed, synced, hsync, ?_⟩
  rcases hread with hread | ⟨hnone, -⟩
  · exact hread
  · cases hnone

/-- A reference two segments below the root is in the reference map, and evaluates to a value, but a sync
leaves its text in place. -/
theorem resync_keeps_deep_reference :
    let parent : SharedStore := { store := { tree := .object [("x", .bool true)] } }
    let dataOverride := Json.object [("o", .object [("k", .string "~~.x")])]
    let layer : Layer :=
      { store := { store := { tree := dataOverride } }
        dataOverride := dataOverride
        references := ⟨[(⟨["o", "k"]⟩, "~~.x")]⟩
        anchor := "data.panel" }
    Reachable (.nested layer (.root parent)) ∧
      (⟨["o", "k"]⟩, "~~.x") ∈ layer.references.entries ∧
      (parent.store.scope.contextAt layer.anchor).evaluateScalar (.string "~~.x") =
        .ok (some (.bool true)) ∧
      (Target.nested layer (.root parent)).resync =
        (.ok false, .nested layer (.root parent)) ∧
      layer.store.store.tree.at? ⟨["o", "k"]⟩ = some (.string "~~.x") ∧
      ¬ layer.store.store.tree.at? ⟨["o", "k"]⟩ == some (.bool true) := by
  intro parent dataOverride layer
  have hbuilt : Layer.ofOverride dataOverride "data.panel" {} (.ok parent.store.scope) =
      .ok layer := by
    refine Layer.ofOverride_eq_ok_iff.mpr ⟨dataOverride, ?_, rfl⟩
    rw [Layer.project_object]
    rfl
  have hreachable : Reachable (.nested layer (.root parent)) := .build (.root rfl) hbuilt
  have hsync : layer.resync (Target.root parent).scope = (.ok false, layer) :=
    Layer.resync_of_ofOverride rfl hbuilt
  refine ⟨hreachable, List.mem_cons_self, rfl, ?_, rfl, by decide⟩
  rw [resync, hsync]

/-- **A sync spares what is aside of all references.** After any writes to a layer and to the stores
below it, take a path that neither covers the path of an entry nor is covered by one. If the local copy
is an object, the path reads after a sync as before, except that it may be an alias of the way to an
entry, or that `null` may come into the gap of an array. If it is no object, it is kept as it is or
makes way for an object, in which nothing is at the path. A layer that nothing was written to since it
was built is not changed, unless its override is an array. -/
theorem resync_spares_local_data (h : Reachable (.nested layer parent)) :
    ∃ changed synced, (Target.nested layer parent).resync = (.ok changed, .nested synced parent) ∧
      (∀ place : DataPath, (∀ entry ∈ layer.references.entries, entry.1.IsAside place) →
        (layer.store.store.tree.isObject →
          (∀ entry ∈ layer.references.entries,
            ¬ layer.store.store.tree.Aliased entry.1.segments place.segments) →
          Json.Undisturbed (layer.store.store.tree.at? place) (synced.store.store.tree.at? place)
            (∃ entry ∈ layer.references.entries,
              layer.store.store.tree.IsPadding entry.1.segments place.segments)) ∧
        (layer.store.store.tree.isObject = false →
          synced.store.store.tree = layer.store.store.tree ∨
            synced.store.store.tree.isObject ∧ synced.store.store.tree.at? place = none)) ∧
      (∀ settings, layer.dataOverride.isArray = false →
        Layer.ofOverride layer.dataOverride layer.anchor settings parent.scope = .ok layer →
          changed = false ∧ synced = layer) := by
  cases h.isChain with
  | nested hlayer hparent =>
    obtain ⟨projected, changed, synced, hprojected, hsync, htree⟩ :=
      hlayer.exists_resync parent.store.store.scope
    refine ⟨changed, { layer with store := synced }, ?_, fun place haside => ?_,
      fun settings harray hfresh => ?_⟩
    · rw [resync, hparent.scope_eq, hsync]
    · dsimp only
      rw [htree]
      have haside' : ∀ way ∈ layer.references.entries.map Prod.fst, way.IsAside place := by
        rwa [List.forall_mem_map]
      refine ⟨fun hobject haliased => ?_, fun hobject => ?_⟩
      · have haliased' : ∀ way ∈ layer.references.entries.map Prod.fst,
            ¬ layer.store.store.tree.Aliased way.segments place.segments := by
          rwa [List.forall_mem_map]
        refine (Json.at?_refreshed_aside hobject haside' haliased').mono ?_
        rintro ⟨way, hway, hpadding⟩
        obtain ⟨entry, hentry, rfl⟩ := List.mem_map.mp hway
        exact ⟨entry, hentry, hpadding⟩
      · exact Json.at?_refreshed_of_not_isObject hobject haside'
    · rw [hparent.scope_eq] at hfresh
      have hkept := Layer.resync_of_ofOverride harray hfresh
      rw [hsync] at hkept
      injection hkept with hchanged hlayer'
      exact ⟨Except.ok.inj hchanged, hlayer'⟩

/-- A member next to a reference, after the local copy was written to at that member. -/
theorem resync_spares_local_data_at_note :
    let parent : SharedStore := { store := { tree := .object [("x", .bool true)] } }
    let layer : Layer :=
      { store := { store := { tree := .object [("who", .bool true), ("note", .null)] } }
        dataOverride := .object [("who", .string "~~.x"), ("note", .null)]
        references := ⟨[(⟨["who"]⟩, "~~.x")]⟩
        anchor := "data" }
    let written := { layer with store := (layer.store.run
      (·.perform (.replace (.object [("who", .null), ("note", .bool false)])))).2 }
    Reachable (.nested written (.root parent)) ∧
      ∃ changed synced, (Target.nested written (.root parent)).resync =
          (.ok changed, .nested synced (.root parent)) ∧
        synced.store.store.tree.at? ⟨["note"]⟩ = some (.bool false) := by
  intro parent layer written
  have hbuilt : Layer.ofOverride layer.dataOverride "data" {} (Target.root parent).scope =
      .ok layer := by
    refine Layer.ofOverride_eq_ok_iff.mpr ⟨layer.store.store.tree, ?_, rfl⟩
    rw [Layer.project_object]
    rfl
  have hreachable : Reachable (.nested written (.root parent)) :=
    .step (.build (.root rfl) hbuilt)
      (.direct (.replace (.object [("who", .null), ("note", .bool false)]))
        (.nested layer (.root parent)))
  obtain ⟨changed, synced, hsync, hspared, -⟩ := resync_spares_local_data hreachable
  have haside : ∀ entry ∈ written.references.entries, entry.1.IsAside ⟨["note"]⟩ := by
    intro entry hentry
    cases List.mem_singleton.mp hentry
    exact ⟨by decide, by decide⟩
  have hread := (hspared ⟨["note"]⟩ haside).1 rfl fun entry _ haliased =>
    absurd (haliased.meetsArray.one_lt_length rfl) (by decide)
  refine ⟨hreachable, changed, synced, hsync, ?_⟩
  rcases hread with hsame | ⟨hnone, -⟩
  · exact hsame
  · cases hnone

/-- An array that holds a reference, and next to it an element of its own. The first sync makes an
object of it, in which the element is missing. -/
theorem resync_loses_element :
    let parent : SharedStore := { store := { tree := .object [("a", .bool true)] } }
    let layer : Layer :=
      { store := { store := { tree := .array [.bool true, .bool false] } }
        dataOverride := .array [.string "~~.a", .bool false]
        references := ⟨[(⟨["0"]⟩, "~~.a")]⟩
        anchor := "data" }
    Layer.ofOverride layer.dataOverride layer.anchor {} (Target.root parent).scope = .ok layer ∧
      Reachable (.nested layer (.root parent)) ∧
      (∀ entry ∈ layer.references.entries, entry.1.IsAside ⟨["1"]⟩) ∧
      layer.store.store.tree.at? ⟨["1"]⟩ = some (.bool false) ∧
      ∃ changed synced, (Target.nested layer (.root parent)).resync =
          (.ok changed, .nested synced (.root parent)) ∧
        synced.store.store.tree = .object [("0", .bool true)] ∧
        synced.store.store.tree.at? ⟨["1"]⟩ = none := by
  intro parent layer
  have hprojected : Layer.project layer.dataOverride layer.anchor parent.store.scope =
      .ok layer.store.store.tree := by
    rw [Layer.project_array]
    rfl
  have hbuilt : Layer.ofOverride layer.dataOverride layer.anchor {} (Target.root parent).scope =
      .ok layer := Layer.ofOverride_eq_ok_iff.mpr ⟨layer.store.store.tree, hprojected, rfl⟩
  have haside : ∀ entry ∈ layer.references.entries, entry.1.IsAside ⟨["1"]⟩ := by
    intro entry hentry
    cases List.mem_singleton.mp hentry
    exact ⟨by decide, by decide⟩
  obtain ⟨projected, changed, synced, hprojected', hsync, htree⟩ :=
    (Layer.builtOver_of_ofOverride hbuilt).exists_resync parent.store.scope
  have hsame : Except.ok projected = .ok layer.store.store.tree := hprojected'.symm.trans hprojected
  cases hsame
  have hlost : synced.store.tree = .object [("0", .bool true)] := by
    rw [htree, List.map_cons, Json.refreshed_cons, Json.updated_of_isEffective (by decide)]
    rfl
  refine ⟨hbuilt, .build (.root rfl) hbuilt, haside, rfl, changed, { layer with store := synced },
    ?_, hlost, ?_⟩
  · exact congrArg (fun result => (result.1, Target.nested result.2 (.root parent))) hsync
  · rw [hlost]
    rfl

end Target

end DataBinding
