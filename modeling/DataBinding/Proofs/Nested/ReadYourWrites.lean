import DataBinding.Proofs.Nested.Resync
import DataBinding.Proofs.Nested.Translation

/-!
# What was written through a reference is read

A layer whose override is an object shows, at a member that is a reference, the place that the reference
names. A value that is set at this member or below it travels: it is forwarded to the parent at a
translated path, set there if the tree of the parent changes by it, and comes back with the sync, which
projects the override anew and writes one place for each entry of the reference map. At the end the local
copy reads at the path as the value that was set, and no other member has changed but those which
references feed, too.

* `SharedStore.get?_of_tree_ne`: a value that changed a tree is in its place.
* `Layer.IsObjectOver`: a layer of members over a root store.
* `IsObjectOver.update_eq`: an update at or below a reference is forwarded, and the local copy refreshed.
* `IsObjectOver.child?_refreshed`: the members that no reference feeds.
* `Target.read_your_writes`: what is read in both stores after a write.
-/

namespace DataBinding

/-! ## What a store holds after a change -/

/-- Unless an update was applied, the tree is as before. -/
theorem Store.updateAbsolute_of_tree_ne {s : Store} {path : String} {value : Option Json}
    {mode : UpdateMode} :
    (s.updateAbsolute path value mode).2.tree ≠ s.tree →
      (s.updateAbsolute path value mode).1 = .ok .applied := by
  unfold updateAbsolute
  cases relativeToRoot path s.settings.rootSegment with
  | error error => exact fun hchanged => absurd rfl hchanged
  | ok relative =>
    cases relative with
    | none => cases mode <;> cases value <;> simp [replace]
    | some relative =>
      dsimp only [update, updatePath]
      cases s.tree.update? (.ofText relative) value mode with
      | none => exact fun hchanged => absurd rfl hchanged
      | some tree => exact fun _ => rfl

/-- A value that was set at an absolute path, and changed the tree, is read at its place. -/
theorem SharedStore.get?_of_tree_ne {s written : SharedStore} {path : String} {value : Json}
    {outcome : Except StoreError UpdateOutcome} {place : List String}
    (hopen : s.poisoned = false)
    (hsplit : Dotted.split path = s.store.settings.rootSegment :: place)
    (hwritten : s.updateAbsolute path (some value) .replace = (outcome, written))
    (hchanged : written.store.tree ≠ s.store.tree) :
    written.store.tree.get? place = some value := by
  rw [updateAbsolute, run_of_open hopen] at hwritten
  cases hwritten
  have happlied := Store.updateAbsolute_of_tree_ne hchanged
  obtain ⟨relative, hrelative, rfl⟩ := relativeToRoot_of_split hsplit
  obtain ⟨hread, -⟩ := Store.readRelative_updateAbsolute hrelative (Prod.ext happlied rfl)
  rwa [Json.readRelative_eq] at hread

/-- The segments of a text, after its first ones, come after those of an absolute path. -/
theorem Dotted.split_extend (path : String) {text : String} {front segments : List String}
    (h : split text = front ++ segments) :
    split (extend path segments) = split path ++ segments := by
  by_cases hsegments : segments = []
  · rw [hsegments, extend_nil, List.append_nil]
  · have hpieces : ∀ piece ∈ segments, '.' ∉ piece.toList := by
      intro piece hpiece
      have hmem : piece ∈ split text := by
        rw [h]
        exact List.mem_append_right front hpiece
      exact not_mem_of_mem_split hmem
    rw [extend_of_ne_nil path hsegments, split_append, split_join hsegments hpieces]

/-- Below the place of a reference. -/
theorem ReferenceAt.split_extend {reference anchor root absolute : String} {place : List String}
    (h : ReferenceAt reference anchor root absolute place) {text : String}
    {front segments : List String} (htext : Dotted.split text = front ++ segments) :
    Dotted.split (Dotted.extend absolute segments) = root :: (place ++ segments) := by
  rw [Dotted.split_extend absolute htext, h.placeSplit]
  rfl

/-! ## A layer of members -/

/-- A layer over a root store, after any writes to the two: the root segment of the store has no dot, the
anchor is at or below it, the override is a well-formed object, and the local copy is an object by now. -/
structure Layer.IsObjectOver (layer : Layer) (parent : SharedStore) : Prop where
  reachable : Target.Reachable (.nested layer (.root parent))
  rootDotless : '.' ∉ parent.store.settings.rootSegment.toList
  anchored : ∃ relative,
    relativeToRoot layer.anchor parent.store.settings.rootSegment = .ok relative
  wellFormed : layer.dataOverride.IsWellFormed
  overrideObject : layer.dataOverride.isObject
  copyObject : layer.store.store.tree.isObject

namespace Layer.IsObjectOver

variable {layer : Layer} {parent : SharedStore} (h : layer.IsObjectOver parent)

include h

theorem builtOver : layer.BuiltOver parent.store.settings.rootSegment := by
  cases h.reachable.isChain with
  | nested hlayer _ => exact hlayer

theorem parentOpen : parent.poisoned = false := by
  cases h.reachable.isChain with
  | nested _ hparent =>
    cases hparent with
    | root hopen => exact hopen

/-- No entry is the root of the override. -/
theorem exists_cons_of_mem {entry : DataPath × String} (hentry : entry ∈ layer.references.entries) :
    ∃ segment segments, entry.1 = ⟨segment :: segments⟩ := by
  rw [h.builtOver.references_eq] at hentry
  obtain ⟨hread, -⟩ := ReferenceMap.get?_of_mem_ofOverride h.wellFormed hentry
  obtain ⟨⟨_ | ⟨segment, segments⟩⟩, reference⟩ := entry
  · have hobject := h.overrideObject
    rw [Option.some.inj hread] at hobject
    cases hobject
  · exact ⟨segment, segments, rfl⟩

/-- The reference of a member names a place in the parent. -/
theorem exists_referenceAt {key reference : String}
    (hentry : (⟨[key]⟩, reference) ∈ layer.references.entries) :
    ∃ absolute place,
      ReferenceAt reference layer.anchor parent.store.settings.rootSegment absolute place := by
  have hbuilt := h.builtOver
  obtain ⟨relative, hanchor⟩ := h.anchored
  obtain ⟨projected, hprojected⟩ := hbuilt.exists_project parent.store.scope
  rw [hbuilt.references_eq] at hentry
  obtain ⟨hread, hreference⟩ := ReferenceMap.get?_of_mem_ofOverride h.wellFormed hentry
  rw [Json.get?_singleton] at hread
  obtain ⟨found, hfound, -⟩ := child?_project h.wellFormed hprojected hread
  have hproject : project (.string reference) layer.anchor parent.store.scope =
      .ok (found.getD .null) := by
    rw [project_string, hfound]
    rfl
  exact DataBinding.exists_referenceAt h.rootDotless hanchor hreference hproject

/-- An update at or below a reference is forwarded, and the local copy refreshed from the override as the
parent has it by then. -/
theorem update_eq {key reference absolute : String} {place : List String}
    (hentry : (⟨[key]⟩, reference) ∈ layer.references.entries)
    (hplace : ReferenceAt reference layer.anchor parent.store.settings.rootSegment absolute place)
    {path : String} {segments : List String} (hpath : Dotted.split path = key :: segments)
    (hne : path ≠ "") (value : Option Json) (mode : UpdateMode) :
    ∃ outcome written projected synced,
      parent.updateAbsolute (Dotted.extend absolute segments) value mode = (.ok outcome, written) ∧
      written.store.settings = parent.store.settings ∧
      project layer.dataOverride layer.anchor written.store.scope = .ok projected ∧
      synced.store.tree = layer.store.store.tree.refreshed projected
        (layer.references.entries.map Prod.fst) ∧
      (Target.nested layer (.root parent)).update path value mode =
        (.ok .forwarded, .nested { layer with store := synced } (.root written)) := by
  have hkey : (ReferenceMap.overridePath path).segments = [key] ++ segments := by
    rw [ReferenceMap.overridePath, if_neg (by simpa using hne)]
    exact hpath
  obtain ⟨relative, hrelative, -⟩ := relativeToRoot_of_split hplace.placeSplit
  obtain ⟨outcome, written, changed, _, hwritten, hfollows, hsync, hupdate⟩ :=
    Target.update_translated h.reachable h.wellFormed hentry hplace.resolved ⟨relative, hrelative⟩
      hkey value mode
  obtain ⟨projected, changed', synced, hprojected, hsync', htree⟩ :=
    h.builtOver.exists_resync written.store.scope
  cases hsync.symm.trans hsync'
  exact ⟨outcome, written, projected, synced, hwritten, hfollows.settings, hprojected, htree, hupdate⟩

/-- The empty path stands for the root of the override, which is no reference. -/
theorem update_empty_ne_forwarded (value : Option Json) (mode : UpdateMode) :
    ((Target.nested layer (.root parent)).update "" value mode).1 ≠ .ok .forwarded := by
  have hmatch : layer.references.match? "" = none := by
    rw [ReferenceMap.match?, List.findSome?_eq_none_iff]
    intro entry hentry
    obtain ⟨segment, segments, hentryPath⟩ := h.exists_cons_of_mem hentry
    have hcovers : ¬ entry.1.covers (ReferenceMap.overridePath "") := by
      rw [hentryPath]
      exact Bool.false_ne_true
    dsimp only
    rw [DataPath.below?_eq_none hcovers]
    rfl
  have hparentPath : layer.parentPath? (Target.root parent).scope "" = none := by
    rw [parentPath?, hmatch]
    rfl
  rw [Target.update, Target.deliver_of_uncovered hparentPath, Target.onStore, SharedStore.update,
    SharedStore.run_of_open h.builtOver.isOpen]
  dsimp only [Store.update, Store.updatePath]
  split <;> simp

/-- What the reference evaluates to by then is in its place in the local copy. -/
theorem at?_refreshed {key reference absolute : String} {place : List String}
    (hentry : (⟨[key]⟩, reference) ∈ layer.references.entries)
    (hplace : ReferenceAt reference layer.anchor parent.store.settings.rootSegment absolute place)
    {tree projected found : Json}
    (hprojected : project layer.dataOverride layer.anchor
      ⟨tree, parent.store.settings.rootSegment⟩ = .ok projected)
    (hfound : tree.get? place = some found) :
    (layer.store.store.tree.refreshed projected
      (layer.references.entries.map Prod.fst)).at? ⟨[key]⟩ == some found := by
  obtain ⟨result, hresult, hread⟩ := h.builtOver.at?_refreshed_of_child h.wellFormed hprojected hentry
    layer.store.store.tree
  have hevaluated := hplace.evaluateScalar_of_get? hfound
  cases hresult.symm.trans hevaluated
  rw [Json.inPlace, if_pos h.overrideObject] at hread
  rcases hread with hread | ⟨hnone, -⟩
  · exact hread
  · cases hnone

/-- A member which no reference feeds is spared. -/
theorem child?_refreshed (projected : Json) {name : String}
    (hname : ∀ entry ∈ layer.references.entries, entry.1.segments.head? ≠ some name) :
    (layer.store.store.tree.refreshed projected
      (layer.references.entries.map Prod.fst)).child? name =
        layer.store.store.tree.child? name := by
  have haside : ∀ way ∈ layer.references.entries.map Prod.fst, way.IsAside ⟨[name]⟩ := by
    rw [List.forall_mem_map]
    intro entry hentry
    obtain ⟨segment, segments, hentryPath⟩ := h.exists_cons_of_mem hentry
    have hne := hname entry hentry
    rw [hentryPath] at hne ⊢
    have hway : (DataPath.mk (segment :: segments)).segments = [] ++ segment :: segments := rfl
    exact DataPath.isAside_of_parting hway rfl fun hsame => hne (congrArg some hsame)
  have hobject : (layer.store.store.tree.refreshed projected
      (layer.references.entries.map Prod.fst)).isObject :=
    Json.isObject_refreshed h.copyObject fun way hway => (haside way hway).ne_root
  have hread : (layer.store.store.tree.refreshed projected
      (layer.references.entries.map Prod.fst)).asRoot.at? ⟨[name]⟩ =
        layer.store.store.tree.asRoot.at? ⟨[name]⟩ :=
    Json.at?_asRoot_refreshed haside (layer.store.store.tree.not_meetsArray_singleton name)
  rwa [Json.asRoot_of_isObject hobject, Json.asRoot_of_isObject h.copyObject, Json.at?,
    Json.at?, Json.get?_singleton, Json.get?_singleton] at hread

end Layer.IsObjectOver

/-! ## A write and what is read after it -/

namespace Target

/-- **What was written through a member reference is read.** Take a layer over a root store, with any
history, whose override and local copy are objects, and a reference that is a direct member of the
override. An update that sets a value at the member, or at a path below it, is forwarded, unless the path
is the empty text, which a reference map takes for the root. If the tree of the parent changes by it, the
local copy reads at the path as the value afterwards, and so does the tree of the parent at the place of
the reference, extended by the segments below the member. The local members that are not the first segment
of any entry are what they were. -/
theorem read_your_writes {layer : Layer} {parent : SharedStore} (h : layer.IsObjectOver parent)
    {key reference : String} (hentry : (⟨[key]⟩, reference) ∈ layer.references.entries)
    {path : String} {segments : List String} (hpath : Dotted.split path = key :: segments)
    (value : Json) :
    (((Target.nested layer (.root parent)).update path (some value) .replace).1 = .ok .forwarded ↔
      path ≠ "") ∧
    ∀ synced written,
      (Target.nested layer (.root parent)).update path (some value) .replace =
        (.ok .forwarded, .nested synced (.root written)) →
      written.store.tree ≠ parent.store.tree →
        synced.store.store.tree.at? (.ofText path) == some value ∧
        (∃ absolute place,
          Reference.resolveText layer.anchor layer.anchor parent.store.settings.rootSegment
            reference = .ok absolute ∧
          Dotted.split absolute = parent.store.settings.rootSegment :: place ∧
          written.store.tree.get? (place ++ segments) = some value) ∧
        ∀ name, (∀ entry ∈ layer.references.entries, entry.1.segments.head? ≠ some name) →
          synced.store.store.tree.child? name = layer.store.store.tree.child? name := by
  obtain ⟨absolute, place, hplace⟩ := h.exists_referenceAt hentry
  have hfront : Dotted.split path = [key] ++ segments := hpath
  by_cases hne : path = ""
  · subst hne
    have hkept := h.update_empty_ne_forwarded (some value) .replace
    exact ⟨by simp [hkept], fun synced written hupdate => absurd (congrArg Prod.fst hupdate) hkept⟩
  · obtain ⟨outcome, written, projected, store, hwritten, hsettings, hprojected, htree, hupdate⟩ :=
      h.update_eq hentry hplace hpath hne (some value) .replace
    refine ⟨iff_of_true (congrArg Prod.fst hupdate) hne, fun synced written' hupdate' hchanged => ?_⟩
    cases hupdate.symm.trans hupdate'
    have hread := SharedStore.get?_of_tree_ne h.parentOpen (hplace.split_extend hfront) hwritten
      hchanged
    refine ⟨?_, ⟨absolute, place, hplace.resolved, hplace.placeSplit, hread⟩, fun name hname => ?_⟩
    · -- The value lies at or below the place, so what is there comes back to the member as a whole.
      obtain ⟨found, hfound, hbelow⟩ :=
        Option.bind_eq_some_iff.mp ((Json.get?_append ..).symm.trans hread)
      have hscope : written.store.scope =
          ⟨written.store.tree, parent.store.settings.rootSegment⟩ := by
        rw [Store.scope, hsettings]
      rw [hscope] at hprojected
      obtain ⟨member, hmember, hsame⟩ :=
        Json.beq_some_iff.mp (h.at?_refreshed hentry hplace hprojected hfound)
      have hlocal : store.store.tree.at? (.ofText path) = member.get? segments := by
        rw [htree, Json.at?, DataPath.ofText, hfront, Json.get?_append]
        exact congrArg (Option.bind · (Json.get? · segments)) hmember
      dsimp only
      rw [hlocal, ← hbelow]
      exact Json.get?_beq hsame segments
    · dsimp only
      rw [htree]
      exact h.child?_refreshed projected hname

/-- The name of a user is set through a reference that starts from the anchor, at which nothing was before.
The note beside it stays. -/
theorem read_your_writes_at_new_anchor :
    let parent : SharedStore := { store := { tree := .object [("visits", .null)] } }
    let layer : Layer :=
      { store := { store := { tree := .object [("note", .bool false)] } }
        dataOverride := .object [("who", .string "~.profile"), ("note", .bool false)]
        references := ⟨[(⟨["who"]⟩, "~.profile")]⟩
        anchor := "data.user" }
    layer.IsObjectOver parent ∧
      ∃ synced written, (Target.nested layer (.root parent)).update "who.name" (some (.bool true))
          .replace = (.ok .forwarded, .nested synced (.root written)) ∧
        synced.store.store.tree.at? (.ofText "who.name") == some (.bool true) ∧
        written.store.tree.get? ["user", "profile", "name"] = some (.bool true) ∧
        synced.store.store.tree.child? "note" = some (.bool false) := by
  intro parent layer
  have hbuilt : Layer.ofOverride layer.dataOverride "data.user" {} (Target.root parent).scope =
      .ok layer := by
    have hanchor : Dotted.split "data.user" = "data" :: ["user"] := by decide
    have hcontext : parent.store.scope.contextAt "data.user" =
        ⟨⟨.null, "data.user"⟩, parent.store.scope⟩ := Scope.contextAt_of_split hanchor
    refine Layer.ofOverride_eq_ok_iff.mpr ⟨layer.store.store.tree, ?_, rfl⟩
    rw [Layer.project_object]
    change (evaluateMembers (parent.store.scope.contextAt "data.user").evaluateScalar _).map _ = _
    rw [hcontext]
    rfl
  have hanchored : relativeToRoot "data.user" "data" = .ok (some "user") := by rfl
  have hoverride : layer.dataOverride.IsWellFormed := by
    refine .object (by decide) fun member hmember => ?_
    simp only [List.mem_cons, List.not_mem_nil, or_false] at hmember
    rcases hmember with rfl | rfl <;> exact .scalar rfl
  have hlayer : layer.IsObjectOver parent :=
    ⟨.build (.root rfl) hbuilt, by decide, ⟨_, hanchored⟩, hoverride, rfl, rfl⟩
  have hentry : (⟨["who"]⟩, "~.profile") ∈ layer.references.entries := List.mem_cons_self
  have hpath : Dotted.split "who.name" = "who" :: ["name"] := by decide
  have hplace : ReferenceAt "~.profile" "data.user" "data" "data.user.profile" ["user", "profile"] :=
    ⟨by decide, by decide, rfl, by decide, ["user"], by decide, fun _ _ _ => ⟨["profile"], rfl⟩⟩
  obtain ⟨outcome, written, -, synced, hwritten, -, -, -, hupdate⟩ :=
    hlayer.update_eq hentry hplace hpath (by decide) (some (.bool true)) .replace
  have hchanged : written.store.tree ≠ parent.store.tree := by
    have hextended : Dotted.extend "data.user.profile" ["name"] = "data.user.profile.name" := by
      decide
    have hbelow : relativeToRoot "data.user.profile.name" "data" =
        .ok (some "user.profile.name") := by rfl
    have htree := SharedStore.tree_updateAbsolute_of_open (s := parent) rfl hbelow
      (some (.bool true)) .replace
    rw [← hextended, hwritten, Json.updated_of_isEffective (by decide)] at htree
    rw [htree]
    intro hsame
    have hmember := congrArg (Json.child? · "user") hsame
    cases hmember
  obtain ⟨-, hreads⟩ := read_your_writes hlayer hentry hpath (.bool true)
  obtain ⟨hlocal, ⟨absolute, place, hresolved, hsplit, hread⟩, hspared⟩ :=
    hreads _ _ hupdate hchanged
  cases hresolved.symm.trans hplace.resolved
  cases hsplit.symm.trans hplace.placeSplit
  refine ⟨hlayer, _, written, hupdate, hlocal, hread, hspared "note" fun entry hentry => ?_⟩
  cases List.mem_singleton.mp hentry
  decide

end Target

end DataBinding
