import DataBinding.Proofs.Nested.Lifetime
import DataBinding.Proofs.Nested.References

/-!
# Forwarding translates paths

An update of a layer below a reference is an update of the parent below the place of that reference:
the path loses the segments of the entry that covers it, and what is left comes after the absolute path
of the reference. On the way the path is split, written as text, appended and split again, and no
segment gets lost or made up by that, be it empty or last.

The empty text is the one path that is not read by its segments. To the reference map of a layer it means
the root of the override, and not the member with the empty name, as it does to a store.

* `Dotted.extend`: an absolute path with more segments after it.
* `Layer.parentPath?_eq_extend`: where an update below an entry belongs.
* `Target.forwarding_translates_path`: what the parent makes of it.
* `Target.update_at_empty_path`: the empty path and a layer that is one reference.
-/

namespace DataBinding

/-! ## Longer paths -/

/-- The path with more segments after its own. -/
def Dotted.extend (path : String) (segments : List String) : String :=
  join (split path ++ segments)

theorem Dotted.extend_nil (path : String) : extend path [] = path := by
  rw [extend, List.append_nil, join_split]

theorem Dotted.extend_of_ne_nil (path : String) {segments : List String} (h : segments ≠ []) :
    extend path segments = path ++ "." ++ join segments := by
  have happend : join (split path ++ segments) = join (split path) ++ "." ++ join segments :=
    String.intercalate_append_of_ne_nil (split_ne_nil path) h
  rw [extend, happend, join_split]

/-- What comes after a path that starts with the root segment does not lead outside of the root. -/
theorem exists_relativeToRoot_extend {path root : String} {relative : Option String}
    (h : relativeToRoot path root = .ok relative) (segments : List String) :
    ∃ below, relativeToRoot (Dotted.extend path segments) root = .ok below := by
  by_cases hsegments : segments = []
  · rw [hsegments, Dotted.extend_nil]
    exact ⟨relative, h⟩
  · rw [Dotted.extend_of_ne_nil path hsegments]
    cases hextended : relativeToRoot (path ++ "." ++ Dotted.join segments) root with
    | ok below => exact ⟨below, rfl⟩
    | error error =>
      obtain ⟨-, -, hprefix⟩ := relativeToRoot_eq_error_iff.mp hextended
      have hinside : ¬ IsOutside path root := by
        intro houtside
        rw [relativeToRoot_eq_error_iff.mpr ⟨rfl, houtside⟩] at h
        cases h
      refine absurd ?_ hprefix
      by_cases hpath : path = root
      · subst path
        simp [String.toList_append, List.append_assoc]
      · have hfront : (root ++ ".").toList <+: path.toList :=
          Classical.not_not.mp fun hnot => hinside ⟨hpath, hnot⟩
        refine hfront.trans ?_
        simp [String.toList_append, List.append_assoc]

/-! ## One layer -/

namespace Layer

variable {l : Layer} {root : String}

/-- An update at or below the path of an entry belongs to the place of its reference, at or below
it. -/
theorem parentPath?_eq_extend (h : l.BuiltOver root) (hoverride : l.dataOverride.IsWellFormed)
    {key : DataPath} {reference absolute : String}
    (hentry : (key, reference) ∈ l.references.entries)
    (habsolute : Reference.resolveText l.anchor l.anchor root reference = .ok absolute)
    {path : String} {segments : List String}
    (hpath : (ReferenceMap.overridePath path).segments = key.segments ++ segments) (tree : Json) :
    l.parentPath? (.ok ⟨tree, root⟩) path = some (Dotted.extend absolute segments) := by
  have hmatch : l.references.match? path = some (⟨segments⟩, reference) := by
    rw [h.references_eq] at hentry ⊢
    exact ReferenceMap.match?_eq_some hoverride hentry hpath
  simp only [parentPath?, hmatch, Except.toOption, habsolute, Option.bind_eq_bind,
    Option.bind_some, Option.pure_def, Option.some.injEq]
  cases segments with
  | nil => rw [Dotted.extend_nil]; rfl
  | cons segment segments => rw [Dotted.extend_of_ne_nil absolute (by simp)]; rfl

end Layer

/-! ## A layer and its parent -/

namespace Target

variable {layer : Layer} {parent : SharedStore}

/-- An update at a path that the reference map reads as below an entry is made by the parent at the place of
the reference, and then the layer is synced. -/
theorem update_translated (h : Reachable (.nested layer (.root parent)))
    (hoverride : layer.dataOverride.IsWellFormed) {key : DataPath} {reference absolute : String}
    (hentry : (key, reference) ∈ layer.references.entries)
    (habsolute : Reference.resolveText layer.anchor layer.anchor parent.store.settings.rootSegment
      reference = .ok absolute)
    (hbelow : ∃ relative,
      relativeToRoot absolute parent.store.settings.rootSegment = .ok relative)
    {path : String} {segments : List String}
    (hpath : (ReferenceMap.overridePath path).segments = key.segments ++ segments)
    (value : Option Json) (mode : UpdateMode) :
    ∃ outcome written changed synced,
      parent.updateAbsolute (Dotted.extend absolute segments) value mode = (.ok outcome, written) ∧
      written.Follows parent ∧ layer.resync (.ok written.store.scope) = (.ok changed, synced) ∧
      (Target.nested layer (.root parent)).update path value mode =
        (.ok .forwarded, .nested synced (.root written)) := by
  cases h.isChain with
  | nested hlayer hparent =>
    have hopen : parent.poisoned = false := hparent.store_open
    have hplace : layer.parentPath? (Target.root parent).scope path =
        some (Dotted.extend absolute segments) := by
      rw [hparent.scope_eq]
      exact Layer.parentPath?_eq_extend hlayer hoverride hentry habsolute hpath _
    obtain ⟨relative, hrelative⟩ := hbelow
    obtain ⟨below, hextended⟩ := exists_relativeToRoot_extend hrelative segments
    obtain ⟨outcome, written, hwritten, hfollows, -⟩ :=
      SharedStore.updateAbsolute_of_open hopen hextended value mode
    obtain ⟨changed, store, hsync, -⟩ := Layer.resync_of_builtOver hlayer written.store.scope
    have hsend : (Target.root parent).updateAbsolute (Dotted.extend absolute segments) value mode =
        (.ok outcome, .root written) := by
      rw [updateAbsolute, hwritten]
    have hscope : (Target.root written).scope = .ok written.store.scope :=
      SharedStore.scope_of_open (hfollows.poisoned.trans hopen)
    refine ⟨outcome, written, changed, { layer with store }, hwritten, hfollows, hsync, ?_⟩
    rw [← hscope] at hsync
    rw [update]
    exact deliver_of_taken hplace hsend hsync

/-- The same update by its absolute path. -/
theorem updateAbsolute_translated (h : Reachable (.nested layer (.root parent)))
    (hoverride : layer.dataOverride.IsWellFormed) {key : DataPath} {reference absolute : String}
    (hentry : (key, reference) ∈ layer.references.entries)
    (habsolute : Reference.resolveText layer.anchor layer.anchor parent.store.settings.rootSegment
      reference = .ok absolute)
    (hbelow : ∃ relative,
      relativeToRoot absolute parent.store.settings.rootSegment = .ok relative)
    {path : String} {segments : List String}
    (hpath : (ReferenceMap.overridePath path).segments = key.segments ++ segments)
    (value : Option Json) (mode : UpdateMode) :
    ∃ layer', (Target.nested layer (.root parent)).updateAbsolute
        (layer.store.store.settings.rootSegment ++ "." ++ path) value mode =
      (.ok .forwarded, .nested layer' (.root
        (parent.updateAbsolute (Dotted.extend absolute segments) value mode).2)) := by
  have hinside : relativeToRoot (layer.store.store.settings.rootSegment ++ "." ++ path)
      (Target.nested layer (.root parent)).rootSegment = .ok (some path) :=
    relativeToRoot_append _ path
  obtain ⟨outcome, written, changed, synced, hwritten, -, -, hupdate⟩ :=
    update_translated h hoverride hentry habsolute hbelow hpath value mode
  rw [h.isChain.updateAbsolute_eq, hinside, hwritten]
  exact ⟨synced, hupdate⟩

/-- **Forwarding is a path translation.** Take a layer over a root store, with any history, and an entry
of its reference map whose reference names a place at or below the root of the parent. An update of the
layer whose path has the segments of the entry and then others is forwarded, and leaves the parent as
its own update at the place of the reference, with the other segments after it, would. This holds of
all paths but the empty one, which stands for the root of the override: if the override as a whole is
the reference, the parent is updated at the place itself. -/
theorem forwarding_translates_path (h : Reachable (.nested layer (.root parent)))
    (hoverride : layer.dataOverride.IsWellFormed) {key : DataPath} {reference absolute : String}
    (hentry : (key, reference) ∈ layer.references.entries)
    (habsolute : Reference.resolveText layer.anchor layer.anchor parent.store.settings.rootSegment
      reference = .ok absolute)
    (hbelow : ∃ relative,
      relativeToRoot absolute parent.store.settings.rootSegment = .ok relative)
    (value : Option Json) (mode : UpdateMode) :
    (∀ path segments, path ≠ "" → (DataPath.ofText path).segments = key.segments ++ segments →
      ∃ layer', (Target.nested layer (.root parent)).updateAbsolute
          (layer.store.store.settings.rootSegment ++ "." ++ path) value mode =
        (.ok .forwarded, .nested layer' (.root
          (parent.updateAbsolute (Dotted.extend absolute segments) value mode).2))) ∧
    (key = .root →
      ∃ layer', (Target.nested layer (.root parent)).updateAbsolute
          (layer.store.store.settings.rootSegment ++ ".") value mode =
        (.ok .forwarded, .nested layer' (.root (parent.updateAbsolute absolute value mode).2))) := by
  constructor
  · intro path segments hne hsegments
    have hpath : ReferenceMap.overridePath path = .ofText path := by
      rw [ReferenceMap.overridePath, if_neg (by simpa using hne)]
    rw [← hpath] at hsegments
    exact updateAbsolute_translated h hoverride hentry habsolute hbelow hsegments value mode
  · rintro rfl
    have hempty : (ReferenceMap.overridePath "").segments = DataPath.root.segments ++ [] := rfl
    have htranslated :=
      updateAbsolute_translated h hoverride hentry habsolute hbelow hempty value mode
    rwa [Dotted.extend_nil, String.append_empty] at htranslated

/-- An update that ends in a dot, of a layer that shows a profile: the member with the empty name is set
in the parent. -/
theorem forwarding_translates_path_at_trailing_dot :
    let parent : SharedStore := { store := { tree := .object [("profile", .object [])] } }
    let layer : Layer :=
      { store := { store := { tree := .object [("person", .object [])] } }
        dataOverride := .object [("person", .string "~~.profile")]
        references := ⟨[(⟨["person"]⟩, "~~.profile")]⟩
        anchor := "data" }
    Reachable (.nested layer (.root parent)) ∧ layer.dataOverride.IsWellFormed ∧
      ∃ layer', (Target.nested layer (.root parent)).updateAbsolute "data.person.age."
          (some (.bool true)) .replace =
        (.ok .forwarded, .nested layer' (.root
          (parent.updateAbsolute (Dotted.extend "data.profile" ["age", ""]) (some (.bool true))
            .replace).2)) := by
  intro parent layer
  have hbuilt : Layer.ofOverride layer.dataOverride "data" {} (Target.root parent).scope =
      .ok layer := by
    refine Layer.ofOverride_eq_ok_iff.mpr ⟨layer.store.store.tree, ?_, ?_⟩
    · rw [Layer.project_eq_boundedPasses]
      rfl
    · rfl
  have hreachable : Reachable (.nested layer (.root parent)) := .build (.root rfl) hbuilt
  have hoverride : layer.dataOverride.IsWellFormed := by
    refine .object (by decide) fun member hmember => ?_
    cases List.mem_singleton.mp hmember
    exact .scalar rfl
  have hresolved : Reference.resolveText "data" "data" "data" "~~.profile" =
      .ok "data.profile" := by rfl
  have hbelow : relativeToRoot "data.profile" "data" = .ok (some "profile") := by rfl
  have htranslated := forwarding_translates_path hreachable hoverride List.mem_cons_self hresolved
    ⟨_, hbelow⟩ (some (.bool true)) .replace
  exact ⟨hreachable, hoverride, htranslated.1 "person.age." ["age", ""] (by decide) (by decide)⟩

/-- The empty path has the empty segment, but it is not translated by that: the whole place of the
reference is written, and not its member with the empty name. -/
theorem update_at_empty_path :
    let parent : SharedStore := { store := { tree := .object [("x", .null)] } }
    let layer := Layer.view { store := { tree := .null } } "~~.x" "data"
    let own := (parent.updateAbsolute (Dotted.extend "data.x" [""]) (some (.bool true)) .replace).2
    Reachable (.nested layer (.root parent)) ∧ (.root, "~~.x") ∈ layer.references.entries ∧
      Reference.resolveText "data" "data" "data" "~~.x" = .ok "data.x" ∧
      (DataPath.ofText "").segments = DataPath.root.segments ++ [""] ∧
      ∃ layer' written, (Target.nested layer (.root parent)).updateAbsolute "data."
          (some (.bool true)) .replace = (.ok .forwarded, .nested layer' (.root written)) ∧
        written.store.tree = .object [("x", .bool true)] ∧
        own.store.tree = .object [("x", .object [("", .bool true)])] ∧
        ¬ written.store.tree == own.store.tree := by
  intro parent layer own
  have hbuilt : Layer.ofOverride layer.dataOverride "data" {} (Target.root parent).scope =
      .ok layer := by
    refine Layer.ofOverride_eq_ok_iff.mpr ⟨.null, ?_, ?_⟩
    · rw [Layer.project_eq_boundedPasses]
      rfl
    · rfl
  have hreachable : Reachable (.nested layer (.root parent)) := .build (.root rfl) hbuilt
  have hresolved : Reference.resolveText "data" "data" "data" "~~.x" = .ok "data.x" := by rfl
  have hbelow : relativeToRoot "data.x" "data" = .ok (some "x") := by rfl
  have hempty : (ReferenceMap.overridePath "").segments = DataPath.root.segments ++ [] := rfl
  obtain ⟨layer', hforwarded⟩ := updateAbsolute_translated hreachable (.scalar rfl)
    List.mem_cons_self hresolved ⟨_, hbelow⟩ hempty (some (.bool true)) .replace
  have hpath : layer.store.store.settings.rootSegment ++ "." ++ "" = "data." := by decide
  rw [hpath, Dotted.extend_nil] at hforwarded
  have hwritten : (parent.updateAbsolute "data.x" (some (.bool true)) .replace).2.store.tree =
      .object [("x", .bool true)] := by
    rw [SharedStore.tree_updateAbsolute_of_open rfl hbelow,
      Json.updated_of_isEffective (by decide)]
    rfl
  have hown : own.store.tree = .object [("x", .object [("", .bool true)])] := by
    have hextended : Dotted.extend "data.x" [""] = "data.x." := by decide
    have hbelow' : relativeToRoot "data.x." "data" = .ok (some "x.") := by rfl
    dsimp only [own]
    rw [hextended, SharedStore.tree_updateAbsolute_of_open rfl hbelow',
      Json.updated_of_isEffective (by decide)]
    rfl
  refine ⟨hreachable, List.mem_cons_self, hresolved, rfl, layer', _, hforwarded, hwritten, hown, ?_⟩
  rw [hwritten, hown]
  decide

end Target

end DataBinding
