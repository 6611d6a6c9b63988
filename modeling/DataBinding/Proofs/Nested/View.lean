import DataBinding.Proofs.Nested.Delivery

/-!
# Layers that are views

A layer whose override is a single reference has no data of its own. The reference names a place in
the parent store, the same one whatever the parent holds, every write to the layer goes there, and
whenever the layer is synced it shows what is at that place, `null` if there is nothing.

* `ReferenceAt`: a reference together with the place that it names; `project_eq` says what is projected
  from there, also when the place of the anchor is gone.
* `Layer.Mirrors`: a view shows what its reference evaluates to.
* `Target.deliver_view`: one write to a view.
* `Target.ViewStep`, `Target.inUse_of_run`: the steps of a view and its parent, and their invariant.
* `Target.view_follows_parent`: what a write does after any of these steps.
-/

namespace DataBinding

/-- A scalar override is evaluated as such. -/
theorem Layer.project_string (text anchor : String) (parent : Scope) :
    project (.string text) anchor parent =
      ((parent.contextAt anchor).evaluateScalar (.string text)).map (·.getD .null) := by
  rw [project_eq_boundedPasses, BindingContext.boundedPasses, BindingContext.evaluateThen_zero]
  all_goals simp

/-! ## The place of a reference -/

/-- From the anchor, the reference `text` is resolved to the absolute path `absolute` below `root`, and
`place` is the way there from the root. -/
structure ReferenceAt (text anchor root absolute : String) (place : List String) : Prop where
  rootDotless : '.' ∉ root.toList
  isReference : (Reference.parse? text).isSome
  resolved : Reference.resolveText anchor anchor root text = .ok absolute
  placeSplit : Dotted.split absolute = root :: place
  anchored : ∃ segments, Dotted.split anchor = root :: segments ∧
    ∀ reference, Reference.parse? text = some reference → reference.startsFromGlobal = false →
      ∃ rest, place = segments ++ rest

theorem Scope.contextAt_of_split {tree : Json} {anchor root : String} {segments : List String}
    (h : Dotted.split anchor = root :: segments) :
    (Scope.mk tree root).contextAt anchor =
      ⟨⟨(tree.get? segments).getD .null, anchor⟩, ⟨tree, root⟩⟩ := by
  obtain ⟨relative, hrelative, rfl⟩ := relativeToRoot_of_split h
  rw [contextAt]
  dsimp only
  rw [hrelative, ← Json.readRelative_eq]

namespace ReferenceAt

variable {text anchor root absolute : String} {place : List String}

/-- What the reference evaluates to is what the tree holds at the place, unless the reference is local and
the place of the anchor is gone. -/
theorem evaluateScalar_of_anchored (h : ReferenceAt text anchor root absolute place) {tree : Json}
    {segments : List String} (hanchor : Dotted.split anchor = root :: segments)
    (hthere : ∀ reference, Reference.parse? text = some reference →
      reference.startsFromGlobal = false → (tree.get? segments).isSome) :
    ((Scope.mk tree root).contextAt anchor).evaluateScalar (.string text) =
      .ok (tree.get? place) := by
  obtain ⟨reference, hparse⟩ := Option.isSome_iff_exists.mp h.isReference
  have hresolved : reference.resolve anchor anchor root = .ok absolute := by
    have hresolved := h.resolved
    rwa [Reference.resolveText, hparse] at hresolved
  rw [Scope.contextAt_of_split hanchor, BindingContext.evaluateScalar, Reference.ofJson?, hparse]
  dsimp only
  refine BindingContext.lookup_eq_get?_of_resolve h.rootDotless hanchor ?_ hresolved h.placeSplit
  intro hlocal
  obtain ⟨found, hfound⟩ := Option.isSome_iff_exists.mp (hthere reference hparse hlocal)
  dsimp only
  rw [hfound, Option.getD_some]

/-- What the tree holds at the place is what the reference evaluates to. -/
theorem evaluateScalar_of_get? (h : ReferenceAt text anchor root absolute place) {tree found : Json}
    (hfound : tree.get? place = some found) :
    ((Scope.mk tree root).contextAt anchor).evaluateScalar (.string text) = .ok (some found) := by
  obtain ⟨segments, hanchor, hbelow⟩ := h.anchored
  rw [h.evaluateScalar_of_anchored hanchor, hfound]
  intro reference hparse hlocal
  obtain ⟨rest, rfl⟩ := hbelow reference hparse hlocal
  obtain ⟨above, habove, -⟩ := Option.bind_eq_some_iff.mp ((Json.get?_append ..).symm.trans hfound)
  exact Option.isSome_iff_exists.mpr ⟨above, habove⟩

/-- What the reference evaluates to is what the tree holds at the place. Where the place of the anchor
is gone, both are missing or `null`. -/
theorem evaluateScalar_eq (h : ReferenceAt text anchor root absolute place) (tree : Json) :
    ∃ found, ((Scope.mk tree root).contextAt anchor).evaluateScalar (.string text) = .ok found ∧
      found.getD .null = (tree.get? place).getD .null := by
  obtain ⟨segments, hanchor, hbelow⟩ := h.anchored
  obtain ⟨reference, hparse⟩ := Option.isSome_iff_exists.mp h.isReference
  by_cases hgone : reference.startsFromGlobal = false ∧ tree.get? segments = none
  · obtain ⟨hlocal, hgone⟩ := hgone
    obtain ⟨rest, rfl⟩ := hbelow reference hparse hlocal
    have hplace : tree.get? (segments ++ rest) = none := by
      rw [Json.get?_append, hgone]
      rfl
    rw [Scope.contextAt_of_split hanchor, BindingContext.evaluateScalar, Reference.ofJson?, hparse,
      hplace, hgone]
    dsimp only
    cases reference with
    | localRoot => exact ⟨_, rfl, rfl⟩
    | localPath below =>
      obtain ⟨first, others, hsplit⟩ := List.exists_cons_of_ne_nil (Dotted.split_ne_nil below)
      refine ⟨none, ?_, rfl⟩
      rw [BindingContext.lookup_localPath, hsplit]
      rfl
    | globalRoot => cases hlocal
    | globalPath _ => cases hlocal
    | ancestor _ _ _ => cases hlocal
  · refine ⟨tree.get? place, h.evaluateScalar_of_anchored hanchor ?_, rfl⟩
    intro other hother hlocal
    rw [hparse] at hother
    cases hother
    rw [Option.isSome_iff_ne_none]
    exact fun hnone => hgone ⟨hlocal, hnone⟩

/-- What is projected from a reference is what the tree holds at the place, `null` if there is nothing. -/
theorem project_eq (h : ReferenceAt text anchor root absolute place) (tree : Json) :
    Layer.project (.string text) anchor ⟨tree, root⟩ = .ok ((tree.get? place).getD .null) := by
  obtain ⟨found, hevaluate, hfound⟩ := h.evaluateScalar_eq tree
  rw [Layer.project_string, hevaluate, Except.map, hfound]

end ReferenceAt

/-- A reference that could be projected once names a place. -/
theorem exists_referenceAt {text anchor root : String} {relative : Option String}
    (hroot : '.' ∉ root.toList) (hanchor : relativeToRoot anchor root = .ok relative)
    (htext : (Reference.parse? text).isSome) {tree projected : Json}
    (hproject : Layer.project (.string text) anchor ⟨tree, root⟩ = .ok projected) :
    ∃ absolute place, ReferenceAt text anchor root absolute place := by
  obtain ⟨reference, hparse⟩ := Option.isSome_iff_exists.mp htext
  have hsplit := split_of_relativeToRoot hroot hanchor
  have hresolve : Reference.resolveText anchor anchor root text =
      reference.resolve anchor anchor root := by
    rw [Reference.resolveText, hparse]
  cases hresolved : reference.resolve anchor anchor root with
  | error error =>
    -- Then the reference cannot be looked up either, with any tree.
    have hlookup : ((Scope.mk tree root).contextAt anchor).lookup reference = .error error :=
      (BindingContext.lookup_eq_error_iff reference error).mpr hresolved
    rw [Layer.project_string, BindingContext.evaluateScalar, Reference.ofJson?, hparse] at hproject
    dsimp only at hproject
    rw [hlookup] at hproject
    cases hproject
  | ok absolute =>
    obtain ⟨place, hplace, hbelow⟩ := Reference.split_resolve hroot hsplit hresolved
    refine ⟨absolute, place, hroot, htext, hresolve.trans hresolved, hplace, _, hsplit, ?_⟩
    intro other hother
    rw [hparse] at hother
    cases hother
    exact hbelow

/-! ## Views -/

/-- The layer whose override is the reference `text`, with a local copy. -/
def Layer.view (store : SharedStore) (text anchor : String) : Layer where
  store := store
  dataOverride := .string text
  references := ⟨[(.root, text)]⟩
  anchor := anchor

/-- The local copy is what the override evaluates to in the scopes that a parent has now. -/
def Layer.Mirrors (l : Layer) (parent : Scope) : Prop :=
  ∃ found, (parent.contextAt l.anchor).evaluateScalar l.dataOverride = .ok found ∧
    l.store.store.tree == found.getD .null

/-- A layer with a reference as its override is a view. -/
theorem eq_view_of_ofOverride {text anchor : String} {settings : StoreSettings} {parent : Scope}
    {layer : Layer} (htext : (Reference.parse? text).isSome)
    (h : Layer.ofOverride (.string text) anchor settings (.ok parent) = .ok layer) :
    ∃ tree, Layer.project (.string text) anchor parent = .ok tree ∧
      layer = .view { store := { tree, settings } } text anchor := by
  obtain ⟨tree, hproject, rfl⟩ := Layer.ofOverride_eq_ok_iff.mp h
  refine ⟨tree, hproject, ?_⟩
  have htruthy : (Json.string text).isTruthy := by
    rw [Json.isTruthy, Bool.not_eq_true', String.isEmpty_eq_false_iff]
    rintro rfl
    cases htext
  rw [Layer.view, ReferenceMap.ofOverride, if_pos htruthy, ReferenceMap.scan, if_pos htext]

namespace ReferenceAt

variable {text anchor root absolute : String} {place : List String}
  (h : ReferenceAt text anchor root absolute place) {store parent : SharedStore}

include h

theorem mirrors_iff {tree : Json} :
    (Layer.view store text anchor).Mirrors ⟨tree, root⟩ ↔
      store.store.tree == (tree.get? place).getD .null := by
  obtain ⟨found, hevaluate, hfound⟩ := h.evaluateScalar_eq tree
  rw [← hfound]
  constructor
  · rintro ⟨found', hevaluate', hsame⟩
    have hsameFound : Except.ok found' = .ok found := hevaluate'.symm.trans hevaluate
    cases hsameFound
    exact hsame
  · exact fun hsame => ⟨found, hevaluate, hsame⟩

/-- A sync brings a view in line with the place. -/
theorem resync_view (hstore : store.poisoned = false) (tree : Json) :
    ∃ changed synced, (Layer.view store text anchor).resync (.ok ⟨tree, root⟩) =
        (.ok changed, .view synced text anchor) ∧ synced.Follows store ∧
      (Layer.view synced text anchor).Mirrors ⟨tree, root⟩ := by
  simp only [h.mirrors_iff]
  simp only [Layer.resync, Layer.view, h.project_eq, Layer.refreshAll, Layer.refresh,
    SharedStore.run_of_open hstore]
  by_cases hsame : store.store.tree == (tree.get? place).getD .null
  · simp only [DataPath.isRoot, DataPath.root, List.isEmpty_nil, if_true, if_pos hsame]
    exact ⟨_, _, rfl, .rfl, hsame⟩
  · simp only [DataPath.isRoot, DataPath.root, List.isEmpty_nil, if_true, if_neg hsame]
    exact ⟨_, _, rfl, ⟨rfl, rfl⟩, BEq.rfl⟩

/-- A write to a view belongs to the parent: to the place of the reference, and below it if the write
has a path. -/
theorem exists_parentPath? (store : SharedStore) (tree : Json) (path : String) :
    ∃ target relative, (Layer.view store text anchor).parentPath? (.ok ⟨tree, root⟩) path =
        some target ∧ relativeToRoot target root = .ok relative ∧
      (path ≠ "" → ∃ below, relative = some below ∧
        DataPath.ofText below = ⟨place ++ Dotted.split path⟩) := by
  have hmatch : (Layer.view store text anchor).references.match? path =
      some (ReferenceMap.overridePath path, text) := rfl
  have hresolved : Reference.resolveText (Layer.view store text anchor).anchor
      (Layer.view store text anchor).anchor root text = .ok absolute := h.resolved
  simp only [Layer.parentPath?, hmatch, Except.toOption, Option.bind_eq_bind, Option.bind_some,
    hresolved, Option.pure_def]
  by_cases hpath : path = ""
  · subst hpath
    obtain ⟨relative, hrelative, -⟩ := relativeToRoot_of_split h.placeSplit
    exact ⟨absolute, relative, rfl, hrelative, fun hne => absurd rfl hne⟩
  · have hrest : ReferenceMap.overridePath path = .ofText path := by
      rw [ReferenceMap.overridePath, if_neg (by simpa using hpath)]
    have hnot : ¬ (DataPath.ofText path).isRoot := by
      simpa [DataPath.isRoot, DataPath.ofText] using Dotted.split_ne_nil path
    have hsplit : Dotted.split (absolute ++ "." ++ path) =
        root :: (place ++ Dotted.split path) := by
      rw [Dotted.split_append, h.placeSplit]
      rfl
    obtain ⟨relative, hrelative, hsegments⟩ := relativeToRoot_of_split hsplit
    rw [hrest, if_neg hnot, DataPath.text_ofText]
    refine ⟨_, relative, rfl, hrelative, fun _ => ?_⟩
    cases relative with
    | none =>
      have hempty : Dotted.split path = [] := (List.append_eq_nil_iff.mp hsegments).2
      exact absurd hempty (Dotted.split_ne_nil path)
    | some below => exact ⟨below, rfl, congrArg DataPath.mk hsegments.symm⟩

/-- If a view and the tree of its parent are objects, an update of the parent below the place is an update
of the view: the part of the tree that it shows is updated as if it stood alone. -/
theorem updated_view {tree : Json} (hmirrors : (Layer.view store text anchor).Mirrors ⟨tree, root⟩)
    (hview : store.store.tree.isObject) (htree : tree.isObject) {path : String} {below : DataPath}
    (hbelow : below = ⟨place ++ Dotted.split path⟩) {synced : SharedStore} {value : Option Json}
    {mode : UpdateMode}
    (hsynced : (Layer.view synced text anchor).Mirrors ⟨tree.updated below value mode, root⟩) :
    synced.store.tree == store.store.tree.updated (.ofText path) value mode := by
  rw [h.mirrors_iff] at hmirrors hsynced
  obtain ⟨segment, back, hsplit⟩ := List.exists_cons_of_ne_nil (Dotted.split_ne_nil path)
  obtain ⟨members, rfl⟩ := Json.exists_of_isObject htree
  -- The place holds an object: `null` in its stead would not be equal to the view.
  have hfound : (((Json.object members).get? place).getD .null).isObject :=
    (Json.kind_eq_of_beq hmirrors).1.symm.trans hview
  obtain ⟨inner, hinner⟩ := Json.exists_of_isObject hfound
  have hplace : (Json.object members).get? place = some (.object inner) := by
    cases hget : (Json.object members).get? place with
    | none =>
      rw [hget] at hinner
      cases hinner
    | some found =>
      rw [hget] at hinner
      exact congrArg some hinner
  rw [hplace] at hmirrors
  rw [hbelow, hsplit, Json.get?_updated_append hplace] at hsynced
  rw [DataPath.ofText, hsplit]
  exact BEq.trans hsynced (BEq.symm (Json.updated_congr hmirrors _ value mode))

end ReferenceAt

/-! ## Writes -/

theorem Store.settings_perform (s : Store) (call : Call) :
    (s.perform call).2.settings = s.settings := by
  cases call with
  | update path value mode => exact s.settings_updatePath (.ofText path) value mode
  | updatePath path value mode => exact s.settings_updatePath path value mode
  | set path value => exact s.settings_updatePath (.ofText path) (some value) .replace
  | updateAbsolute path value mode =>
    change (s.updateAbsolute path value mode).2.settings = s.settings
    unfold updateAbsolute
    split
    · rfl
    · exact s.settings_updatePath _ value mode
    · split <;> rfl
  | replace tree => rfl

namespace Target

/-- A write to a layer that its parent store carries out: the layer is synced with the parent after it,
is not written otherwise, and shows what its override evaluates to by then. -/
structure IsForwarded (layer : Layer) (parent : SharedStore) (path : String) (value : Option Json)
    (mode : UpdateMode) (result : Except StoreError UpdateOutcome × Target) (synced : Layer)
    (written : SharedStore) : Prop where
  result_eq : result = (.ok .forwarded, .nested synced (.root written))
  written_eq : ∃ absolute outcome, layer.parentPath? parent.scope path = some absolute ∧
    parent.updateAbsolute absolute value mode = (.ok outcome, written)
  synced_eq : ∃ changed, layer.resync written.scope = (.ok changed, synced)
  mirrors : synced.Mirrors written.store.scope

/-- The writes to a view and to its parent store, and the sync of the view. -/
inductive ViewStep : Target → Target → Prop where
  | update (path : String) (value : Option Json) (mode : UpdateMode) (t : Target) :
      ViewStep t (t.update path value mode).2
  | replace (tree : Json) (t : Target) : ViewStep t (t.replaceRoot tree).2
  | resync (t : Target) : ViewStep t t.resync.2
  | parentWrite (call : Store.Call) (layer : Layer) (parent : SharedStore) :
      ViewStep (.nested layer (.root parent))
        (.nested layer (.root (parent.run (·.perform call)).2))

/-- The stores of a view and of its parent, which has the given root segment, are in use. -/
structure InUse (root : String) (store parent : SharedStore) : Prop where
  isOpen : store.poisoned = false
  parentOpen : parent.poisoned = false
  rootSegment : parent.store.settings.rootSegment = root

variable {text anchor root absolute : String} {place : List String} {store parent : SharedStore}

theorem InUse.of_follows (hview : InUse root store parent) {written : SharedStore}
    (h : written.Follows parent) : InUse root store written := by
  refine ⟨hview.isOpen, h.poisoned.trans hview.parentOpen, ?_⟩
  rw [h.settings]
  exact hview.rootSegment

theorem InUse.scope_eq (hview : InUse root store parent) :
    parent.store.scope = ⟨parent.store.tree, root⟩ := by
  rw [Store.scope, hview.rootSegment]

/-- A sync of a view with its parent. -/
theorem resync_of_inUse (h : ReferenceAt text anchor root absolute place)
    (hview : InUse root store parent) :
    ∃ changed synced, (Layer.view store text anchor).resync parent.scope =
        (.ok changed, .view synced text anchor) ∧
      InUse root synced parent ∧ (Layer.view synced text anchor).Mirrors parent.store.scope := by
  obtain ⟨changed, synced, hsync, hfollows, hmirrors⟩ :=
    h.resync_view hview.isOpen parent.store.tree
  rw [SharedStore.scope_of_open hview.parentOpen, hview.scope_eq]
  have hopen : synced.poisoned = false := hfollows.poisoned.trans hview.isOpen
  exact ⟨changed, synced, hsync, ⟨hopen, hview.parentOpen, hview.rootSegment⟩, hmirrors⟩

/-- A write to a view ends in its parent. An update is seen in the view as if it had been made there. -/
theorem deliver_view (h : ReferenceAt text anchor root absolute place)
    (hview : InUse root store parent) (path : String) (value : Option Json)
    (mode : UpdateMode)
    (write : SharedStore → Except StoreError UpdateOutcome × SharedStore) :
    ∃ synced written, IsForwarded (.view store text anchor) parent path value mode
        (deliver (.view store text anchor) (.root parent) path
          (fun target => (Target.root parent).updateAbsolute target value mode) write)
        (.view synced text anchor) written ∧
      InUse root synced written ∧
      (path ≠ "" → (Layer.view store text anchor).Mirrors parent.store.scope →
        store.store.tree.isObject → parent.store.tree.isObject →
        synced.store.tree == store.store.tree.updated (.ofText path) value mode) := by
  obtain ⟨target, relative, hpath, hrelative, hbelow⟩ :=
    h.exists_parentPath? store parent.store.tree path
  rw [← hview.scope_eq, ← SharedStore.scope_of_open hview.parentOpen] at hpath
  rw [← hview.rootSegment] at hrelative
  obtain ⟨outcome, written, hwrite, hfollows, htree⟩ :=
    SharedStore.updateAbsolute_of_open hview.parentOpen hrelative value mode
  have hafter : InUse root store written := hview.of_follows hfollows
  obtain ⟨changed, synced, hsync, hsynced, hmirrors⟩ := resync_of_inUse h hafter
  have hsend : (Target.root parent).updateAbsolute target value mode =
      (.ok outcome, .root written) := by
    rw [updateAbsolute, hwrite]
  have hresult : deliver (.view store text anchor) (.root parent) path
      (fun target => (Target.root parent).updateAbsolute target value mode) write =
        (.ok .forwarded, .nested (.view synced text anchor) (.root written)) :=
    deliver_of_taken hpath hsend hsync
  refine ⟨synced, written, ⟨hresult, ⟨target, outcome, hpath, hwrite⟩, ⟨changed, hsync⟩, hmirrors⟩,
    hsynced, fun hne hbefore hobject hparent => ?_⟩
  obtain ⟨below, hbelow, hsegments⟩ := hbelow hne
  rw [hview.scope_eq] at hbefore
  rw [hafter.scope_eq, htree below hbelow] at hmirrors
  exact h.updated_view hbefore hobject hparent hsegments hmirrors

theorem resync_view (h : ReferenceAt text anchor root absolute place)
    (hview : InUse root store parent) :
    ∃ changed synced, (Target.nested (.view store text anchor) (.root parent)).resync =
        (.ok changed, .nested (.view synced text anchor) (.root parent)) ∧
      InUse root synced parent ∧ (Layer.view synced text anchor).Mirrors parent.store.scope := by
  obtain ⟨changed, synced, hsync, hsynced⟩ := resync_of_inUse h hview
  have hscope : (Target.root parent).scope = parent.scope := rfl
  refine ⟨changed, synced, ?_, hsynced⟩
  rw [resync, hscope, hsync]

/-- Whatever is done to a view or its parent, the view stays one. -/
theorem inUse_of_step (h : ReferenceAt text anchor root absolute place)
    (hview : InUse root store parent) {t : Target}
    (hstep : ViewStep (.nested (.view store text anchor) (.root parent)) t) :
    ∃ store' parent', t = .nested (.view store' text anchor) (.root parent') ∧
      InUse root store' parent' := by
  generalize hstart : Target.nested (.view store text anchor) (.root parent) = start at hstep
  cases hstep with
  | update path value mode =>
    subst hstart
    obtain ⟨synced, written, hforwarded, hinUse, -⟩ := deliver_view h hview path value mode
      (·.update path value mode)
    exact ⟨synced, written, congrArg Prod.snd hforwarded.result_eq, hinUse⟩
  | replace tree =>
    subst hstart
    obtain ⟨synced, written, hforwarded, hinUse, -⟩ := deliver_view h hview "" (some tree) .replace
      (·.replace tree)
    exact ⟨synced, written, congrArg Prod.snd hforwarded.result_eq, hinUse⟩
  | resync =>
    subst hstart
    obtain ⟨changed, synced, hresult, hinUse, -⟩ := resync_view h hview
    exact ⟨synced, parent, congrArg Prod.snd hresult, hinUse⟩
  | parentWrite call layer other =>
    cases hstart
    refine ⟨store, _, rfl, hview.of_follows ?_⟩
    rw [SharedStore.run_of_open hview.parentOpen]
    exact ⟨rfl, parent.store.settings_perform call⟩

/-- A view at some point of its life: its writes are forwarded, and it is synced when asked to. -/
structure IsLive (text anchor : String) (store parent : SharedStore) : Prop where
  update (path : String) (value : Option Json) (mode : UpdateMode) :
    ∃ synced written,
      IsForwarded (.view store text anchor) parent path value mode
        ((Target.nested (.view store text anchor) (.root parent)).update path value mode)
        (.view synced text anchor) written ∧
      (path ≠ "" → (Layer.view store text anchor).Mirrors parent.store.scope →
        store.store.tree.isObject → parent.store.tree.isObject →
        synced.store.tree == store.store.tree.updated (.ofText path) value mode)
  replace (tree : Json) :
    ∃ synced written,
      IsForwarded (.view store text anchor) parent "" (some tree) .replace
        ((Target.nested (.view store text anchor) (.root parent)).replaceRoot tree)
        (.view synced text anchor) written
  resync : ∃ changed synced,
    (Target.nested (.view store text anchor) (.root parent)).resync =
      (.ok changed, .nested (.view synced text anchor) (.root parent)) ∧
    (Layer.view synced text anchor).Mirrors parent.store.scope

theorem isLive_of_inUse (h : ReferenceAt text anchor root absolute place)
    (hview : InUse root store parent) : IsLive text anchor store parent where
  update path value mode := by
    obtain ⟨synced, written, hforwarded, -, hplain⟩ := deliver_view h hview path value mode
      (·.update path value mode)
    exact ⟨synced, written, hforwarded, hplain⟩
  replace tree := by
    obtain ⟨synced, written, hforwarded, -, -⟩ := deliver_view h hview "" (some tree) .replace
      (·.replace tree)
    exact ⟨synced, written, hforwarded⟩
  resync := by
    obtain ⟨changed, synced, hresult, -, hmirrors⟩ := resync_view h hview
    exact ⟨changed, synced, hresult, hmirrors⟩

/-- The invariant of all runs, by induction on the steps. -/
theorem inUse_of_run (h : ReferenceAt text anchor root absolute place)
    (hview : InUse root store parent) {t : Target}
    (hrun : Relation.ReflTransGen ViewStep (.nested (.view store text anchor) (.root parent)) t) :
    ∃ store' parent', t = .nested (.view store' text anchor) (.root parent') ∧
      InUse root store' parent' := by
  induction hrun with
  | refl => exact ⟨store, parent, rfl, hview⟩
  | tail _ hstep ih =>
    obtain ⟨store', parent', rfl, hview'⟩ := ih
    exact inUse_of_step h hview' hstep

/-- **A layer that is one reference is a live view of its parent.** Take a parent whose root segment has
no dot, an anchor at or below the root, and a reference with which a layer could be built. However the
layer and the parent were written to since, each update or replacement of the layer is forwarded: the
parent carries it out, the layer is merely synced, and shows what the reference evaluates to by then.
An update with a path, of a layer that shows what it should, where that and the tree of the parent are
objects, leaves what the update makes of a tree that stands alone. -/
theorem view_follows_parent {layer : Layer} {settings : StoreSettings}
    (hroot : '.' ∉ parent.store.settings.rootSegment.toList)
    (hanchor : ∃ relative, relativeToRoot anchor parent.store.settings.rootSegment = .ok relative)
    (htext : (Reference.parse? text).isSome)
    (hbuilt : Layer.ofOverride (.string text) anchor settings parent.scope = .ok layer)
    {t : Target} (hrun : Relation.ReflTransGen ViewStep (.nested layer (.root parent)) t) :
    ∃ store' parent', t = .nested (.view store' text anchor) (.root parent') ∧
      IsLive text anchor store' parent' := by
  have hparent : parent.poisoned = false := by
    cases hpoisoned : parent.poisoned with
    | false => rfl
    | true =>
      rw [SharedStore.scope, SharedStore.access, hpoisoned] at hbuilt
      cases hbuilt
  obtain ⟨relative, hanchor⟩ := hanchor
  rw [SharedStore.scope_of_open hparent] at hbuilt
  obtain ⟨tree, hproject, rfl⟩ := eq_view_of_ofOverride htext hbuilt
  obtain ⟨absolute, place, h⟩ := exists_referenceAt hroot hanchor htext hproject
  obtain ⟨store', parent', rfl, hview⟩ := inUse_of_run h ⟨rfl, hparent, rfl⟩ hrun
  exact ⟨store', parent', rfl, isLive_of_inUse h hview⟩

/-- A view of a profile whose name is deleted, after the parent was replaced. -/
theorem view_follows_parent_at_profile :
    let profile := Json.object [("name", .bool true)]
    let parent : SharedStore := { store := { tree := .object [("profile", profile)] } }
    let store : SharedStore := { store := { tree := profile } }
    let later := (parent.run
      (·.perform (.replace (.object [("visits", .null), ("profile", profile)])))).2
    let t := Target.nested (.view store "~~.profile" "data") (.root later)
    ∃ synced written, IsForwarded (.view store "~~.profile" "data") later "name" none .replace
        (t.update "name" none .replace) (.view synced "~~.profile" "data") written ∧
      synced.store.tree == profile.updated (.ofText "name") none .replace := by
  intro profile parent store later t
  let layer := Layer.view store "~~.profile" "data"
  have hbuilt : Layer.ofOverride (.string "~~.profile") "data" {} parent.scope = .ok layer := by
    refine Layer.ofOverride_eq_ok_iff.mpr ⟨profile, ?_, ?_⟩
    · rw [Layer.project_eq_boundedPasses]
      rfl
    · rfl
  have hrun : Relation.ReflTransGen ViewStep (.nested layer (.root parent)) t :=
    .single (.parentWrite _ layer parent)
  have hlater : later.store.scope =
      ⟨.object [("visits", .null), ("profile", profile)], "data"⟩ := rfl
  have hmirrors : layer.Mirrors later.store.scope := by
    rw [hlater]
    exact ⟨some profile, rfl, BEq.rfl⟩
  obtain ⟨store', parent', ht, hlive⟩ :=
    view_follows_parent (by decide) ⟨none, rfl⟩ (by decide) hbuilt hrun
  injection ht with hview hroot
  injection hroot with hparent
  have hstore : store = store' := congrArg Layer.store hview
  rw [← hparent, ← hstore] at hlive
  obtain ⟨synced, written, hforwarded, hplain⟩ := hlive.update "name" none .replace
  exact ⟨synced, written, hforwarded, hplain (by decide) hmirrors rfl rfl⟩

end Target

end DataBinding
