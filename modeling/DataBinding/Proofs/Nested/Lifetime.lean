import DataBinding.Proofs.Nested.View

/-!
# A chain that was built never fails

Layers are built over each other, and every store of the chain is written to in between: through its
layer, as a parent, or directly past all references. Whatever happens, each layer stays one that could
be built over the target below it, because neither its override nor its anchor nor the root segment of
its parent ever changes. So every operation of every level is answered, except for an update at an
absolute path that does not start with the root segment, which is refused before anything is written.

* `Target.Step`, `Target.Reachable`: the writes to the stores of a chain, and the states that they and
  the building of layers lead to.
* `Target.isChain_of_step`: what one write preserves; `Reachable.isChain`: what all of them preserve.
* `Target.never_fails_once_built`: the answers of every level.
-/

namespace DataBinding

/-! ## Writes to the stores of a chain -/

theorem SharedStore.follows_perform {s : SharedStore} (h : s.poisoned = false)
    (call : Store.Call) : (s.run (·.perform call)).2.Follows s := by
  rw [run_of_open h]
  exact ⟨rfl, s.store.settings_perform call⟩

namespace Target

/-- The writes to one store of a target. -/
inductive Step : Target → Target → Prop where
  | update (path : String) (value : Option Json) (mode : UpdateMode) (t : Target) :
      Step t (t.update path value mode).2
  | updateAbsolute (path : String) (value : Option Json) (mode : UpdateMode) (t : Target) :
      Step t (t.updateAbsolute path value mode).2
  | replaceRoot (tree : Json) (t : Target) : Step t (t.replaceRoot tree).2
  | resync (t : Target) : Step t t.resync.2
  | tryParent (path : String) (value : Option Json) (mode : UpdateMode) (t : Target) :
      Step t (t.tryParent path value mode).2
  /-- A call of the own store, past all references. -/
  | direct (call : Store.Call) (t : Target) : Step t (t.onStore (·.run (·.perform call))).2
  /-- A write to a store nearer to the root, of which the layers above are not told. -/
  | parent {parent parent' : Target} (layer : Layer) (h : Step parent parent') :
      Step (.nested layer parent) (.nested layer parent')

/-- What building and writing leads to: a root store in use, layers that could be built over what was
there by then, and writes at any time. -/
inductive Reachable : Target → Prop where
  | root {store : SharedStore} (hopen : store.poisoned = false) : Reachable (.root store)
  | build {parent : Target} {dataOverride : Json} {anchor : String} {settings : StoreSettings}
      {layer : Layer} (h : Reachable parent)
      (hbuilt : Layer.ofOverride dataOverride anchor settings parent.scope = .ok layer) :
      Reachable (.nested layer parent)
  | step {t t' : Target} (h : Reachable t) (hstep : Step t t') : Reachable t'

/-! ## What is preserved -/

variable {t : Target}

/-- An operation on its own store that leaves the settings leaves a chain. -/
theorem IsChain.onStore {α : Type} (h : t.IsChain) {operation : SharedStore → α × SharedStore}
    (hfollows : (operation t.store).2.Follows t.store) :
    (t.onStore operation).2.IsChain ∧ (t.onStore operation).2.rootSegment = t.rootSegment := by
  cases h with
  | root hopen =>
    exact ⟨.root (hfollows.poisoned.trans hopen),
      congrArg StoreSettings.rootSegment hfollows.settings⟩
  | nested hlayer hparent =>
    exact ⟨.nested (hlayer.of_follows hfollows) hparent,
      congrArg StoreSettings.rootSegment hfollows.settings⟩

theorem IsChain.store_open (h : t.IsChain) : t.store.poisoned = false := by
  cases h with
  | root hopen => exact hopen
  | nested hlayer _ => exact hlayer.isOpen

/-- A sync of a chain is answered, and leaves a chain. -/
theorem IsChain.resync_spec (h : t.IsChain) :
    ∃ changed, t.resync.1 = .ok changed ∧ t.resync.2.IsChain ∧
      t.resync.2.rootSegment = t.rootSegment := by
  cases h with
  | root hopen => exact ⟨false, rfl, .root hopen, rfl⟩
  | @nested layer parent hlayer hparent =>
    obtain ⟨changed, store, hsync, hfollows⟩ :=
      Layer.resync_of_builtOver hlayer parent.store.store.scope
    have hresult : (Target.nested layer parent).resync =
        (.ok changed, .nested { layer with store } parent) := by
      rw [resync, hparent.scope_eq, hsync]
    rw [hresult]
    exact ⟨changed, rfl, .nested (hlayer.of_follows hfollows) hparent,
      congrArg StoreSettings.rootSegment hfollows.settings⟩

theorem IsChain.updateAbsolute_isChain (h : t.IsChain) (path : String) (value : Option Json)
    (mode : UpdateMode) :
    (t.updateAbsolute path value mode).2.IsChain ∧
      (t.updateAbsolute path value mode).2.rootSegment = t.rootSegment := by
  cases h.updateAbsolute_answers path value mode with
  | delivered _ _ hdelivered => exact ⟨hdelivered.isChain, hdelivered.rootSegment⟩
  | outside hrefused =>
    rw [hrefused]
    exact ⟨h, rfl⟩

/-- One write to any store of a chain leaves a chain with the same root segment. The induction is on
how deep in the chain the store is. -/
theorem isChain_of_step {t' : Target} (hstep : Step t t') (h : t.IsChain) :
    t'.IsChain ∧ t'.rootSegment = t.rootSegment := by
  induction hstep with
  | update path value mode t =>
    have hdelivered := (h.delivered value mode).1 path
    exact ⟨hdelivered.isChain, hdelivered.rootSegment⟩
  | updateAbsolute path value mode t => exact h.updateAbsolute_isChain path value mode
  | replaceRoot tree t =>
    have hdelivered := (h.delivered (some tree) .replace).2 tree rfl rfl
    exact ⟨hdelivered.isChain, hdelivered.rootSegment⟩
  | resync t =>
    obtain ⟨_, -, hchain, hroot⟩ := h.resync_spec
    exact ⟨hchain, hroot⟩
  | tryParent path value mode t =>
    cases h with
    | root hopen => exact ⟨.root hopen, rfl⟩
    | @nested layer parent hlayer hparent =>
      dsimp only [tryParent]
      cases layer.parentPath? parent.scope path with
      | none => exact ⟨.nested hlayer hparent, rfl⟩
      | some absolute =>
        obtain ⟨hchain, hroot⟩ := hparent.updateAbsolute_isChain absolute value mode
        rw [← hroot] at hlayer
        exact ⟨.nested hlayer hchain, rfl⟩
  | direct call t => exact h.onStore (SharedStore.follows_perform h.store_open call)
  | parent layer _ ih =>
    cases h with
    | nested hlayer hparent =>
      obtain ⟨hchain, hroot⟩ := ih hparent
      rw [← hroot] at hlayer
      exact ⟨.nested hlayer hchain, rfl⟩

/-- Whatever was built and written, it is a chain. -/
theorem Reachable.isChain (h : Reachable t) : t.IsChain := by
  induction h with
  | root hopen => exact .root hopen
  | build _ hbuilt ih =>
    rw [ih.scope_eq] at hbuilt
    exact .nested (Layer.builtOver_of_ofOverride hbuilt) ih
  | step _ hstep ih => exact (isChain_of_step hstep ih).1

/-! ## Answers -/

/-- An update at a path that is not outside of the root is answered. -/
theorem IsChain.isOk_updateAbsolute (h : t.IsChain) {path : String} {relative : Option String}
    (hrelative : relativeToRoot path t.rootSegment = .ok relative) (value : Option Json)
    (mode : UpdateMode) : ∃ outcome, (t.updateAbsolute path value mode).1 = .ok outcome := by
  rw [h.updateAbsolute_eq, hrelative]
  cases relative with
  | some relative => exact ((h.delivered value mode).1 relative).isOk
  | none =>
    cases mode with
    | replace =>
      cases value with
      | some tree => exact ((h.delivered (some tree) .replace).2 tree rfl rfl).isOk
      | none => exact ⟨.unchanged, rfl⟩
    | _ => exact ⟨.unchanged, rfl⟩

/-- **A chain that could be built never fails.** Take a root store, layers with any overrides and
anchors, each of which could be built over the one before, and any writes to any of the stores, the
root store included. Then each level answers an update, a replacement and a sync. An update at an
absolute path is answered too, unless the path is outside of the root of the level; then it is refused
as such, and the level, with all stores below it, is as before. -/
theorem never_fails_once_built {level : Target} (h : Reachable t) (hlevel : level.IsPartOf t) :
    (∀ path value mode, ∃ outcome, (level.update path value mode).1 = .ok outcome) ∧
    (∀ tree, ∃ outcome, (level.replaceRoot tree).1 = .ok outcome) ∧
    (∃ changed, level.resync.1 = .ok changed) ∧
    ∀ path value mode,
      (¬ IsOutside path level.rootSegment →
        ∃ outcome, (level.updateAbsolute path value mode).1 = .ok outcome) ∧
      (IsOutside path level.rootSegment → level.updateAbsolute path value mode =
        (.error (.outsideRoot path level.rootSegment), level)) := by
  have hchain : level.IsChain := h.isChain.of_isPartOf hlevel
  refine ⟨fun path value mode => ?_, fun tree => ?_, ?_, fun path value mode => ?_⟩
  · exact ((hchain.delivered value mode).1 path).isOk
  · exact ((hchain.delivered (some tree) .replace).2 tree rfl rfl).isOk
  · obtain ⟨changed, hchanged, -⟩ := hchain.resync_spec
    exact ⟨changed, hchanged⟩
  · constructor
    · intro hinside
      cases hrelative : relativeToRoot path level.rootSegment with
      | error error => exact absurd (relativeToRoot_eq_error_iff.mp hrelative).2 hinside
      | ok relative => exact hchain.isOk_updateAbsolute hrelative value mode
    · intro houtside
      rw [hchain.updateAbsolute_eq, relativeToRoot_eq_error_iff.mpr ⟨rfl, houtside⟩]

/-- The layer shows the e-mail address of the account at which it is anchored. The root store is
replaced by a scalar, so that both the anchor and the place of the reference are gone. -/
theorem never_fails_once_built_at_gone_anchor :
    let account := Json.object [("email", .null)]
    let root : SharedStore := { store := { tree := .object [("account", account)] } }
    let layer : Layer :=
      { store := { store := { tree := .object [("mail", .null)] } }
        dataOverride := .object [("mail", .string "~.email")]
        references := ⟨[(⟨["mail"]⟩, "~.email")]⟩
        anchor := "data.account" }
    let gone := ((Target.root root).onStore (·.run (·.perform (.replace (.bool true))))).2
    let t := Target.nested layer gone
    t.Reachable ∧ t.IsPartOf t ∧
      (∃ outcome, (t.update "mail" (some .null) .replace).1 = .ok outcome) ∧
      t.updateAbsolute "database" none .replace = (.error (.outsideRoot "database" "data"), t) := by
  intro account root layer gone t
  have hbuilt : Layer.ofOverride layer.dataOverride "data.account" {} (Target.root root).scope =
      .ok layer := by
    have hsplit : Dotted.split "data.account" = "data" :: ["account"] := by decide
    have hcontext : (Target.root root).store.store.scope.contextAt "data.account" =
        ⟨⟨account, "data.account"⟩, root.store.scope⟩ := Scope.contextAt_of_split hsplit
    refine Layer.ofOverride_eq_ok_iff.mpr ⟨layer.store.store.tree, ?_, ?_⟩
    · rw [Layer.project_eq_boundedPasses, hcontext]
      rfl
    · rfl
  have hreachable : t.Reachable :=
    .step (.build (.root rfl) hbuilt) (.parent layer (.direct (.replace (.bool true)) _))
  have hanswers := never_fails_once_built hreachable .self
  have houtside : IsOutside "database" "data" := by decide
  exact ⟨hreachable, .self, hanswers.1 "mail" (some .null) .replace,
    (hanswers.2.2.2 "database" none .replace).2 houtside⟩

end Target

end DataBinding
