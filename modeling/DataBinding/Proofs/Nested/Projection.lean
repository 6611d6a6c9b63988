import DataBinding.Nested.Layer
import DataBinding.Proofs.Evaluation.Lookup
import DataBinding.Proofs.Evaluation.Passes

/-!
# Layers that were built keep working

The override of a layer is evaluated in the scopes of the parent, each time anew. Whether this fails
depends on the override and the anchor alone: only an ancestor search fails, and it searches the
anchor and no tree. So a layer that could be built can be synced with its parent ever after, whatever
was written to the two in the meantime.

* `Scope.contextAt`: the scopes in which an override is evaluated.
* `Layer.project_eq_boundedPasses`: the projected data is one pass in these scopes.
* `Layer.isOk_project_congr`: the failure does not depend on the trees.
* `SharedStore.Follows`: what no operation changes; each operation on a store in use is answered.
* `Layer.BuiltOver`, `Layer.resync_of_builtOver`: a layer that was built is synced without failure.
-/

namespace DataBinding

/-! ## The scopes of an override -/

/-- The local scope is the place of the anchor, without data if there is none; the global one is the
parent. -/
def Scope.contextAt (parent : Scope) (anchor : String) : BindingContext :=
  let localTree :=
    match relativeToRoot anchor parent.path with
    | .ok relative => (parent.tree.readRelative relative).getD .null
    | .error _ => .null
  ⟨⟨localTree, anchor⟩, parent⟩

theorem Layer.project_eq_boundedPasses (dataOverride : Json) (anchor : String)
    (parent : Scope) :
    project dataOverride anchor parent =
      ((parent.contextAt anchor).boundedPasses 1 dataOverride).map (·.getD .null) := by
  have hpasses : ({} : Evaluator).passBound 1 = 1 := rfl
  rw [← hpasses, ← Evaluator.evaluate_eq_boundedPasses_passBound]
  unfold project Scope.contextAt
  cases relativeToRoot anchor parent.path with
  | error error => rfl
  | ok relative => cases relative <;> rfl

/-! ## Failure -/

theorem isOk_map {ε α β : Type} (x : Except ε α) (f : α → β) : (x.map f).isOk = x.isOk := by
  cases x <;> rfl

theorem isOk_mapM {ε α β : Type} {f : α → Except ε β} {items : List α} :
    (items.mapM f).isOk ↔ ∀ item ∈ items, (f item).isOk := by
  induction items with
  | nil => simp [pure, Except.pure, Except.isOk, Except.toBool]
  | cons item items ih =>
    rw [List.mapM_cons, List.forall_mem_cons, ← ih]
    cases f item with
    | error error => simp [bind, Except.bind, Except.isOk, Except.toBool]
    | ok result =>
      cases items.mapM f <;>
        simp [bind, Except.bind, pure, Except.pure, Except.isOk, Except.toBool]

namespace BindingContext

/-- A pass fails if and only if a part of the value does. -/
theorem isOk_boundedPasses_one (ctx : BindingContext) (value : Json) :
    (ctx.boundedPasses 1 value).isOk ↔ ∀ part ∈ value.parts, (ctx.evaluateScalar part).isOk := by
  have hthen := ctx.evaluateThen_zero
  cases value with
  | array items =>
    rw [boundedPasses, isOk_map, isOk_mapM]
    simp only [hthen, Json.parts]
  | object members =>
    rw [boundedPasses, isOk_map, isOk_mapM]
    simp only [hthen, isOk_map, Json.parts, List.forall_mem_map]
  | _ =>
    rw [boundedPasses, hthen]
    all_goals simp [Json.parts]

/-- Resolving an ancestor needs the current path alone. -/
theorem resolve_ancestor_congr (search : AncestorSearch) (key : String) (rest : Option String)
    (current localPath globalPath localPath' globalPath' : String) :
    (Reference.ancestor search key rest).resolve current localPath globalPath =
      (Reference.ancestor search key rest).resolve current localPath' globalPath' := by
  cases rest <;> rfl

/-- Whether a value can be evaluated depends on the path of the local scope alone. -/
theorem isOk_evaluateScalar_congr {ctx ctx' : BindingContext}
    (h : ctx.localScope.path = ctx'.localScope.path) (value : Json) :
    (ctx.evaluateScalar value).isOk = (ctx'.evaluateScalar value).isOk := by
  unfold evaluateScalar
  cases Reference.ofJson? value with
  | none => rfl
  | some reference =>
    cases reference with
    | ancestor search key rest =>
      simp only [lookup, isOk_map]
      rw [h]
      exact congrArg Except.isOk (resolve_ancestor_congr search key rest _ _ _ _ _)
    | _ => rfl

end BindingContext

namespace Layer

/-- Whether an override can be projected does not depend on the parent. -/
theorem isOk_project_congr (dataOverride : Json) (anchor : String) (parent parent' : Scope) :
    (project dataOverride anchor parent).isOk = (project dataOverride anchor parent').isOk := by
  rw [project_eq_boundedPasses, project_eq_boundedPasses, isOk_map, isOk_map, Bool.eq_iff_iff,
    BindingContext.isOk_boundedPasses_one, BindingContext.isOk_boundedPasses_one]
  have hpath : (parent.contextAt anchor).localScope.path =
      (parent'.contextAt anchor).localScope.path := rfl
  simp only [BindingContext.isOk_evaluateScalar_congr hpath]

theorem exists_project_of_ok {dataOverride : Json} {anchor : String} {parent : Scope}
    {tree : Json} (h : project dataOverride anchor parent = .ok tree) (parent' : Scope) :
    ∃ tree', project dataOverride anchor parent' = .ok tree' := by
  have hok := isOk_project_congr dataOverride anchor parent parent'
  rw [h] at hok
  cases htree : project dataOverride anchor parent' with
  | ok tree' => exact ⟨tree', rfl⟩
  | error error =>
    rw [htree] at hok
    cases hok

end Layer

/-! ## Stores in use -/

theorem Store.settings_updatePath (s : Store) (path : DataPath) (value : Option Json)
    (mode : UpdateMode) : (s.updatePath path value mode).2.settings = s.settings := by
  unfold updatePath
  split <;> rfl

theorem Store.tree_updatePath (s : Store) (path : DataPath) (value : Option Json)
    (mode : UpdateMode) :
    (s.updatePath path value mode).2.tree = s.tree.updated path value mode := by
  unfold updatePath Json.updated
  cases s.tree.update? path value mode <;> rfl

namespace SharedStore

/-- What no operation on a store changes. -/
structure Follows (after before : SharedStore) : Prop where
  poisoned : after.poisoned = before.poisoned
  settings : after.store.settings = before.store.settings

theorem Follows.rfl {s : SharedStore} : s.Follows s := ⟨Eq.refl _, Eq.refl _⟩

theorem Follows.trans {first second third : SharedStore} (h : third.Follows second)
    (h' : second.Follows first) : third.Follows first :=
  ⟨h.poisoned.trans h'.poisoned, h.settings.trans h'.settings⟩

variable {s : SharedStore}

theorem access_of_open (h : s.poisoned = false) : s.access = .ok s.store := by
  rw [access, h]
  rfl

theorem run_of_open {α : Type} (h : s.poisoned = false)
    (operation : Store → Except StoreError α × Store) :
    s.run operation = ((operation s.store).1, { s with store := (operation s.store).2 }) := by
  rw [run, access_of_open h]

theorem scope_of_open (h : s.poisoned = false) : s.scope = .ok s.store.scope := by
  rw [scope, access_of_open h]
  rfl

theorem update_of_open (h : s.poisoned = false) (path : String) (value : Option Json)
    (mode : UpdateMode) :
    ∃ outcome after, s.update path value mode = (.ok outcome, after) ∧ after.Follows s := by
  rw [update, run_of_open h]
  exact ⟨_, _, rfl, rfl, Store.settings_updatePath s.store (.ofText path) value mode⟩

theorem replace_of_open (h : s.poisoned = false) (tree : Json) :
    ∃ outcome after, s.replace tree = (.ok outcome, after) ∧ after.Follows s := by
  rw [replace, run_of_open h]
  exact ⟨_, _, rfl, rfl, rfl⟩

/-- An update below the root is carried out; what happens at the root itself is not said here. -/
theorem updateAbsolute_of_open (h : s.poisoned = false) {path : String} {relative : Option String}
    (hrelative : relativeToRoot path s.store.settings.rootSegment = .ok relative)
    (value : Option Json) (mode : UpdateMode) :
    ∃ outcome after, s.updateAbsolute path value mode = (.ok outcome, after) ∧
      after.Follows s ∧ ∀ below, relative = some below →
        after.store.tree = s.store.tree.updated (.ofText below) value mode := by
  unfold updateAbsolute Store.updateAbsolute
  rw [run_of_open h, hrelative]
  cases relative with
  | some relative =>
    refine ⟨_, _, rfl, ⟨rfl, s.store.settings_updatePath ..⟩, ?_⟩
    rintro _ ⟨⟩
    exact s.store.tree_updatePath (.ofText relative) value mode
  | none => cases mode <;> cases value <;> exact ⟨_, _, rfl, ⟨rfl, rfl⟩, by simp⟩

theorem tree_updateAbsolute_of_open (h : s.poisoned = false) {path below : String}
    (hrelative : relativeToRoot path s.store.settings.rootSegment = .ok (some below))
    (value : Option Json) (mode : UpdateMode) :
    (s.updateAbsolute path value mode).2.store.tree =
      s.store.tree.updated (.ofText below) value mode := by
  obtain ⟨_, after, hcall, -, htree⟩ := updateAbsolute_of_open h hrelative value mode
  rw [hcall]
  exact htree below rfl

end SharedStore

/-! ## Syncing -/

namespace Layer

/-- A layer that was built over a parent with the root segment `root`. Since then its local copy and
the data of the parent may have changed in any way. -/
structure BuiltOver (l : Layer) (root : String) : Prop where
  isOpen : l.store.poisoned = false
  built : ∃ tree built, ofOverride l.dataOverride l.anchor l.store.store.settings
    (.ok ⟨tree, root⟩) = .ok built ∧ built.references = l.references

theorem ofOverride_eq_ok_iff {dataOverride : Json} {anchor : String} {settings : StoreSettings}
    {parent : Scope} {l : Layer} :
    ofOverride dataOverride anchor settings (.ok parent) = .ok l ↔
      ∃ tree, project dataOverride anchor parent = .ok tree ∧
        l = { store := { store := { tree, settings } }, dataOverride, anchor,
              references := .ofOverride dataOverride settings.referenceScanDepth.toNat } := by
  unfold ofOverride
  cases hproject : project dataOverride anchor parent with
  | error error => simp [bind, Except.bind, Except.mapError, hproject]
  | ok tree =>
    simp only [bind, Except.bind, Except.mapError, pure, Except.pure, Except.ok.injEq, hproject]
    constructor
    · rintro rfl
      exact ⟨tree, rfl, rfl⟩
    · rintro ⟨_, rfl, rfl⟩
      rfl

variable {l : Layer} {root : String}

/-- A layer fresh from its override was built. -/
theorem builtOver_of_ofOverride {dataOverride : Json} {anchor : String}
    {settings : StoreSettings} {parent : Scope}
    (h : ofOverride dataOverride anchor settings (.ok parent) = .ok l) :
    l.BuiltOver parent.path := by
  obtain ⟨tree, -, rfl⟩ := ofOverride_eq_ok_iff.mp h
  exact ⟨rfl, parent.tree, _, h, rfl⟩

theorem BuiltOver.of_follows (h : l.BuiltOver root) {store : SharedStore}
    (hstore : store.Follows l.store) : BuiltOver { l with store } root := by
  obtain ⟨hopen, hbuilt⟩ := h
  rw [← hstore.settings] at hbuilt
  exact ⟨hstore.poisoned.trans hopen, hbuilt⟩

theorem BuiltOver.exists_project (h : l.BuiltOver root) (parent : Scope) :
    ∃ projected, project l.dataOverride l.anchor parent = .ok projected := by
  obtain ⟨tree, built, hbuilt, -⟩ := h.built
  obtain ⟨projected, hprojected, -⟩ := ofOverride_eq_ok_iff.mp hbuilt
  exact exists_project_of_ok hprojected parent

theorem BuiltOver.references_eq (h : l.BuiltOver root) :
    l.references =
      .ofOverride l.dataOverride l.store.store.settings.referenceScanDepth.toNat := by
  obtain ⟨tree, built, hbuilt, hreferences⟩ := h.built
  obtain ⟨projected, -, rfl⟩ := ofOverride_eq_ok_iff.mp hbuilt
  exact hreferences.symm

theorem refresh_of_open {s : SharedStore} (h : s.poisoned = false) (projected : Json)
    (path : DataPath) :
    ∃ changed after, refresh projected path s = (.ok changed, after) ∧ after.Follows s := by
  rw [refresh, SharedStore.run_of_open h]
  split
  · split
    · exact ⟨_, _, rfl, rfl, rfl⟩
    · exact ⟨_, _, rfl, rfl, rfl⟩
  · exact ⟨_, _, rfl, rfl, Store.settings_updatePath ..⟩

theorem refreshAll_of_open {s : SharedStore} (h : s.poisoned = false) (projected : Json)
    (entries : List (DataPath × String)) :
    ∃ changed after, refreshAll projected entries s = (.ok changed, after) ∧
      after.Follows s := by
  induction entries generalizing s with
  | nil => exact ⟨false, s, rfl, .rfl⟩
  | cons entry entries ih =>
    obtain ⟨path, reference⟩ := entry
    obtain ⟨changed, after, hfirst, hfollows⟩ := refresh_of_open h projected path
    obtain ⟨others, last, hrest, hfollows'⟩ := ih (hfollows.poisoned.trans h)
    refine ⟨changed || others, last, ?_, hfollows'.trans hfollows⟩
    rw [refreshAll, hfirst]
    dsimp only
    rw [hrest]
    rfl

/-- **A layer that was built is synced without failure**, with every state of its parent. -/
theorem resync_of_builtOver (h : l.BuiltOver root) (parent : Scope) :
    ∃ changed store, l.resync (.ok parent) = (.ok changed, { l with store }) ∧
      store.Follows l.store := by
  obtain ⟨projected, hprojected⟩ := h.exists_project parent
  obtain ⟨changed, store, hrefresh, hfollows⟩ :=
    refreshAll_of_open h.isOpen projected l.references.entries
  refine ⟨changed, store, ?_, hfollows⟩
  simp only [resync, hprojected, hrefresh]

theorem localPath_of_open (h : l.store.poisoned = false) (path : String) :
    l.localPath path = relativeToRoot path l.store.store.settings.rootSegment := by
  rw [localPath, SharedStore.access_of_open h]
  rfl

end Layer

end DataBinding
