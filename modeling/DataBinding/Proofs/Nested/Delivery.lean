import DataBinding.Nested.Target
import DataBinding.Proofs.Nested.Projection
import DataBinding.Proofs.Store.Revision

/-!
# An update is delivered once

An update of a layer may go to the parent of the layer, from there to the parent of that, and so on,
and a layer whose parent does not take the update carries it out itself. If the parent could fail
after it wrote, the layer would write a second time. It cannot: a target that answers with an error
says that the path is outside of its root, and finds this out before it writes anything.

* `Target.IsChain`: layers, each built over the target below it.
* `Target.Delivery`: one store is written, those below it stay, those above it are synced upwards;
  `WritesOnce` is what this means for the list of stores.
* `Target.deliver_delivered`: one layer, if what its parent answers is known.
* `Target.IsChain.delivered`: all layers, by induction.
* `Target.update_delivered_once`: every update of a chain is a delivery, and no attempt leaves traces.
-/

namespace DataBinding

namespace Target

/-! ## Chains -/

/-- The first segment of the absolute paths into a target. -/
def rootSegment (t : Target) : String := t.store.store.settings.rootSegment

/-- A root store and layers over it, each built over the target below it, all of them in use. -/
inductive IsChain : Target → Prop where
  | root {store : SharedStore} (hopen : store.poisoned = false) : IsChain (.root store)
  | nested {layer : Layer} {parent : Target} (hlayer : layer.BuiltOver parent.rootSegment)
      (hparent : parent.IsChain) : IsChain (.nested layer parent)

/-- A target and the targets below it. -/
inductive IsPartOf (level : Target) : Target → Prop where
  | self : level.IsPartOf level
  | parent {layer : Layer} {parent : Target} (h : level.IsPartOf parent) :
      level.IsPartOf (.nested layer parent)

/-- The stores of a target, from its own to the root store. -/
def stores : Target → List SharedStore
  | .root store => [store]
  | .nested layer parent => layer.store :: parent.stores

variable {t : Target}

theorem IsChain.of_isPartOf {level : Target} (hchain : t.IsChain) (h : level.IsPartOf t) :
    level.IsChain := by
  induction h with
  | self => exact hchain
  | parent _ ih =>
    cases hchain with
    | nested _ hparent => exact ih hparent

theorem IsChain.scope_eq (h : t.IsChain) : t.scope = .ok t.store.store.scope := by
  cases h with
  | root hopen => exact SharedStore.scope_of_open hopen
  | nested hlayer _ => exact SharedStore.scope_of_open hlayer.isOpen

/-! ## Deliveries -/

/-- How a write reaches a target, at a path below its root or at the root itself, with the answer and
the target after it. -/
inductive Delivery (value : Option Json) (mode : UpdateMode) :
    Option String → Target → Except StoreError UpdateOutcome × Target → Prop where
  /-- The store of the target is updated. -/
  | update (path : String) (t : Target) :
      Delivery value mode (some path) t (t.onStore (·.update path value mode))
  /-- The store of the target is replaced. -/
  | replace {tree : Json} (hvalue : value = some tree) (hmode : mode = .replace) (t : Target) :
      Delivery value mode none t (t.onStore (·.replace tree))
  /-- Only a replacement has an effect at the root. -/
  | idle (h : ¬ (value.isSome ∧ mode = .replace)) (t : Target) :
      Delivery value mode none t (.ok .unchanged, t)
  /-- The write is delivered to the parent at the place that the layer refers to, and then the layer is
  synced with the parent as it is by then. -/
  | above {place parentPlace : Option String} {layer layer' : Layer} {parent parent' : Target}
      {absolute : String} {outcome : UpdateOutcome} {changed : Bool}
      (hwhole : place = none → value.isSome ∧ mode = .replace)
      (hpath : layer.parentPath? parent.scope (place.getD "") = some absolute)
      (hplace : relativeToRoot absolute parent.rootSegment = .ok parentPlace)
      (hparent : Delivery value mode parentPlace parent (.ok outcome, parent'))
      (hsync : layer.resync parent'.scope = (.ok changed, layer')) :
      Delivery value mode place (.nested layer parent) (.ok .forwarded, .nested layer' parent')

/-- Of the stores of a target at most one is written, and those nearer to the root are as before. -/
def WritesOnce (value : Option Json) (mode : UpdateMode) (before after : List SharedStore) : Prop :=
  ∃ above above' writer writer' below, before = above ++ writer :: below ∧
    after = above' ++ writer' :: below ∧ above'.length = above.length ∧
    (writer' = writer ∨ (∃ path, writer' = (writer.update path value mode).2) ∨
      ∃ tree, value = some tree ∧ mode = .replace ∧ writer' = (writer.replace tree).2)

/-- A write to a chain that is delivered, and leaves a chain with the same root segment. -/
structure Delivered (value : Option Json) (mode : UpdateMode) (place : Option String)
    (t : Target) (result : Except StoreError UpdateOutcome × Target) : Prop where
  delivery : Delivery value mode place t result
  isOk : ∃ outcome, result.1 = .ok outcome
  isChain : result.2.IsChain
  rootSegment : result.2.rootSegment = t.rootSegment

/-- What is answered to a write at an absolute path: the write is delivered, or the path is outside of
the root and the target is as before. -/
inductive Answers (value : Option Json) (mode : UpdateMode) (path : String) (t : Target)
    (result : Except StoreError UpdateOutcome × Target) : Prop where
  | delivered (place : Option String) (hplace : relativeToRoot path t.rootSegment = .ok place)
      (h : Delivered value mode place t result)
  | outside (h : result = (.error (.outsideRoot path t.rootSegment), t))

variable {value : Option Json} {mode : UpdateMode}

theorem stores_onStore {α : Type} (operation : SharedStore → α × SharedStore) (t : Target) :
    ∃ below, t.stores = t.store :: below ∧
      (t.onStore operation).2.stores = (operation t.store).2 :: below := by
  cases t with
  | root store => exact ⟨[], rfl, rfl⟩
  | nested layer parent => exact ⟨parent.stores, rfl, rfl⟩

/-- A delivery writes one store at most, and leaves those below it alone. -/
theorem Delivery.writesOnce {place : Option String}
    {result : Except StoreError UpdateOutcome × Target} (h : Delivery value mode place t result) :
    WritesOnce value mode t.stores result.2.stores := by
  induction h with
  | update path t =>
    obtain ⟨below, hbefore, hafter⟩ := stores_onStore (·.update path value mode) t
    exact ⟨[], [], _, _, below, hbefore, hafter, rfl, .inr (.inl ⟨path, rfl⟩)⟩
  | @replace tree hvalue hmode t =>
    obtain ⟨below, hbefore, hafter⟩ := stores_onStore (·.replace tree) t
    exact ⟨[], [], _, _, below, hbefore, hafter, rfl, .inr (.inr ⟨tree, hvalue, hmode, rfl⟩)⟩
  | idle _ t =>
    obtain ⟨below, hstores, -⟩ := stores_onStore (fun store => ((), store)) t
    exact ⟨[], [], _, _, below, hstores, hstores, rfl, .inl rfl⟩
  | @above place parentPlace layer layer' parent parent' absolute outcome changed _ _ _ _ _ ih =>
    obtain ⟨above, above', writer, writer', below, hbefore, hafter, hlength, hwritten⟩ := ih
    refine ⟨layer.store :: above, layer'.store :: above', writer, writer', below, ?_, ?_, ?_,
      hwritten⟩
    · exact congrArg (layer.store :: ·) hbefore
    · exact congrArg (layer'.store :: ·) hafter
    · exact congrArg (· + 1) hlength

/-- Writing the store of the target itself is a delivery. -/
theorem IsChain.delivered_onStore (hchain : t.IsChain) {place : Option String}
    {write : SharedStore → Except StoreError UpdateOutcome × SharedStore}
    (hwrite : t.store.poisoned = false →
      ∃ outcome after, write t.store = (.ok outcome, after) ∧ after.Follows t.store)
    (h : Delivery value mode place t (t.onStore write)) :
    Delivered value mode place t (t.onStore write) := by
  cases hchain with
  | @root store hopen =>
    obtain ⟨outcome, after, hresult, hfollows⟩ := hwrite hopen
    have hwritten : (Target.root store).onStore write = (.ok outcome, .root after) := by
      rw [onStore, show write store = _ from hresult]
    rw [hwritten] at h ⊢
    exact ⟨h, ⟨outcome, rfl⟩, .root (hfollows.poisoned.trans hopen),
      congrArg StoreSettings.rootSegment hfollows.settings⟩
  | @nested layer parent hlayer hparent =>
    obtain ⟨outcome, after, hresult, hfollows⟩ := hwrite hlayer.isOpen
    have hwritten : (Target.nested layer parent).onStore write =
        (.ok outcome, .nested { layer with store := after } parent) := by
      rw [onStore, show write layer.store = _ from hresult]
    rw [hwritten] at h ⊢
    exact ⟨h, ⟨outcome, rfl⟩, .nested (hlayer.of_follows hfollows) hparent,
      congrArg StoreSettings.rootSegment hfollows.settings⟩

/-! ## One level -/

section Deliver

variable {layer : Layer} {parent : Target} {path absolute : String}
  {send : String → Except StoreError UpdateOutcome × Target}
  {write : SharedStore → Except StoreError UpdateOutcome × SharedStore}

theorem deliver_of_uncovered (hpath : layer.parentPath? parent.scope path = none) :
    deliver layer parent path send write = (Target.nested layer parent).onStore write := by
  simp only [deliver, hpath]
  rfl

theorem deliver_of_refused {error : StoreError}
    (hpath : layer.parentPath? parent.scope path = some absolute)
    (hsend : send absolute = (.error error, parent)) :
    deliver layer parent path send write = (Target.nested layer parent).onStore write := by
  simp only [deliver, hpath, hsend]
  rfl

theorem deliver_of_taken {outcome : UpdateOutcome} {parent' : Target} {changed : Bool}
    {layer' : Layer} (hpath : layer.parentPath? parent.scope path = some absolute)
    (hsend : send absolute = (.ok outcome, parent'))
    (hsync : layer.resync parent'.scope = (.ok changed, layer')) :
    deliver layer parent path send write = (.ok .forwarded, .nested layer' parent') := by
  simp only [deliver, hpath, hsend, hsync]
  rfl

/-- A layer that was built over a chain delivers to it, or to its own store where nothing was delivered
to the chain. -/
theorem deliver_delivered (hlayer : layer.BuiltOver parent.rootSegment)
    {place : Option String} (hwhole : place = none → value.isSome ∧ mode = .replace)
    (hsend : ∀ absolute, Answers value mode absolute parent (send absolute))
    (hkeep : Delivered value mode place (.nested layer parent)
      ((nested layer parent).onStore write)) :
    Delivered value mode place (.nested layer parent)
      (deliver layer parent (place.getD "") send write) := by
  cases hpath : layer.parentPath? parent.scope (place.getD "") with
  | none =>
    rw [deliver_of_uncovered hpath]
    exact hkeep
  | some absolute =>
    cases hsend absolute with
    | outside h =>
      rw [deliver_of_refused hpath h]
      exact hkeep
    | delivered parentPlace hplace h =>
      obtain ⟨outcome, hok⟩ := h.isOk
      have hresult : send absolute = (.ok outcome, (send absolute).2) := Prod.ext hok rfl
      obtain ⟨changed, store, hsync, hfollows⟩ :=
        Layer.resync_of_builtOver hlayer (send absolute).2.store.store.scope
      rw [← h.isChain.scope_eq] at hsync
      rw [deliver_of_taken hpath hresult hsync]
      have hdelivery := h.delivery
      rw [hresult] at hdelivery
      refine ⟨.above hwhole hpath hplace hdelivery hsync, ⟨_, rfl⟩, .nested ?_ h.isChain, ?_⟩
      · rw [h.rootSegment]
        exact hlayer.of_follows hfollows
      · exact congrArg StoreSettings.rootSegment hfollows.settings

end Deliver

theorem IsChain.updateAbsolute_eq (h : t.IsChain) (path : String) (value : Option Json)
    (mode : UpdateMode) :
    t.updateAbsolute path value mode =
      match relativeToRoot path t.rootSegment with
      | .error error => (.error error, t)
      | .ok (some relative) => t.update relative value mode
      | .ok none =>
        match mode, value with
        | .replace, some tree => t.replaceRoot tree
        | _, _ => (.ok .unchanged, t) := by
  cases h with
  | @root store hopen =>
    have hroot : (Target.root store).rootSegment = store.store.settings.rootSegment := rfl
    unfold updateAbsolute SharedStore.updateAbsolute
    rw [SharedStore.run_of_open hopen, hroot]
    unfold Store.updateAbsolute update replaceRoot SharedStore.update SharedStore.replace
    simp only [SharedStore.run_of_open hopen]
    cases relativeToRoot path store.store.settings.rootSegment with
    | error error => rfl
    | ok relative =>
      cases relative with
      | some relative => rfl
      | none => cases mode <;> cases value <;> rfl
  | @nested layer parent hlayer _ =>
    have hlocal : layer.localPath path =
        relativeToRoot path (Target.nested layer parent).rootSegment :=
      Layer.localPath_of_open hlayer.isOpen path
    unfold updateAbsolute
    rw [hlocal]
    cases relativeToRoot path (Target.nested layer parent).rootSegment with
    | error error => rfl
    | ok relative =>
      cases relative with
      | some relative => rfl
      | none => cases mode <;> cases value <;> rfl

/-! ## All levels -/

/-- A chain whose updates and replacements are delivered answers to absolute paths. -/
theorem IsChain.answers (h : t.IsChain)
    (hupdate : ∀ path, Delivered value mode (some path) t (t.update path value mode))
    (hreplace : ∀ tree, value = some tree → mode = .replace →
      Delivered value mode none t (t.replaceRoot tree)) (path : String) :
    Answers value mode path t (t.updateAbsolute path value mode) := by
  rw [h.updateAbsolute_eq]
  cases hrelative : relativeToRoot path t.rootSegment with
  | error error =>
    refine .outside ?_
    rw [(relativeToRoot_eq_error_iff.mp hrelative).1]
  | ok relative =>
    refine .delivered relative hrelative ?_
    cases relative with
    | some relative => exact hupdate relative
    | none =>
      by_cases hwhole : value.isSome ∧ mode = .replace
      · obtain ⟨hvalue, rfl⟩ := hwhole
        obtain ⟨tree, rfl⟩ := Option.isSome_iff_exists.mp hvalue
        exact hreplace tree rfl rfl
      · have hidle : Delivered value mode none t (.ok .unchanged, t) :=
          ⟨.idle hwhole t, ⟨_, rfl⟩, h, rfl⟩
        cases mode <;> cases value <;> first | exact hidle | simp at hwhole

/-- Every write to a chain is delivered. The induction is on the layers: what the parent answers is
known when a layer decides whether to write by itself. -/
theorem IsChain.delivered (h : t.IsChain) (value : Option Json) (mode : UpdateMode) :
    (∀ path, Delivered value mode (some path) t (t.update path value mode)) ∧
      ∀ tree, value = some tree → mode = .replace →
        Delivered value mode none t (t.replaceRoot tree) := by
  induction h with
  | @root store hopen =>
    constructor
    · intro path
      exact (IsChain.root hopen).delivered_onStore
        (fun hopen => SharedStore.update_of_open hopen path value mode)
        (.update path (.root store))
    · intro tree hvalue hmode
      exact (IsChain.root hopen).delivered_onStore
        (fun hopen => SharedStore.replace_of_open hopen tree) (.replace hvalue hmode (.root store))
  | @nested layer parent hlayer hparent ih =>
    have hchain : (Target.nested layer parent).IsChain := .nested hlayer hparent
    have hsend := hparent.answers ih.1 ih.2
    constructor
    · intro path
      have hown := hchain.delivered_onStore
        (fun hopen => SharedStore.update_of_open hopen path value mode)
        (.update path (.nested layer parent))
      exact deliver_delivered hlayer (by simp) hsend hown
    · intro tree hvalue hmode
      have hown := hchain.delivered_onStore
        (fun hopen => SharedStore.replace_of_open hopen tree)
        (.replace hvalue hmode (.nested layer parent))
      subst hvalue hmode
      exact deliver_delivered hlayer (fun _ => ⟨rfl, rfl⟩) hsend hown

/-- What a chain answers to an absolute path. -/
theorem IsChain.updateAbsolute_answers (h : t.IsChain) (path : String) (value : Option Json)
    (mode : UpdateMode) : Answers value mode path t (t.updateAbsolute path value mode) :=
  h.answers (h.delivered value mode).1 (h.delivered value mode).2 path

/-! ## Attempts -/

/-- An update is an attempt with the parent, and then either a sync or an update of the own store. -/
theorem update_eq_tryParent (t : Target) (path : String) (value : Option Json)
    (mode : UpdateMode) :
    t.update path value mode =
      match t.tryParent path value mode with
      | (true, after) => (after.resync.1.map fun _ => .forwarded, after.resync.2)
      | (false, after) => after.onStore (·.update path value mode) := by
  cases t with
  | root store => rfl
  | nested layer parent =>
    dsimp only [update, deliver, tryParent]
    cases layer.parentPath? parent.scope path with
    | none => rfl
    | some absolute =>
      dsimp only
      cases parent.updateAbsolute absolute value mode with
      | mk answer parent' => cases answer <;> rfl

/-- A parent that took an update can be synced with; one that did not is as before. -/
theorem IsChain.tryParent_spec (h : t.IsChain) (path : String) (value : Option Json)
    (mode : UpdateMode) :
    (∃ after changed synced, t.tryParent path value mode = (true, after) ∧
        after.resync = (.ok changed, synced)) ∨
      t.tryParent path value mode = (false, t) := by
  cases h with
  | root _ => exact .inr rfl
  | @nested layer parent hlayer hparent =>
    dsimp only [tryParent]
    cases layer.parentPath? parent.scope path with
    | none => exact .inr rfl
    | some absolute =>
      dsimp only
      cases hparent.updateAbsolute_answers absolute value mode with
      | outside h =>
        rw [h]
        exact .inr rfl
      | delivered place _ h =>
        obtain ⟨outcome, hok⟩ := h.isOk
        rw [hok]
        obtain ⟨changed, store, hsync, -⟩ := Layer.resync_of_builtOver hlayer
          (parent.updateAbsolute absolute value mode).2.store.store.scope
        rw [← h.isChain.scope_eq] at hsync
        exact .inl ⟨_, changed, .nested { layer with store } _, rfl, by rw [resync, hsync]⟩

/-- An update is forwarded if the parent took it; otherwise the own store alone is updated, and the
attempt has left nothing behind. -/
theorem IsChain.update_of_tryParent (h : t.IsChain) (path : String) (value : Option Json)
    (mode : UpdateMode) :
    ((t.tryParent path value mode).1 = true → (t.update path value mode).1 = .ok .forwarded) ∧
      ((t.tryParent path value mode).1 = false → (t.tryParent path value mode).2 = t ∧
        t.update path value mode = t.onStore (·.update path value mode)) := by
  rw [update_eq_tryParent]
  rcases h.tryParent_spec path value mode with ⟨after, changed, synced, htry, hsync⟩ | htry
  · rw [htry]
    dsimp only
    rw [hsync]
    exact ⟨fun _ => rfl, fun hrefused => by cases hrefused⟩
  · rw [htry]
    exact ⟨fun htaken => (by cases htaken), fun _ => ⟨rfl, rfl⟩⟩

/-- **An update of a chain of layers is delivered once.** One store carries it out, as one update, or
as one replacement if it is addressed by its root; all stores below that one stay, and all stores above
it are synced with their parents, from the lowest to the topmost one. Whether at the top or on the way,
a layer whose parent took the update says that it was forwarded; if the parent did not take it, nothing
was changed by the attempt, and the layer makes its own single update. -/
theorem update_delivered_once (h : t.IsChain) (path : String) (value : Option Json)
    (mode : UpdateMode) :
    Delivered value mode (some path) t (t.update path value mode) ∧
      WritesOnce value mode t.stores (t.update path value mode).2.stores ∧
      ∀ level : Target, level.IsPartOf t → ∀ path,
        ((level.tryParent path value mode).1 = true →
          (level.update path value mode).1 = .ok .forwarded) ∧
        ((level.tryParent path value mode).1 = false →
          (level.tryParent path value mode).2 = level ∧
            level.update path value mode = level.onStore (·.update path value mode)) ∧
        ∀ error, (level.updateAbsolute path value mode).1 = .error error →
          error = .outsideRoot path level.rootSegment ∧
            (level.updateAbsolute path value mode).2 = level := by
  have hdelivered := (h.delivered value mode).1 path
  refine ⟨hdelivered, hdelivered.delivery.writesOnce, fun level hlevel path => ?_⟩
  have hchain : level.IsChain := h.of_isPartOf hlevel
  obtain ⟨htaken, hrefused⟩ := hchain.update_of_tryParent path value mode
  refine ⟨htaken, hrefused, fun error herror => ?_⟩
  cases hchain.updateAbsolute_answers path value mode with
  | delivered place _ h =>
    obtain ⟨outcome, hok⟩ := h.isOk
    rw [hok] at herror
    cases herror
  | outside h =>
    rw [h] at herror ⊢
    cases herror
    exact ⟨rfl, rfl⟩

/-- Two layers of references: the mail of the upper one is the e-mail address of the account that the
lower one shows. -/
theorem update_delivered_once_at_mail :
    let account := Json.object [("email", .null)]
    let root : SharedStore := { store := { tree := .object [("account", account)] } }
    let lower : Layer :=
      { store := { store := { tree := .object [("acct", account)] } }
        dataOverride := .object [("acct", .string "~~.account")]
        references := ⟨[(⟨["acct"]⟩, "~~.account")]⟩
        anchor := "data" }
    let upper : Layer :=
      { store := { store := { tree := .object [("mail", .null)] } }
        dataOverride := .object [("mail", .string "~~.acct.email")]
        references := ⟨[(⟨["mail"]⟩, "~~.acct.email")]⟩
        anchor := "data" }
    let t := Target.nested upper (.nested lower (.root root))
    t.IsChain ∧ Delivered (some (.bool true)) .replace (some "mail") t
      (t.update "mail" (some (.bool true)) .replace) := by
  intro account root lower upper t
  have hlower : Layer.ofOverride lower.dataOverride "data" {} (.ok root.store.scope) =
      .ok lower := by
    refine Layer.ofOverride_eq_ok_iff.mpr ⟨lower.store.store.tree, ?_, ?_⟩
    · rw [Layer.project_eq_boundedPasses]
      rfl
    · rfl
  have hupper : Layer.ofOverride upper.dataOverride "data" {} (.ok lower.store.store.scope) =
      .ok upper := by
    refine Layer.ofOverride_eq_ok_iff.mpr ⟨upper.store.store.tree, ?_, ?_⟩
    · rw [Layer.project_eq_boundedPasses]
      rfl
    · rfl
  have hchain : t.IsChain :=
    .nested (Layer.builtOver_of_ofOverride hupper)
      (.nested (Layer.builtOver_of_ofOverride hlower) (.root rfl))
  exact ⟨hchain, (update_delivered_once hchain "mail" (some (.bool true)) .replace).1⟩

end Target

end DataBinding
