import DataBinding.Proofs.Mapping.MissingSource
import DataBinding.Proofs.Network.ActionEffects
import DataBinding.Proofs.Reaction.Isolation
import DataBinding.Proofs.Reference.InsideRoot

/-!
# Destinations outside of the data

Reactions, mappings and actions write to destinations that they are given as text, and each turns away
those that do not lie in the data: a reaction because the store refuses them, a mapping and an action
after a look at the path. In a context whose scopes lie in the data this concerns literal paths only.

* `Target.updateAbsolute_eq_outsideRoot_iff`: for which paths a target answers that they are outside of
  its root. What goes wrong in its parents is never reported as this.
* `references_stay_inside`: no reference is turned away.
-/

namespace DataBinding

/-! ## What a target refuses as outside of its root -/

theorem except_map_eq_error_iff {ε α β : Type} {result : Except ε α} {f : α → β} {error : ε} :
    result.map f = .error error ↔ result = .error error := by
  cases result <;> simp [Except.map]

section

variable {outside segment : String}

namespace SharedStore

variable {s : SharedStore}

theorem run_ne_outsideRoot {α : Type} {operation : Store → Except StoreError α × Store}
    (h : ∀ store, (operation store).1 ≠ .error (.outsideRoot outside segment)) :
    (s.run operation).1 ≠ .error (.outsideRoot outside segment) := by
  unfold run access
  split
  · rename_i error haccess
    split at haccess
    · cases haccess
      simp
    · cases haccess
  · exact h _

theorem scope_ne_outsideRoot : s.scope ≠ .error (.outsideRoot outside segment) := by
  unfold scope access
  split
  · simp [Except.map]
  · simp [Except.map]

end SharedStore

namespace Layer

theorem localPath_eq (l : Layer) (path : String) :
    l.localPath path = l.store.root?.bind (relativeToRoot path) := by
  unfold localPath SharedStore.root? SharedStore.scope
  cases l.store.access <;> rfl

theorem refreshAll_ne_outsideRoot {projected : Json} {entries : List (DataPath × String)}
    {s : SharedStore} :
    (refreshAll projected entries s).1 ≠ .error (.outsideRoot outside segment) := by
  induction entries generalizing s with
  | nil => simp [refreshAll]
  | cons entry entries ih =>
    obtain ⟨path, reference⟩ := entry
    have hfirst : (refresh projected path s).1 ≠ .error (.outsideRoot outside segment) := by
      refine SharedStore.run_ne_outsideRoot fun store => ?_
      split
      · split <;> simp
      · simp
    unfold refreshAll
    split
    · rename_i hrefresh
      rw [hrefresh] at hfirst
      exact hfirst
    · exact fun h => ih (except_map_eq_error_iff.mp h)

theorem resync_ne_outsideRoot (l : Layer) {parent : Except StoreError Scope}
    (hparent : parent ≠ .error (.outsideRoot outside segment)) :
    (l.resync parent).1 ≠ .error (.outsideRoot outside segment) := by
  unfold resync
  split
  · simpa using hparent
  · split
    · simp
    · exact refreshAll_ne_outsideRoot

end Layer

namespace Target

/-- A layer that has accepted a path does not report it as outside any more. -/
theorem deliver_ne_outsideRoot {layer : Layer} {parent : Target} {path : String}
    {send : String → Except StoreError UpdateOutcome × Target}
    {write : SharedStore → Except StoreError UpdateOutcome × SharedStore}
    (hwrite : (write layer.store).1 ≠ .error (.outsideRoot outside segment)) :
    (deliver layer parent path send write).1 ≠ .error (.outsideRoot outside segment) := by
  unfold deliver
  dsimp only
  split
  · exact hwrite
  · split
    · exact hwrite
    · rename_i next _
      have hscope : next.scope ≠ .error (.outsideRoot outside segment) :=
        SharedStore.scope_ne_outsideRoot
      exact fun h => layer.resync_ne_outsideRoot hscope (except_map_eq_error_iff.mp h)

/-- The outermost root segment alone decides. -/
theorem updateAbsolute_eq_outsideRoot_iff {t : Target} {path : String} {value : Option Json}
    {mode : UpdateMode} :
    (t.updateAbsolute path value mode).1 = .error (.outsideRoot outside segment) ↔
      t.store.root?.bind (relativeToRoot path) = .error (.outsideRoot outside segment) := by
  cases t with
  | root s =>
    rw [updateAbsolute, store]
    cases hrelative : s.root?.bind (relativeToRoot path) with
    | error error =>
      rw [SharedStore.updateAbsolute_of_refused hrelative]
      simp
    | ok relative =>
      obtain ⟨outcome, after, hcall, -⟩ := SharedStore.updateAbsolute_of_accepted hrelative
      rw [hcall]
      simp
  | nested layer parent =>
    rw [store, ← Layer.localPath_eq]
    unfold updateAbsolute
    cases layer.localPath path with
    | error error => simp
    | ok relative =>
      have hupdate : ∀ relative, (layer.store.update relative value mode).1 ≠
          .error (.outsideRoot outside segment) := fun relative =>
        SharedStore.run_ne_outsideRoot fun store => by simp
      have hreplace : ∀ tree, (layer.store.replace tree).1 ≠
          .error (.outsideRoot outside segment) := fun tree =>
        SharedStore.run_ne_outsideRoot fun store => by simp
      cases relative with
      | some relative => exact iff_of_false (deliver_ne_outsideRoot (hupdate relative)) (by simp)
      | none =>
        refine iff_of_false ?_ (by simp)
        dsimp only
        split
        · exact deliver_ne_outsideRoot (hreplace _)
        · simp

end Target

end

/-! ## Contexts in the data -/

/-- Both scopes of the context lie in the data with this root. -/
structure BindingContext.LiesIn (ctx : BindingContext) (root : String) : Prop where
  global : ctx.globalScope.path = root
  isInside : IsInside ctx.localScope.path root

variable {root : String} {ctx : BindingContext}

theorem BindingContext.resolvePath_of_literal {location : String}
    (h : Reference.parse? location = none) : ctx.resolvePath location = .ok location := by
  rw [resolvePath, Reference.resolveText, h]

namespace BindingContext.LiesIn

variable {location path : String}

/-- Of the locations only a literal can lead outside. -/
theorem isOutside_iff (hctx : ctx.LiesIn root) (hroot : '.' ∉ root.toList)
    (hresolved : ctx.resolvePath location = .ok path) :
    IsOutside path root ↔ Reference.parse? location = none ∧ IsOutside location root := by
  cases hreference : Reference.parse? location with
  | none =>
    rw [resolvePath_of_literal hreference] at hresolved
    cases hresolved
    exact (and_iff_right rfl).symm
  | some reference =>
    unfold resolvePath Reference.resolveText at hresolved
    rw [hreference, hctx.global] at hresolved
    have hinside := Reference.isInside_of_resolve hroot hctx.isInside hctx.isInside hresolved
    refine iff_of_false (fun houtside => ?_) (by simp)
    exact DataBinding.isOutside_iff.mp houtside hinside

/-- Mappings and actions turn away what leads outside. -/
theorem not_isUnderRoot_iff (hctx : ctx.LiesIn root) (hroot : '.' ∉ root.toList)
    (hresolved : ctx.resolvePath location = .ok path) :
    ¬ isUnderRoot path ctx.globalScope.path ↔
      Reference.parse? location = none ∧ IsOutside location root := by
  rw [hctx.global, isUnderRoot_iff, ← DataBinding.isOutside_iff,
    hctx.isOutside_iff hroot hresolved]

end BindingContext.LiesIn

/-! ## Reactions -/

theorem except_bind_pure_eq_error_iff {ε α β : Type} {result : Except ε α} {next : α → β}
    {error : ε} :
    (result >>= fun value => pure (next value)) = .error error ↔ result = .error error := by
  cases result <;> simp [bind, Except.bind, pure, Except.pure]

theorem liftStore_eq_error_iff {α : Type} {result : Except StoreError α} {error : StoreError} :
    liftStore result = .error (.store error) ↔ result = .error error := by
  cases result <;> simp [liftStore, Except.mapError]

/-- A store that is not poisoned tells its root segment, and compares paths with it. -/
theorem SharedStore.outsideRoot_iff {s : SharedStore} {path outside segment : String} :
    s.root?.bind (relativeToRoot path) = .error (.outsideRoot outside segment) ↔
      s.poisoned = false ∧ segment = s.store.settings.rootSegment ∧ outside = path ∧
        IsOutside path segment := by
  cases hpoisoned : s.poisoned with
  | true =>
    rw [root?_of_poisoned hpoisoned]
    simp [Except.bind]
  | false =>
    rw [root?_of_open hpoisoned]
    change relativeToRoot path s.store.settings.rootSegment = _ ↔ _
    rw [relativeToRoot_eq_error_iff, StoreError.outsideRoot.injEq]
    constructor
    · rintro ⟨⟨rfl, rfl⟩, houtside⟩
      exact ⟨rfl, rfl, rfl, houtside⟩
    · rintro ⟨-, rfl, rfl, houtside⟩
      exact ⟨⟨rfl, rfl⟩, houtside⟩

namespace Reaction

variable {r : Reaction} {evaluator : Evaluator}

theorem planned_eq_some_iff {w : PlannedWrite} :
    r.planned ctx evaluator = .ok (some w) ↔
      ∃ location, r.plan ctx evaluator = .ok (some location, w.value, w.mode) ∧
        ctx.resolvePath location = .ok w.path := by
  obtain ⟨path, value, mode⟩ := w
  unfold planned
  constructor
  · intro h
    split at h
    · cases h
    · cases h
    · rename_i location value mode hplan
      split at h
      · cases h
      · rename_i path hresolved
        cases h
        exact ⟨location, hplan, hresolved⟩
  · rintro ⟨location, hplan, hresolved⟩
    rw [hplan]
    dsimp only
    rw [hresolved]

/-- A payload fails in evaluation. -/
theorem evaluatePayload_ne_store {payload : Option Json} {error : StoreError} :
    evaluatePayload ctx evaluator payload ≠ .error (.store error) := by
  unfold evaluatePayload
  split
  · cases evaluator.evaluate ctx _ _ <;> simp [liftReference, Except.mapError]
  · simp

/-- What fails before the write is not the store. -/
theorem planned_ne_store {error : StoreError} :
    r.planned ctx evaluator ≠ .error (.store error) := by
  have hplan : r.plan ctx evaluator ≠ .error (.store error) := by
    cases r with
    | removeData path => simp [plan]
    | _ => exact fun h => evaluatePayload_ne_store (except_bind_pure_eq_error_iff.mp h)
  unfold planned
  split
  · rename_i other hother
    rw [hother] at hplan
    simpa using hplan
  · simp
  · split <;> simp

/-- A reaction is refused as outside of the root exactly for a literal path. -/
theorem apply_eq_outsideRoot_iff (hroot : '.' ∉ root.toList) (hctx : ctx.LiesIn root)
    {t : Target} (ht : t.store.store.settings.rootSegment = root) {path segment : String} :
    (r.apply ctx evaluator t).1 = .error (.store (.outsideRoot path segment)) ↔
      t.store.poisoned = false ∧ segment = root ∧ IsOutside path root ∧
        Reference.parse? path = none ∧
        ∃ value mode, r.plan ctx evaluator = .ok (some path, value, mode) := by
  rw [apply_eq]
  constructor
  · intro h
    split at h
    · rename_i error hplanned
      obtain rfl := Except.error.inj h
      exact absurd hplanned planned_ne_store
    · cases h
    · rename_i w hplanned
      have hrefused := Target.updateAbsolute_eq_outsideRoot_iff.mp (liftStore_eq_error_iff.mp h)
      rw [SharedStore.outsideRoot_iff, ht] at hrefused
      obtain ⟨hopen, rfl, rfl, houtside⟩ := hrefused
      obtain ⟨location, hplan, hresolved⟩ := planned_eq_some_iff.mp hplanned
      obtain ⟨hliteral, -⟩ := (hctx.isOutside_iff hroot hresolved).mp houtside
      rw [BindingContext.resolvePath_of_literal hliteral, Except.ok.injEq] at hresolved
      subst hresolved
      exact ⟨hopen, rfl, houtside, hliteral, _, _, hplan⟩
  · rintro ⟨hopen, rfl, houtside, hliteral, value, mode, hplan⟩
    have hplanned : r.planned ctx evaluator = .ok (some ⟨path, value, mode⟩) :=
      planned_eq_some_iff.mpr ⟨path, hplan, BindingContext.resolvePath_of_literal hliteral⟩
    rw [hplanned]
    refine liftStore_eq_error_iff.mpr (Target.updateAbsolute_eq_outsideRoot_iff.mpr ?_)
    rw [SharedStore.outsideRoot_iff, ht]
    exact ⟨hopen, rfl, rfl, houtside⟩

end Reaction

/-! ## Mappings -/

namespace SimpleMapping

variable {source : String → Except BindingError (Option Json)} {evaluator : Evaluator}
  {destination location : String} {item : Json} {decoded : MappingItem} {mode : UpdateMode}

/-- An entry below the root is passed over if there is nothing to write and nothing need be. -/
theorem planItem_eq_none_iff_of_isListed {entry : MappingEntry}
    (hentry : entry.IsListed ctx destination item) :
    planItem source ctx evaluator destination item = .ok none ↔
      (∃ error, source entry.location = .error error) ∧ entry.required = false ∧
        entry.defaultValue = none := by
  rw [planItem_eq hentry]
  cases source entry.location with
  | ok value => simp
  | error error =>
    cases entry.required with
    | true => simp
    | false =>
      cases entry.defaultValue with
      | none => simp
      | some standard =>
        dsimp only
        cases evaluator.evaluate ctx standard (-1) <;>
          simp [liftReference, Except.mapError, Except.map]

/-- An item is passed over for a literal destination outside of the data, or below the root for want of
anything to write. -/
theorem planItem_eq_none_iff (hroot : '.' ∉ root.toList) (hctx : ctx.LiesIn root)
    (hitem : MappingItem.ofJson? item = some decoded)
    (hmode : UpdateMode.named? (decoded.updateMode.getD "") = some mode)
    (hlocation : decoded.value.filter (!·.isEmpty) = some location) :
    planItem source ctx evaluator destination item = .ok none ↔
      Reference.parse? destination = none ∧ IsOutside destination root ∨
        (∃ path, ctx.resolvePath destination = .ok path) ∧
          (∃ error, source location = .error error) ∧ decoded.required = false ∧
          decoded.defaultValue = none := by
  cases hresolved : ctx.resolvePath destination with
  | error error =>
    rw [planItem_of_decoded hitem hmode hlocation, hresolved]
    refine iff_of_false (fun h => by cases h) ?_
    rintro (⟨hliteral, -⟩ | ⟨⟨_, hpath⟩, -⟩)
    · rw [BindingContext.resolvePath_of_literal hliteral] at hresolved
      cases hresolved
    · cases hpath
  | ok path =>
    rw [← hctx.not_isUnderRoot_iff hroot hresolved]
    by_cases hunder : isUnderRoot path ctx.globalScope.path
    · obtain ⟨hvalue, hnonempty⟩ := Option.filter_eq_some_iff.mp hlocation
      have hentry : MappingEntry.IsListed
          ⟨path, mode, location, decoded.required, decoded.defaultValue⟩ ctx destination item :=
        { decoded := ⟨decoded.updateMode, hmode, by rw [hitem, ← hvalue]⟩
          located := by simpa using hnonempty
          resolved := hresolved
          underRoot := hunder }
      have hthere : ∃ place, (Except.ok path : Except ReferenceError String) = .ok place := ⟨path, rfl⟩
      rw [planItem_eq_none_iff_of_isListed hentry, or_iff_right (not_not_intro hunder),
        and_iff_right hthere]
    · rw [planItem_of_decoded hitem hmode hlocation, hresolved]
      exact iff_of_true (if_neg hunder) (Or.inl hunder)

end SimpleMapping

/-! ## Actions -/

namespace ActionArgs

variable {a : ActionArgs} {engine : Engine}

/-- A response is ignored if the arguments say so, or exactly for a literal location outside of the
data. -/
theorem useResponse_eq_ignored_iff (hroot : '.' ∉ root.toList) (hctx : ctx.LiesIn root)
    {request : Request} {response : Response} {t : Target} :
    (a.useResponse engine ctx request response t).1 = .ok .ignored ↔
      a.refreshAppOnResponse = some false ∨
        a.updateOnlyData = true ∧ ∃ location, a.updateDataAtLocation = some location ∧
          Reference.parse? location = none ∧ IsOutside location root := by
  have hupdated : ∀ result : Except StoreError UpdateOutcome,
      (liftStore result).map ActionOutcome.dataUpdated ≠ .ok .ignored := by
    intro result
    cases result <;> simp [liftStore, Except.mapError, Except.map]
  unfold useResponse
  dsimp only
  by_cases hrefresh : a.refreshAppOnResponse = some false
  · rw [hrefresh]
    exact iff_of_true rfl (Or.inl rfl)
  have hused : ¬ (!a.refreshAppOnResponse.getD true) = true := by
    cases hflag : a.refreshAppOnResponse with
    | none => simp
    | some flag => cases flag <;> simp_all
  rw [if_neg hused, or_iff_right hrefresh]
  cases a.updateOnlyData with
  | false => exact iff_of_false (by simp) (by simp)
  | true =>
    rw [if_neg (by simp)]
    cases a.updateDataAtLocation with
    | none => exact iff_of_false (hupdated _) (by simp)
    | some location =>
      simp only [Option.some.injEq, exists_eq_left', true_and]
      cases hresolved : ctx.resolvePath location with
      | error error =>
        refine iff_of_false (by simp) ?_
        rintro ⟨hliteral, -⟩
        rw [BindingContext.resolvePath_of_literal hliteral] at hresolved
        cases hresolved
      | ok path =>
        dsimp only
        rw [← hctx.not_isUnderRoot_iff hroot hresolved]
        split
        · rename_i hunder
          exact iff_of_true rfl (by simpa using hunder)
        · rename_i hunder
          refine iff_of_false ?_ (by simpa using hunder)
          split
          · exact hupdated _
          · exact hupdated _

/-- An action that ignores the response has had one. -/
theorem exists_useResponse_of_exchange {method : String} {body : Option Json} {state : AppState}
    (h : (a.exchange engine method body ctx state).1 = .ok .ignored) :
    ∃ request response,
      (a.useResponse engine ctx request response state.target).1 = .ok .ignored := by
  unfold exchange at h
  split at h
  · cases h
  · cases h
  · dsimp only [AppState.send] at h
    split at h
    · cases h
    · rename_i hsent
      obtain ⟨-, rfl⟩ := Prod.mk.inj hsent
      exact ⟨_, _, h⟩

/-- Both actions ignore a response for these two reasons only. -/
theorem of_perform_eq_ignored (hroot : '.' ∉ root.toList) (hctx : ctx.LiesIn root)
    {kind : ActionKind} {state : AppState}
    (h : (a.perform kind engine ctx state).1 = .ok .ignored) :
    a.refreshAppOnResponse = some false ∨
      a.updateOnlyData = true ∧ ∃ location, a.updateDataAtLocation = some location ∧
        Reference.parse? location = none ∧ IsOutside location root := by
  obtain ⟨method, silent, hperform⟩ := a.perform_eq kind engine ctx state
  rw [hperform] at h
  split at h
  · cases h
  · unfold execute at h
    split at h
    · cases h
    · obtain ⟨request, response, hignored⟩ := exists_useResponse_of_exchange h
      exact (useResponse_eq_ignored_iff hroot hctx).mp hignored

end ActionArgs

/-! ## All three -/

/-- References never leave the data. Let the root segment be without a dot. A reference that is resolved
from paths inside of the root leads inside of it, or is a search for an ancestor whose key is no segment
of the current path. What mappings and actions take for a path in the data is what stores accept. In a
context in the data, reactions on a store with this root are refused as outside of it, and mappings
and actions pass a destination over, for literals that lie outside and for nothing else; but a mapping
also leaves out an optional item whose source is missing and which has no default. -/
theorem references_stay_inside {root : String} (hroot : '.' ∉ root.toList) :
    (∀ current localPath text reference, IsInside current root → IsInside localPath root →
      Reference.parse? text = some reference →
      (∀ path, Reference.resolveText current localPath root text = .ok path →
        IsInside path root) ∧
      ∀ error, Reference.resolveText current localPath root text = .error error →
        ∃ search key rest, reference = .ancestor search key rest ∧
          error = .ancestorNotFound key current ∧ key ∉ Dotted.split current) ∧
    (∀ path segment, isUnderRoot path segment ↔
      ∃ relative, relativeToRoot path segment = .ok relative) ∧
    ∀ ctx : BindingContext, ctx.LiesIn root →
      (∀ (r : Reaction) evaluator (t : Target) path segment,
        t.store.store.settings.rootSegment = root →
        ((r.apply ctx evaluator t).1 = .error (.store (.outsideRoot path segment)) ↔
          t.store.poisoned = false ∧ segment = root ∧ IsOutside path root ∧
            Reference.parse? path = none ∧
            ∃ value mode, r.plan ctx evaluator = .ok (some path, value, mode))) ∧
      (∀ source evaluator destination item decoded mode location,
        MappingItem.ofJson? item = some decoded →
        UpdateMode.named? (decoded.updateMode.getD "") = some mode →
        decoded.value.filter (!·.isEmpty) = some location →
        (SimpleMapping.planItem source ctx evaluator destination item = .ok none ↔
          Reference.parse? destination = none ∧ IsOutside destination root ∨
            (∃ path, ctx.resolvePath destination = .ok path) ∧
              (∃ error, source location = .error error) ∧ decoded.required = false ∧
              decoded.defaultValue = none)) ∧
      ∀ (a : ActionArgs) (engine : Engine),
        (∀ request response t,
          (a.useResponse engine ctx request response t).1 = .ok .ignored ↔
            a.refreshAppOnResponse = some false ∨
              a.updateOnlyData = true ∧ ∃ location, a.updateDataAtLocation = some location ∧
                Reference.parse? location = none ∧ IsOutside location root) ∧
        ∀ kind state, (a.perform kind engine ctx state).1 = .ok .ignored →
          a.refreshAppOnResponse = some false ∨
            a.updateOnlyData = true ∧ ∃ location, a.updateDataAtLocation = some location ∧
              Reference.parse? location = none ∧ IsOutside location root := by
  refine ⟨?_, fun path segment => isUnderRoot_iff.trans exists_relativeToRoot_iff.symm,
    fun ctx hctx => ⟨?_, ?_, fun a engine => ⟨?_, ?_⟩⟩⟩
  · intro current localPath text reference hcurrent hlocal hreference
    rw [Reference.resolveText, hreference]
    exact ⟨fun path => Reference.isInside_of_resolve hroot hcurrent hlocal,
      fun error => Reference.resolve_eq_error_iff.mp⟩
  · intro r evaluator t path segment ht
    exact Reaction.apply_eq_outsideRoot_iff hroot hctx ht
  · intro source evaluator destination item decoded mode location hitem hmode hlocation
    exact SimpleMapping.planItem_eq_none_iff hroot hctx hitem hmode hlocation
  · intro request response t
    exact ActionArgs.useResponse_eq_ignored_iff hroot hctx
  · intro kind state
    exact ActionArgs.of_perform_eq_ignored hroot hctx

/-- A row whose context lies in the data. An ancestor reference leads to the list of rows, and its name
alone leads outside: there it is refused for a reaction and passed over for a mapping, also where a
default stands in for a missing source. -/
theorem references_stay_inside_at_row :
    let ctx : BindingContext :=
      ⟨⟨.null, "data.rows.0"⟩, ⟨.object [("rows", .array [.null])], "data"⟩⟩
    let t : Target := .root { store := { tree := .object [("rows", .array [.null])] } }
    let item : Json := .object [("value", .string "name"), ("required", .bool false),
      ("defaultValue", .bool true)]
    '.' ∉ "data".toList ∧ ctx.LiesIn "data" ∧
      Reference.resolveText "data.rows.0" "data.rows.0" "data" "~>rows" = .ok "data.rows" ∧
      IsInside "data.rows" "data" ∧
      (∀ path segment, ((Reaction.removeData (some "~>rows")).apply ctx {} t).1 ≠
        .error (.store (.outsideRoot path segment))) ∧
      ((Reaction.removeData (some "rows")).apply ctx {} t).1 =
        .error (.store (.outsideRoot "rows" "data")) ∧
      ∀ source : String → Except BindingError (Option Json),
        SimpleMapping.planItem source ctx {} "~>rows" item ≠ .ok none ∧
        SimpleMapping.planItem source ctx {} "rows" item = .ok none := by
  intro ctx t item
  have hroot : '.' ∉ "data".toList := by decide
  have hrow : IsInside "data.rows.0" "data" := by decide
  have hctx : ctx.LiesIn "data" := ⟨rfl, hrow⟩
  have hresolved : Reference.resolveText "data.rows.0" "data.rows.0" "data" "~>rows" =
      .ok "data.rows" := by rfl
  have hreference : Reference.parse? "~>rows" = some (.ancestor .nearest "rows" none) := by rfl
  have hliteral : Reference.parse? "rows" = none := by rfl
  have houtside : IsOutside "rows" "data" := by decide
  obtain ⟨hresolve, -, hwithin⟩ := references_stay_inside hroot
  obtain ⟨hinside, -⟩ := hresolve _ _ _ _ hrow hrow hreference
  obtain ⟨hreaction, hmapping, -⟩ := hwithin ctx hctx
  have hitem : MappingItem.ofJson? item =
      some ⟨some "name", false, some (.bool true), none⟩ := by rfl
  refine ⟨hroot, hctx, hresolved, hinside _ hresolved, ?_, ?_, fun source => ?_⟩
  · intro path segment hrefused
    obtain ⟨-, -, -, hpath, value, mode, hplan⟩ := (hreaction _ {} t path segment rfl).mp hrefused
    cases hplan
    rw [hreference] at hpath
    cases hpath
  · exact (hreaction _ {} t "rows" "data" rfl).mpr
      ⟨rfl, rfl, houtside, hliteral, none, .remove, rfl⟩
  · have hdestination := fun destination => hmapping source {} destination item
      _ .replace "name" hitem (by rfl) (by rfl)
    refine ⟨fun hskipped => ?_, (hdestination "rows").mpr (Or.inl ⟨hliteral, houtside⟩)⟩
    rcases (hdestination "~>rows").mp hskipped with ⟨hpath, -⟩ | ⟨-, -, -, hdefault⟩
    · rw [hreference] at hpath
      cases hpath
    · cases hdefault

end DataBinding
