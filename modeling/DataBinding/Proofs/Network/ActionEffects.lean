import DataBinding.Action
import DataBinding.Proofs.Network.Submission

/-!
# What network actions leave behind

An action may end in many places: its payload or its URL cannot be evaluated, there is no URL, another
submission is running, the server does not answer, the response is not wanted, its location is none,
or the store refuses it. At each of them the session is as free as before, no more than one request has
been sent, and the store has changed only where the answer says that it was updated.

* `SparesStore`: an answer that is not an update comes with the store as it was.
* `ActionArgs.exchange_spec`: what happens under the latch.
* `Session.IsReachable`: the sessions that tasks can bring about; `IsReachable.finish_eq` says how the
  latch is left.
* `action_disciplined`: both actions, from any state of the session.
-/

namespace DataBinding

/-! ## The store -/

namespace SharedStore

variable {s after : SharedStore} {error : StoreError}

/-- An operation that fails has not touched the store, if none of its failures does. -/
theorem eq_of_run_eq_error {α : Type} {operation : Store → Except StoreError α × Store}
    (hkept : ∀ error, (operation s.store).1 = .error error → (operation s.store).2 = s.store)
    (h : s.run operation = (.error error, after)) : after = s := by
  unfold run at h
  cases haccess : s.access with
  | error error =>
    rw [haccess] at h
    exact (Prod.mk.inj h).2.symm
  | ok store =>
    rw [haccess] at h
    obtain ⟨hanswer, rfl⟩ := Prod.mk.inj h
    obtain rfl : s.store = store := by
      unfold access at haccess
      split at haccess
      · cases haccess
      · exact Except.ok.inj haccess
    rw [hkept error hanswer]

/-- An update that is refused has not touched the store. -/
theorem eq_of_updateAbsolute_eq_error {path : String} {value : Option Json} {mode : UpdateMode}
    (h : s.updateAbsolute path value mode = (.error error, after)) : after = s := by
  refine eq_of_run_eq_error (fun error herror => ?_) h
  unfold Store.updateAbsolute at herror ⊢
  split
  · rfl
  · rename_i relative hrelative
    rw [hrelative] at herror
    cases herror
  · rename_i hrelative
    rw [hrelative] at herror
    cases mode <;> cases value <;> cases herror

theorem eq_of_replace_eq_error {tree : Json} (h : s.replace tree = (.error error, after)) :
    after = s :=
  eq_of_run_eq_error (fun _ herror => by cases herror) h

end SharedStore

/-- The answer of an action with the target after it: only an update has changed the store. -/
def SparesStore (s : SharedStore) (result : Except BindingError ActionOutcome × Target) : Prop :=
  ∃ after, result.2 = .root after ∧
    ((∀ outcome, result.1 ≠ .ok (.dataUpdated outcome)) → after = s)

theorem sparesStore_kept (s : SharedStore) (answer : Except BindingError ActionOutcome) :
    SparesStore s (answer, .root s) :=
  ⟨s, rfl, fun _ => rfl⟩

/-- A write answers that it updated the data, or fails without a trace. -/
theorem sparesStore_written {s after : SharedStore} {answer : Except StoreError UpdateOutcome}
    (h : ∀ error, answer = .error error → after = s) :
    SparesStore s ((liftStore answer).map ActionOutcome.dataUpdated, .root after) := by
  refine ⟨after, rfl, fun hnone => ?_⟩
  cases answer with
  | error error => exact h error rfl
  | ok outcome => exact absurd rfl (hnone outcome)

namespace ActionArgs

/-- A response is not used, or its data is written. -/
theorem useResponse_sparesStore (a : ActionArgs) (engine : Engine) (ctx : BindingContext)
    (request : Request) (response : Response) (s : SharedStore) :
    SparesStore s (a.useResponse engine ctx request response (.root s)) := by
  have hreplace : ∀ tree, SparesStore s
      ((liftStore ((Target.root s).replaceRoot tree).1).map ActionOutcome.dataUpdated,
        ((Target.root s).replaceRoot tree).2) := by
    intro tree
    exact sparesStore_written fun error herror =>
      SharedStore.eq_of_replace_eq_error (Prod.ext herror rfl)
  have hupdate : ∀ path value, SparesStore s
      ((liftStore ((Target.root s).updateAbsolute path value .replace).1).map
          ActionOutcome.dataUpdated,
        ((Target.root s).updateAbsolute path value .replace).2) := by
    intro path value
    rw [Target.updateAbsolute]
    exact sparesStore_written fun error herror =>
      SharedStore.eq_of_updateAbsolute_eq_error (Prod.ext herror rfl)
  unfold useResponse
  split
  · exact sparesStore_kept s _
  dsimp only
  split
  · exact sparesStore_kept s _
  split
  · exact hreplace _
  split
  · exact sparesStore_kept s _
  split
  · exact sparesStore_kept s _
  split
  · exact hreplace _
  · exact hupdate _ _

/-! ## The exchange -/

/-- The URL of an action is a text that is not empty. -/
def HasUrl (a : ActionArgs) (ctx : BindingContext) : Prop :=
  ∃ url text, a.url = some url ∧ ctx.evaluateScalar url = .ok (some (.string text)) ∧ text ≠ ""

theorem targetUrl_eq_some_iff {a : ActionArgs} {ctx : BindingContext} :
    (∃ text, a.targetUrl ctx = .ok (some text)) ↔ a.HasUrl ctx := by
  unfold targetUrl HasUrl
  cases a.url with
  | none => simp
  | some url =>
    cases hvalue : ctx.evaluateScalar url with
    | error error => simp [hvalue, Except.map]
    | ok value =>
      rcases value with _ | _ | _ | _ | text | _ | _ <;>
        simp [hvalue, Except.map, Json.string?, Option.filter]

/-- What an exchange does to the state of the application. -/
structure Exchanged (a : ActionArgs) (ctx : BindingContext) (state : AppState) (s : SharedStore)
    (result : Except BindingError ActionOutcome × AppState) : Prop where
  session : result.2.session = state.session
  sent : (a.HasUrl ctx ∧ ∃ request, result.2.sent = state.sent ++ [request]) ∨
    (¬ a.HasUrl ctx ∧ result.2.sent = state.sent)
  store : SparesStore s (result.1, result.2.target)

theorem exchange_spec (a : ActionArgs) (engine : Engine) (method : String) (body : Option Json)
    (ctx : BindingContext) {state : AppState} {s : SharedStore} (htarget : state.target = .root s) :
    a.Exchanged ctx state s (a.exchange engine method body ctx state) := by
  have hkept : ∀ answer, SparesStore s (answer, state.target) := by
    rw [htarget]
    exact sparesStore_kept s
  unfold exchange
  cases hurl : a.targetUrl ctx with
  | error error =>
    have hnone : ¬ a.HasUrl ctx := by simp [← targetUrl_eq_some_iff, hurl]
    exact ⟨rfl, Or.inr ⟨hnone, rfl⟩, hkept _⟩
  | ok url =>
    cases url with
    | none =>
      have hnone : ¬ a.HasUrl ctx := by simp [← targetUrl_eq_some_iff, hurl]
      exact ⟨rfl, Or.inr ⟨hnone, rfl⟩, hkept _⟩
    | some url =>
      have hsome : a.HasUrl ctx := targetUrl_eq_some_iff.mp ⟨url, hurl⟩
      dsimp only [AppState.send]
      -- From here on the request has been sent, whatever becomes of the answer.
      cases engine.transport (state.request method url body) with
      | error error => exact ⟨rfl, Or.inl ⟨hsome, _, rfl⟩, hkept _⟩
      | ok response =>
        refine ⟨rfl, Or.inl ⟨hsome, _, rfl⟩, ?_⟩
        dsimp only
        rw [htarget]
        exact a.useResponse_sparesStore engine ctx _ response s

end ActionArgs

/-! ## The session -/

/-- A copy of a session that tasks have used in any way so far. -/
def Session.IsReachable (session : Session) : Prop :=
  ∃ s : SharedSession, s.Reachable ∧ session ∈ s.sessions

namespace Session.IsReachable

variable {session : Session}

/-- While the latch is free the silent flag is clear. -/
theorem latch_eq_of_free (h : session.IsReachable) (hfree : session.latch.submitting = false) :
    session.latch = {} := by
  obtain ⟨s, hreachable, hsession⟩ := h
  obtain ⟨headers, -, rfl⟩ := List.mem_map.mp hsession
  have hlatch := hreachable.isExclusive.latch
  change s.latch.submitting = false at hfree
  have hnone : s.submissions = [] := by simpa [hlatch] using hfree
  rw [hnone] at hlatch
  exact hlatch

/-- A submission that begins and finishes leaves the latch free and the silent flag clear. -/
theorem finish_eq (h : session.IsReachable) {silent : Option Bool} {guard : Guard} {latch : Latch}
    (hbegin : session.latch.begin? silent = some (guard, latch)) : latch.finish guard = {} := by
  obtain ⟨s, hreachable, hsession⟩ := h
  obtain ⟨headers, -, rfl⟩ := List.mem_map.mp hsession
  obtain ⟨rfl, hrunning⟩ := hreachable.begin hbegin 0
  exact (hrunning.finish rfl).isExclusive.latch

end Session.IsReachable

/-! ## Both actions -/

inductive ActionKind where
  | fetch
  | submit
  deriving DecidableEq

namespace ActionArgs

def perform (a : ActionArgs) : ActionKind → Engine → BindingContext → AppState →
    Except BindingError ActionOutcome × AppState
  | .fetch => a.fetch
  | .submit => a.submit

/-- What an action sends along with its request. -/
def requestBody (a : ActionArgs) (ctx : BindingContext) :
    ActionKind → Except ReferenceError (Option Json)
  | .fetch => .ok none
  | .submit => (submissionPayload ctx a.data).map some

/-- Both actions evaluate what they send and go on alike. -/
theorem perform_eq (a : ActionArgs) (kind : ActionKind) (engine : Engine) (ctx : BindingContext)
    (state : AppState) :
    ∃ method silent, a.perform kind engine ctx state =
      match a.requestBody ctx kind with
      | .error error => (.error (.reference error), state)
      | .ok body => a.execute engine method body silent ctx state := by
  cases kind with
  | fetch => exact ⟨_, none, rfl⟩
  | submit =>
    refine ⟨a.httpMethod.getD "post", a.submitSilently, ?_⟩
    change a.submit engine ctx state = _
    unfold submit requestBody
    cases submissionPayload ctx a.data <;> rfl

/-- How an action that begins in `state`, with the store `s`, has to leave the application. -/
structure Disciplined (a : ActionArgs) (kind : ActionKind) (ctx : BindingContext)
    (state : AppState) (s : SharedStore)
    (result : Except BindingError ActionOutcome × AppState) : Prop where
  /-- Another submission is running: nothing is sent, and nothing changes. -/
  held : state.session.latch.submitting = true → result.2 = state
  freed : state.session.latch.submitting = false →
    result.2.session.latch = { submitting := false, silent := false }
  sent_once : result.2.sent = state.sent ∨ ∃ request, result.2.sent = state.sent ++ [request]
  sent_iff : (∃ request, result.2.sent = state.sent ++ [request]) ↔
    state.session.latch.submitting = false ∧ (∃ body, a.requestBody ctx kind = .ok body) ∧
      ∃ url text, a.url = some url ∧ ctx.evaluateScalar url = .ok (some (.string text)) ∧
        text ≠ ""
  /-- Tree, revision and channel are those of the store before, unless the answer is an update. -/
  store : ∃ after, result.2.target = .root after ∧
    ((∀ outcome, result.1 ≠ .ok (.dataUpdated outcome)) → after = s)

theorem not_exists_append_singleton {α : Type} {items : List α} :
    ¬ ∃ item, items = items ++ [item] := by
  rintro ⟨item, h⟩
  have := congrArg List.length h
  simp at this

/-- An action that ends before it takes the latch. -/
theorem disciplined_kept {a : ActionArgs} {kind : ActionKind} {ctx : BindingContext}
    {state : AppState} {s : SharedStore} (hsession : state.session.IsReachable)
    (htarget : state.target = .root s)
    (hnone : state.session.latch.submitting = true ∨ ¬ ∃ body, a.requestBody ctx kind = .ok body)
    (answer : Except BindingError ActionOutcome) :
    a.Disciplined kind ctx state s (answer, state) where
  held _ := rfl
  freed := hsession.latch_eq_of_free
  sent_once := Or.inl rfl
  sent_iff := by
    refine iff_of_false not_exists_append_singleton ?_
    rintro ⟨hfree, hbody, -⟩
    rcases hnone with hheld | hnobody
    · rw [hfree] at hheld
      cases hheld
    · exact hnobody hbody
  store := ⟨s, htarget, fun _ => rfl⟩

/-- **Network actions are disciplined.** From any state that tasks can bring a session into, and
whatever the arguments, the context and the answer of the server are: while the latch is held an action
sends nothing and changes nothing; otherwise it leaves the latch free and the silent flag clear. It
sends at most one request, and it sends one if and only if the latch was free and the payload and the
URL could be evaluated, the latter to a text that is not empty. Only if it answers that data was
updated is the store another one. -/
theorem action_disciplined (a : ActionArgs) (kind : ActionKind) (engine : Engine)
    (ctx : BindingContext) {state : AppState} {s : SharedStore}
    (hsession : state.session.IsReachable) (htarget : state.target = .root s) :
    a.Disciplined kind ctx state s (a.perform kind engine ctx state) := by
  obtain ⟨method, silent, hperform⟩ := a.perform_eq kind engine ctx state
  rw [hperform]
  cases hbody : a.requestBody ctx kind with
  | error error => exact disciplined_kept hsession htarget (Or.inr (by simp [hbody])) _
  | ok body =>
    dsimp only
    unfold execute
    cases hbegin : state.session.latch.begin? silent with
    | none =>
      have hheld : state.session.latch.submitting = true := by
        simpa [Latch.begin?_eq, Latch.take?] using hbegin
      exact disciplined_kept hsession htarget (Or.inl hheld) _
    | some taken =>
      obtain ⟨guard, latch⟩ := taken
      have hfree : state.session.latch.submitting = false := by
        cases hheld : state.session.latch.submitting with
        | false => rfl
        | true => simp [Latch.begin?_eq, Latch.take?, hheld] at hbegin
      have htaken : (state.withLatch latch).target = .root s := htarget
      have hexchanged := a.exchange_spec engine method body ctx htaken
      dsimp only
      generalize a.exchange engine method body ctx (state.withLatch latch) = exchanged
        at hexchanged
      have hlatch : exchanged.2.session.latch.finish guard = {} := by
        rw [hexchanged.session]
        exact hsession.finish_eq hbegin
      refine ⟨fun hheld => ?_, fun _ => hlatch, ?_, ?_, hexchanged.store⟩
      · rw [hfree] at hheld
        cases hheld
      · exact hexchanged.sent.elim (fun h => Or.inr h.2) (fun h => Or.inl h.2)
      · rcases hexchanged.sent with ⟨hurl, hsent⟩ | ⟨hnourl, hsent⟩
        · exact iff_of_true hsent ⟨hfree, ⟨body, hbody⟩, hurl⟩
        · refine iff_of_false ?_ fun h => hnourl h.2.2
          change exchanged.2.sent = state.sent at hsent
          change ¬ ∃ request, exchanged.2.sent = state.sent ++ [request]
          rw [hsent]
          exact not_exists_append_singleton

/-- A silent submission that the server does not answer. -/
theorem action_disciplined_without_answer :
    let state : AppState := { target := .root { store := .empty } }
    let a : ActionArgs := { url := some (.string "/save"), submitSilently := some true }
    let engine : Engine := { transport := fun _ => .error (.transport "no answer") }
    state.session.IsReachable ∧
      a.Disciplined .submit (.ofGlobal Store.empty.scope) state { store := .empty }
        (a.perform .submit engine (.ofGlobal Store.empty.scope) state) := by
  intro state a engine
  have hsession : state.session.IsReachable :=
    ⟨{ copies := [{}] }, .new, List.mem_singleton.mpr rfl⟩
  exact ⟨hsession, a.action_disciplined .submit engine _ hsession rfl⟩

end ActionArgs

end DataBinding
