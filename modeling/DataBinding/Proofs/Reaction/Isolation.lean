import DataBinding.Mapping
import DataBinding.Proofs.Nested.Projection
import DataBinding.Reaction

/-!
# Reactions fail alone

Whether a reaction fails at a root store is settled before anything is written: by its payload, by
its path, and by the root segment of the store, which no write changes. What a reaction that fails
leaves behind is the store that it found. Reactions that fail are therefore as good as not there.

* `SharedStore.root?`: all that a store tells about where it is.
* `Reaction.failure?`: the error of a reaction, told without looking at any data of the store.
* `Reaction.apply_spec`: how one reaction ends.
* `reactions_fail_alone`: any number of them.
-/

namespace DataBinding

/-! ## Where a store is -/

namespace SharedStore

/-- The root segment of a store, which a poisoned one does not tell. -/
def root? (s : SharedStore) : Except StoreError String := s.scope.map Scope.path

variable {s after : SharedStore} {path : String} {value : Option Json} {mode : UpdateMode}

theorem root?_of_open (h : s.poisoned = false) : s.root? = .ok s.store.settings.rootSegment := by
  rw [root?, scope_of_open h]
  rfl

theorem root?_of_poisoned (h : s.poisoned = true) : s.root? = .error .poisoned := by
  rw [root?, scope, access, h]
  rfl

theorem Follows.root?_eq (h : after.Follows s) : after.root? = s.root? := by
  cases hpoisoned : s.poisoned with
  | true => rw [root?_of_poisoned hpoisoned, root?_of_poisoned (h.poisoned.trans hpoisoned)]
  | false =>
    rw [root?_of_open hpoisoned, root?_of_open (h.poisoned.trans hpoisoned), h.settings]

/-- A path that is not below the root segment is refused, as everything is by a poisoned store. -/
theorem updateAbsolute_of_refused {error : StoreError}
    (h : s.root?.bind (relativeToRoot path) = .error error) :
    s.updateAbsolute path value mode = (.error error, s) := by
  cases hpoisoned : s.poisoned with
  | true =>
    rw [root?_of_poisoned hpoisoned] at h
    cases h
    rw [updateAbsolute, run, access, hpoisoned]
    rfl
  | false =>
    rw [root?_of_open hpoisoned] at h
    change relativeToRoot path s.store.settings.rootSegment = .error error at h
    unfold updateAbsolute Store.updateAbsolute
    rw [run_of_open hpoisoned, h]

/-- Every other path is accepted. -/
theorem updateAbsolute_of_accepted {relative : Option String}
    (h : s.root?.bind (relativeToRoot path) = .ok relative) :
    ∃ outcome after, s.updateAbsolute path value mode = (.ok outcome, after) ∧
      after.Follows s := by
  cases hpoisoned : s.poisoned with
  | true =>
    rw [root?_of_poisoned hpoisoned] at h
    cases h
  | false =>
    rw [root?_of_open hpoisoned] at h
    obtain ⟨outcome, after, hcall, hfollows, -⟩ :=
      updateAbsolute_of_open hpoisoned h value mode
    exact ⟨outcome, after, hcall, hfollows⟩

end SharedStore

/-! ## One reaction -/

namespace Reaction

/-- The write of a reaction, or the error that keeps it from one. The target has no part in it. -/
def planned (r : Reaction) (ctx : BindingContext) (evaluator : Evaluator) :
    Except BindingError (Option PlannedWrite) :=
  match r.plan ctx evaluator with
  | .error error => .error error
  | .ok (none, _) => .ok none
  | .ok (some location, value, mode) =>
    match ctx.resolvePath location with
    | .error error => .error (.reference error)
    | .ok path => .ok (some { path, value, mode })

/-- The error with which a reaction fails at a store that tells `root` about itself. -/
def failure? (r : Reaction) (ctx : BindingContext) (evaluator : Evaluator)
    (root : Except StoreError String) : Option BindingError :=
  match r.planned ctx evaluator with
  | .error error => some error
  | .ok none => none
  | .ok (some write) =>
    match root.bind (relativeToRoot write.path) with
    | .error error => some (.store error)
    | .ok _ => none

variable {r : Reaction} {ctx : BindingContext} {evaluator : Evaluator} {s : SharedStore}

theorem apply_eq (target : Target) :
    r.apply ctx evaluator target =
      match r.planned ctx evaluator with
      | .error error => (.error error, target)
      | .ok none => (.ok .unchanged, target)
      | .ok (some write) =>
        (liftStore (target.updateAbsolute write.path write.value write.mode).1,
          (target.updateAbsolute write.path write.value write.mode).2) := by
  unfold apply planned
  cases r.plan ctx evaluator with
  | error error => rfl
  | ok plan =>
    obtain ⟨location, value, mode⟩ := plan
    cases location with
    | none => rfl
    | some location =>
      dsimp only [write]
      cases ctx.resolvePath location <;> rfl

/-- A reaction that fails leaves the store as it found it. -/
theorem apply_of_failure {error : BindingError}
    (h : r.failure? ctx evaluator s.root? = some error) :
    r.apply ctx evaluator (.root s) = (.error error, .root s) := by
  rw [apply_eq]
  unfold failure? at h
  split at h
  · cases h
    rfl
  · cases h
  · split at h
    · rename_i hrefused
      cases h
      rw [Target.updateAbsolute, SharedStore.updateAbsolute_of_refused hrefused]
      rfl
    · cases h

/-- A reaction that does not fail leaves the store where it was. -/
theorem apply_of_no_failure (h : r.failure? ctx evaluator s.root? = none) :
    ∃ outcome after, r.apply ctx evaluator (.root s) = (.ok outcome, .root after) ∧
      after.Follows s := by
  rw [apply_eq]
  unfold failure? at h
  split at h
  · cases h
  · exact ⟨.unchanged, s, rfl, .rfl⟩
  · split at h
    · cases h
    · rename_i haccepted
      obtain ⟨outcome, after, hcall, hfollows⟩ :=
        SharedStore.updateAbsolute_of_accepted haccepted
      rw [Target.updateAbsolute, hcall]
      exact ⟨outcome, after, rfl, hfollows⟩

/-- How a reaction ends at a root store. -/
theorem apply_spec (r : Reaction) (ctx : BindingContext) (evaluator : Evaluator)
    (s : SharedStore) :
    ∃ outcome after, r.apply ctx evaluator (.root s) = (outcome, .root after) ∧
      after.Follows s ∧
      ∀ error, (outcome = .error error ↔ r.failure? ctx evaluator s.root? = some error) ∧
        (outcome = .error error → after = s) := by
  cases hfailure : r.failure? ctx evaluator s.root? with
  | some failure =>
    refine ⟨_, s, apply_of_failure hfailure, .rfl, fun error => ⟨?_, fun _ => rfl⟩⟩
    rw [Except.error.injEq, Option.some.injEq]
  | none =>
    obtain ⟨outcome, after, hcall, hfollows⟩ := apply_of_no_failure hfailure
    exact ⟨_, after, hcall, hfollows, fun error => ⟨by simp, fun h => by cases h⟩⟩

end Reaction

/-! ## Several reactions -/

section

variable {ctx : BindingContext} {evaluator : Evaluator}

theorem dispatchReactions_cons (r : Reaction) (reactions : List Reaction) (target : Target) :
    dispatchReactions ctx evaluator (r :: reactions) target =
      ((r.apply ctx evaluator target).1 ::
          (dispatchReactions ctx evaluator reactions (r.apply ctx evaluator target).2).1,
        (dispatchReactions ctx evaluator reactions (r.apply ctx evaluator target).2).2) :=
  rfl

theorem dispatchReactions_append (front back : List Reaction) (target : Target) :
    dispatchReactions ctx evaluator (front ++ back) target =
      ((dispatchReactions ctx evaluator front target).1 ++
          (dispatchReactions ctx evaluator back (dispatchReactions ctx evaluator front target).2).1,
        (dispatchReactions ctx evaluator back
          (dispatchReactions ctx evaluator front target).2).2) := by
  induction front generalizing target with
  | nil => rfl
  | cons r front ih =>
    rw [List.cons_append, dispatchReactions_cons, dispatchReactions_cons, ih, List.cons_append]

/-- Every reaction is answered, and the store is where it was. -/
theorem dispatchReactions_root (ctx : BindingContext) (evaluator : Evaluator)
    (reactions : List Reaction) (s : SharedStore) :
    ∃ outcomes after,
      dispatchReactions ctx evaluator reactions (.root s) = (outcomes, .root after) ∧
        outcomes.length = reactions.length ∧ after.Follows s := by
  induction reactions generalizing s with
  | nil => exact ⟨[], s, rfl, rfl, .rfl⟩
  | cons r reactions ih =>
    obtain ⟨outcome, next, hfirst, hnext, -⟩ := r.apply_spec ctx evaluator s
    obtain ⟨outcomes, after, hrest, hlength, hafter⟩ := ih next
    refine ⟨outcome :: outcomes, after, ?_, congrArg (· + 1) hlength, hafter.trans hnext⟩
    rw [dispatchReactions_cons, hfirst, hrest]

/-- Reactions that fail can be left out. -/
theorem dispatchReactions_survivors {reactions : List Reaction} {s after : SharedStore}
    {outcomes : List (Except BindingError UpdateOutcome)}
    (h : dispatchReactions ctx evaluator reactions (.root s) = (outcomes, .root after)) :
    dispatchReactions ctx evaluator
        (((reactions.zip outcomes).filter (·.2.isOk)).map Prod.fst) (.root s) =
      (((reactions.zip outcomes).filter (·.2.isOk)).map Prod.snd, .root after) := by
  induction reactions generalizing s outcomes with
  | nil =>
    cases h
    rfl
  | cons r reactions ih =>
    obtain ⟨outcome, next, hfirst, -, hfailure⟩ := r.apply_spec ctx evaluator s
    rw [dispatchReactions_cons, hfirst] at h
    cases hrest : dispatchReactions ctx evaluator reactions (.root next) with
    | mk others last =>
      rw [hrest] at h
      cases h
      cases outcome with
      | error error =>
        -- the store is the one that the others find in either run
        rw [(hfailure error).2 rfl] at hrest
        exact ih hrest
      | ok outcome =>
        rw [List.zip_cons_cons, List.filter_cons_of_pos rfl, List.map_cons, List.map_cons,
          dispatchReactions_cons, hfirst, ih hrest]

end

/-- Reactions fail alone. Each gets an answer. One that fails leaves the store as it found it, and
its error can be told in advance: it depends on the reaction, the context, the evaluator and the root
segment of the store, and so neither on its position nor on what others wrote. Without those that
fail, the others end in the same store with the same answers. -/
theorem reactions_fail_alone (ctx : BindingContext) (evaluator : Evaluator)
    (reactions : List Reaction) (s : SharedStore) :
    ∃ outcomes after,
      dispatchReactions ctx evaluator reactions (.root s) = (outcomes, .root after) ∧
      outcomes.length = reactions.length ∧
      (∀ front r back, reactions = front ++ r :: back →
        ∃ found outcome left,
          dispatchReactions ctx evaluator front (.root s) =
            (outcomes.take front.length, .root found) ∧
          outcomes[front.length]? = some outcome ∧
          r.apply ctx evaluator (.root found) = (outcome, .root left) ∧
          ∀ error, (outcome = .error error ↔ r.failure? ctx evaluator s.root? = some error) ∧
            (outcome = .error error → left = found)) ∧
      dispatchReactions ctx evaluator
          (((reactions.zip outcomes).filter (·.2.isOk)).map Prod.fst) (.root s) =
        (((reactions.zip outcomes).filter (·.2.isOk)).map Prod.snd, .root after) := by
  obtain ⟨outcomes, after, hrun, hlength, -⟩ :=
    dispatchReactions_root ctx evaluator reactions s
  refine ⟨outcomes, after, hrun, hlength, ?_, dispatchReactions_survivors hrun⟩
  rintro front r back rfl
  obtain ⟨before, found, hfront, hbefore, hfound⟩ := dispatchReactions_root ctx evaluator front s
  obtain ⟨outcome, left, hcall, -, hfailure⟩ := r.apply_spec ctx evaluator found
  rw [hfound.root?_eq] at hfailure
  rw [dispatchReactions_append, hfront, dispatchReactions_cons, hcall] at hrun
  obtain ⟨rfl, -⟩ := Prod.mk.inj hrun
  refine ⟨found, outcome, left, ?_, ?_, hcall, hfailure⟩
  · rw [hfront, ← hbefore, List.take_left]
  · rw [← hbefore, List.getElem?_append_right (Nat.le_refl _), Nat.sub_self]
    rfl

/-- A deletion, with one reaction before it that goes past the store and one after it that looks for
an ancestor in vain. -/
theorem reactions_fail_alone_around_deletion :
    let s : SharedStore := { store := { tree := .object [("name", .null)] } }
    let ctx := BindingContext.ofGlobal s.store.scope
    let outside := Reaction.removeData (some "other")
    let deletion := Reaction.setData (some "data.name") none
    let lost := Reaction.removeData (some "~>row")
    let failure := BindingError.reference (.ancestorNotFound "row" "data")
    ∃ found after,
      dispatchReactions ctx {} [outside, deletion, lost] (.root s) =
        ([.error (.store (.outsideRoot "other" "data")), .ok .applied, .error failure],
          .root after) ∧
      (dispatchReactions ctx {} [outside, deletion] (.root s)).2 = .root found ∧
      lost.failure? ctx {} s.root? = some failure ∧
      lost.apply ctx {} (.root found) = (.error failure, .root found) ∧
      dispatchReactions ctx {} [deletion] (.root s) = ([.ok .applied], .root after) := by
  have hanswers : (dispatchReactions (.ofGlobal ⟨.object [("name", .null)], "data"⟩) {}
      [.removeData (some "other"), .setData (some "data.name") none,
        .removeData (some "~>row")]
      (.root { store := { tree := .object [("name", .null)] } })).1 =
        [.error (.store (.outsideRoot "other" "data")), .ok .applied,
          .error (.reference (.ancestorNotFound "row" "data"))] := by rfl
  intro s ctx outside deletion lost failure
  obtain ⟨outcomes, after, hrun, -, hsplit, hsurvivors⟩ :=
    reactions_fail_alone ctx {} [outside, deletion, lost] s
  obtain rfl := (congrArg Prod.fst hrun).symm.trans hanswers
  obtain ⟨found, outcome, left, hfront, hanswer, hcall, hfailure⟩ :=
    hsplit [outside, deletion] lost [] rfl
  obtain rfl : .error failure = outcome := Option.some.inj hanswer
  obtain ⟨hforeseen, hkept⟩ := hfailure failure
  obtain rfl : left = found := hkept rfl
  exact ⟨left, after, hrun, congrArg Prod.snd hfront, hforeseen.mp rfl, hcall, hsurvivors⟩

end DataBinding
