import Mathlib.Data.List.Basic
import DataBinding.Network

/-!
# One submission at a time

All copies of a session share one latch, and the tasks that use them change it in single steps, which
may come in any order: to begin takes the latch and then sets the silent flag, to end clears the flag
and then frees the latch. A flag that is not asked for is neither set nor cleared. So the flag of a
submission is seen by others only as long as it runs, and none of the next one can show before.

* `SharedSession.Step`: the single steps; `Latch.begin?` and `Latch.finish` are two of them each.
* `SharedSession.IsExclusive`: what both flags are at every moment, by the one submission there may be.
* `isExclusive_of_step`, `Reachable.isExclusive`: a step keeps it, and so does every run.
* `submissions_exclusive`: the latch lets one submission in, and the silent flag is that of the holder.
-/

namespace DataBinding

/-! ## Steps of a latch -/

namespace Latch

/-- The flag is set if the submission says anything about it. -/
def announce (l : Latch) (silent : Option Bool) : Latch := silent.elim l l.setSilent

/-- The flag is cleared if it was set. -/
def clear (l : Latch) (guard : Guard) : Latch := if guard.clearsSilent then l.setSilent false else l

/-- To begin is to take the latch and to announce the flag. -/
theorem begin?_eq (l : Latch) (silent : Option Bool) :
    l.begin? silent = l.take?.map fun taken => (⟨silent.isSome⟩, taken.announce silent) := by
  unfold begin?
  cases l.take? with
  | none => rfl
  | some taken => cases silent <;> rfl

theorem finish_eq (l : Latch) (guard : Guard) : l.finish guard = (l.clear guard).free := rfl

end Latch

/-! ## Shared sessions -/

/-- How far a submission has come. -/
inductive Stage where
  /-- It has taken the latch and not yet set the silent flag. -/
  | beginning
  /-- It has returned from the beginning, and its guard is held. -/
  | running
  /-- Its guard has cleared the silent flag and not yet freed the latch. -/
  | ending
  deriving DecidableEq

/-- A submission from the moment it has taken the latch. -/
structure Submission where
  task : Nat
  silent : Option Bool
  stage : Stage

namespace Submission

def guard (s : Submission) : Guard := ⟨s.silent.isSome⟩

/-- Whether the silent flag is set for this submission. -/
def isSilent (s : Submission) : Bool := s.stage = .running ∧ s.silent = some true

end Submission

/-- A session as tasks share it: the headers of each copy, the latch of all copies, and the submissions
that have taken the latch and not yet freed it. -/
structure SharedSession where
  copies : List Headers
  latch : Latch := {}
  submissions : List Submission := []

namespace SharedSession

/-- The copies of the session, as they are seen by their tasks. -/
def sessions (s : SharedSession) : List Session := s.copies.map fun headers => ⟨headers, s.latch⟩

/-- The session with the latch changed by one of its submissions. -/
def advance (s : SharedSession) (latch : Latch) (submissions : List Submission) : SharedSession :=
  { s with latch, submissions }

/-- The single steps of the tasks. The submission that makes a step is found in the list of all. -/
inductive Step : SharedSession → SharedSession → Prop where
  /-- A session is copied, possibly with one more header. -/
  | copy {s : SharedSession} {session next : Session} (h : session ∈ s.sessions)
      (hnext : next = session ∨ ∃ name value, next = session.withHeader name value) :
      Step s { s with copies := s.copies ++ [next.headers] }
  /-- A task finds the latch taken and gives up. -/
  | refuse {s : SharedSession} (h : s.latch.take? = none) : Step s s
  /-- A task takes the latch. -/
  | take {s : SharedSession} {latch : Latch} (task : Nat) (silent : Option Bool)
      (h : s.latch.take? = some latch) :
      Step s (s.advance latch (s.submissions ++ [⟨task, silent, .beginning⟩]))
  /-- It sets the silent flag if it was asked to, and returns from the beginning. -/
  | announce {s : SharedSession} {front back : List Submission} {task : Nat}
      {silent : Option Bool} (h : s.submissions = front ++ ⟨task, silent, .beginning⟩ :: back) :
      Step s (s.advance (s.latch.announce silent) (front ++ ⟨task, silent, .running⟩ :: back))
  /-- A guard begins to drop and clears the silent flag if it was set. -/
  | clear {s : SharedSession} {front back : List Submission} {task : Nat} {silent : Option Bool}
      (h : s.submissions = front ++ ⟨task, silent, .running⟩ :: back) :
      Step s (s.advance (s.latch.clear (Submission.guard ⟨task, silent, .running⟩))
        (front ++ ⟨task, silent, .ending⟩ :: back))
  /-- It frees the latch. -/
  | free {s : SharedSession} {front back : List Submission} {task : Nat} {silent : Option Bool}
      (h : s.submissions = front ++ ⟨task, silent, .ending⟩ :: back) :
      Step s (s.advance s.latch.free (front ++ back))

/-- The states that the tasks can bring about from a new session. -/
inductive Reachable : SharedSession → Prop where
  | new : Reachable { copies := [{}] }
  | step {s s' : SharedSession} (h : Reachable s) (hstep : Step s s') : Reachable s'

/-! ## The invariant -/

/-- At most one submission is under way. The latch is taken if and only if there is one, and the silent
flag is the flag of this one. -/
structure IsExclusive (s : SharedSession) : Prop where
  alone : s.submissions.length ≤ 1
  latch : s.latch =
    { submitting := !s.submissions.isEmpty, silent := s.submissions.any Submission.isSilent }

variable {s s' : SharedSession}

/-- A latch that can be taken has no submission. -/
theorem IsExclusive.of_take (h : s.IsExclusive) {latch : Latch}
    (htake : s.latch.take? = some latch) :
    s.submissions = [] ∧ latch = { submitting := true, silent := false } := by
  have hnone : s.submissions = [] := by
    by_contra hne
    have htaken : s.latch.submitting = true := by
      rw [h.latch]
      simpa using hne
    rw [Latch.take?, if_pos htaken] at htake
    cases htake
  refine ⟨hnone, ?_⟩
  rw [h.latch, hnone] at htake
  exact (Option.some.inj htake).symm

/-- A submission under way is the only one. -/
theorem IsExclusive.of_mem (h : s.IsExclusive) {front back : List Submission}
    {submission : Submission} (hsubmissions : s.submissions = front ++ submission :: back) :
    front = [] ∧ back = [] ∧
      s.latch = { submitting := true, silent := submission.isSilent } := by
  have hlength := h.alone
  rw [hsubmissions, List.length_append, List.length_cons] at hlength
  have hfront : front = [] := List.length_eq_zero_iff.mp (by omega)
  have hback : back = [] := List.length_eq_zero_iff.mp (by omega)
  subst hfront hback
  refine ⟨rfl, rfl, ?_⟩
  rw [h.latch, hsubmissions]
  simp

/-- The state with one submission and the flags that it asks for. -/
theorem isExclusive_advance (s : SharedSession) (submission : Submission) :
    (s.advance ⟨true, submission.isSilent⟩ [submission]).IsExclusive := by
  constructor
  · exact Nat.le_refl 1
  · simp [advance]

/-- Every step keeps the invariant: who may take the latch is alone afterwards, and who holds it was
alone before. -/
theorem isExclusive_of_step (h : s.IsExclusive) (hstep : Step s s') : s'.IsExclusive := by
  cases hstep with
  | copy _ _ => exact ⟨h.alone, h.latch⟩
  | refuse _ => exact h
  | take task silent htake =>
    obtain ⟨hnone, rfl⟩ := h.of_take htake
    rw [hnone]
    exact s.isExclusive_advance ⟨task, silent, .beginning⟩
  | @announce front back task silent hsubmissions =>
    obtain ⟨rfl, rfl, hlatch⟩ := h.of_mem hsubmissions
    -- The flag was not set so far, as the submission before has cleared it.
    have hannounced : s.latch.announce silent =
        ⟨true, Submission.isSilent ⟨task, silent, .running⟩⟩ := by
      rw [hlatch]
      rcases silent with _ | _ | _ <;> rfl
    rw [hannounced]
    exact s.isExclusive_advance ⟨task, silent, .running⟩
  | @clear front back task silent hsubmissions =>
    obtain ⟨rfl, rfl, hlatch⟩ := h.of_mem hsubmissions
    have hcleared : s.latch.clear (Submission.guard ⟨task, silent, .running⟩) =
        ⟨true, Submission.isSilent ⟨task, silent, .ending⟩⟩ := by
      rw [hlatch]
      rcases silent with _ | _ | _ <;> rfl
    rw [hcleared]
    exact s.isExclusive_advance ⟨task, silent, .ending⟩
  | @free front back task silent hsubmissions =>
    obtain ⟨rfl, rfl, hlatch⟩ := h.of_mem hsubmissions
    rw [hlatch]
    exact ⟨Nat.zero_le 1, rfl⟩

theorem Reachable.isExclusive (h : s.Reachable) : s.IsExclusive := by
  induction h with
  | new => exact ⟨Nat.zero_le 1, rfl⟩
  | step _ hstep ih => exact isExclusive_of_step ih hstep

/-! ## Steps without a pause -/

/-- To begin at once is to take the latch and to announce the flag. -/
theorem Reachable.begin (h : s.Reachable) {silent : Option Bool} {guard : Guard} {latch : Latch}
    (hbegin : s.latch.begin? silent = some (guard, latch)) (task : Nat) :
    guard = ⟨silent.isSome⟩ ∧ (s.advance latch [⟨task, silent, .running⟩]).Reachable := by
  rw [Latch.begin?_eq] at hbegin
  obtain ⟨taken, htake, hguard⟩ := Option.map_eq_some_iff.mp hbegin
  obtain ⟨hnone, -⟩ := h.isExclusive.of_take htake
  obtain ⟨rfl, rfl⟩ := Prod.mk.inj hguard
  have htaken := h.step (.take task silent htake)
  rw [hnone] at htaken
  exact ⟨rfl, htaken.step (@Step.announce _ [] [] task silent rfl)⟩

/-- To finish at once is to clear the flag and to free the latch. -/
theorem Reachable.finish {task : Nat} {silent : Option Bool}
    (h : s.Reachable) (hsubmissions : s.submissions = [⟨task, silent, .running⟩]) :
    (s.advance (s.latch.finish ⟨silent.isSome⟩) []).Reachable := by
  rw [Latch.finish_eq]
  have hcleared := h.step (@Step.clear _ [] [] task silent hsubmissions)
  exact hcleared.step (@Step.free _ [] [] task silent rfl)

/-- **The latch is exclusive, and the silent flag follows its holder.** Whatever steps the tasks have
made so far, in whatever order, at most one submission has taken the latch and not yet freed it. To
every copy of the session the latch looks taken if and only if there is one, the silent flag is clear
if there is none, and from the return of the beginning until the guard begins to drop the flag is set
if and only if the submission was begun as a silent one. -/
theorem submissions_exclusive (h : s.Reachable) :
    s.submissions.length ≤ 1 ∧ ∀ session ∈ s.sessions,
      (session.latch.submitting = true ↔ s.submissions ≠ []) ∧
      (s.submissions = [] → session.latch.silent = false) ∧
      ∀ submission ∈ s.submissions, submission.stage = .running →
        (session.latch.silent = true ↔ submission.silent = some true) := by
  have hexclusive := h.isExclusive
  refine ⟨hexclusive.alone, fun session hsession => ?_⟩
  obtain ⟨headers, -, rfl⟩ := List.mem_map.mp hsession
  refine ⟨?_, ?_, ?_⟩
  · rw [hexclusive.latch]
    simp
  · intro hnone
    rw [hexclusive.latch, hnone]
    rfl
  · intro submission hsubmission hrunning
    obtain ⟨front, back, hsubmissions⟩ := List.append_of_mem hsubmission
    obtain ⟨-, -, hlatch⟩ := hexclusive.of_mem hsubmissions
    rw [hlatch]
    simp [Submission.isSilent, hrunning]

/-- A silent submission is running when a task with another copy of the session is refused. -/
theorem submissions_exclusive_while_silent :
    let s : SharedSession :=
      { copies := [{}, ⟨[("Authorization", "token")]⟩], latch := ⟨true, true⟩
        submissions := [⟨1, some true, .running⟩] }
    s.Reachable ∧ s.latch.begin? none = none ∧ s.submissions.length ≤ 1 ∧
      ∀ session ∈ s.sessions,
        (session.latch.submitting = true ↔ s.submissions ≠ []) ∧
        (s.submissions = [] → session.latch.silent = false) ∧
        ∀ submission ∈ s.submissions, submission.stage = .running →
          (session.latch.silent = true ↔ submission.silent = some true) := by
  intro s
  have hcopied : Reachable { copies := [{}, ⟨[("Authorization", "token")]⟩] } :=
    Reachable.new.step (@Step.copy _ {} _ (List.mem_singleton.mpr rfl)
      (Or.inr ⟨"Authorization", "token", rfl⟩))
  have hbegin : Latch.begin? {} (some true) = some (⟨true⟩, ⟨true, true⟩) := rfl
  have hrunning : s.Reachable := (hcopied.begin hbegin 1).2
  have hrefused : s.Reachable := hrunning.step (.refuse rfl)
  exact ⟨hrefused, rfl, submissions_exclusive hrefused⟩

end SharedSession

end DataBinding
