import Mathlib.Data.List.DropRight
import DataBinding.Proofs.Store.Revision

/-!
# The revision counts updates

A revision is 0 in a new store and after the tree was replaced as a whole, and each effective update
below the root moves it on. So a revision tells how many such updates there were since, as far as the
wrap lets it: after the largest revision comes 1 and never 0. What subscribers see last is the revision
itself, since whatever sets it also publishes it.

* `Store.Performed`: all that a call can do to a store; `performed_perform` says that it is all.
* `Store.performAll`: a run of calls with its log; `effectiveUpdates` counts in a log.
* `Store.HasCounted`: the revision after a number of updates; `Performed.hasCounted` is what a call makes
  of it, `hasCounted_performAll` what a run does.
* `Store.revision_closed_form`: the revision and the channel after any run, and what a further call
  changes about them.
-/

namespace DataBinding

/-! ## Revisions by number -/

namespace StoreSettings

theorem wrap_lt_size (s : StoreSettings) : s.wrap < UInt64.size := by
  have hwrap : s.revisionWrap.toNat < UInt64.size := s.revisionWrap.toNat_lt_size
  have hsize : 3 < UInt64.size := by decide
  unfold wrap
  omega

/-- The revision after a number of updates. -/
def revisionAfter (s : StoreSettings) (updates : Nat) : Nat :=
  if updates = 0 then 0 else (updates - 1) % (s.wrap - 1) + 1

theorem revisionAfter_lt_wrap (s : StoreSettings) (updates : Nat) :
    s.revisionAfter updates < s.wrap := by
  have hwrap := s.three_le_wrap
  unfold revisionAfter
  split
  · omega
  · have hmod : (updates - 1) % (s.wrap - 1) < s.wrap - 1 := Nat.mod_lt _ (by omega)
    omega

theorem revisionAfter_eq_zero_iff (s : StoreSettings) (updates : Nat) :
    s.revisionAfter updates = 0 ↔ updates = 0 := by
  unfold revisionAfter
  split <;> simp_all

/-- One more update moves the revision on. From 0 to 1 it does so without the wrap. -/
theorem nextRevision_revisionAfter (s : StoreSettings) (updates : Nat) :
    s.nextRevision (s.revisionAfter updates) = s.revisionAfter (updates + 1) := by
  rw [nextRevision_eq, revisionAfter, revisionAfter, if_neg (Nat.succ_ne_zero updates),
    Nat.add_sub_cancel]
  split
  · rename_i hnone
    rw [hnone]
  · rw [Nat.mod_add_mod, Nat.sub_add_cancel (by omega)]

end StoreSettings

namespace Store

/-! ## Calls -/

/-- Whether a call replaces the tree as a whole. -/
def Call.isReplacement (root : String) : Call → Bool
  | .replace _ => true
  | .updateAbsolute path (some _) .replace => path = root
  | _ => false

/-- All that a call can do to a store. -/
inductive Performed (s : Store) (call : Call) : Except StoreError UpdateOutcome × Store → Prop where
  | replaced (tree : Json) (hcall : call.isReplacement s.settings.rootSegment = true) :
      Performed s call (.ok .applied, s.replace tree)
  | advanced (tree : Json) (hcall : call.isReplacement s.settings.rootSegment = false) :
      Performed s call (.ok .applied, s.advance tree)
  | kept {answer : Except StoreError UpdateOutcome}
      (hcall : call.isReplacement s.settings.rootSegment = false)
      (hanswer : answer ≠ .ok .applied) : Performed s call (answer, s)

theorem performed_updatePath {s : Store} {call : Call}
    (hcall : call.isReplacement s.settings.rootSegment = false) (path : DataPath)
    (value : Option Json) (mode : UpdateMode) :
    s.Performed call (.ok (s.updatePath path value mode).1, (s.updatePath path value mode).2) := by
  unfold updatePath
  cases s.tree.update? path value mode with
  | some tree => exact .advanced tree hcall
  | none => exact .kept hcall (by simp)

theorem Call.isReplacement_of_ne {path root : String} (h : path ≠ root) (value : Option Json)
    (mode : UpdateMode) : (Call.updateAbsolute path value mode).isReplacement root = false := by
  unfold isReplacement
  split
  · contradiction
  · rename_i hcall
    cases hcall
    exact decide_eq_false h
  · rfl

/-- A call replaces the tree, moves the revision on with another tree, or leaves the store alone. -/
theorem performed_perform (s : Store) (call : Call) : s.Performed call (s.perform call) := by
  cases call with
  | update path value mode => exact performed_updatePath rfl (.ofText path) value mode
  | updatePath path value mode => exact performed_updatePath rfl path value mode
  | set path value => exact performed_updatePath rfl (.ofText path) (some value) .replace
  | replace tree => exact .replaced tree rfl
  | updateAbsolute path value mode =>
    change s.Performed _ (s.updateAbsolute path value mode)
    unfold updateAbsolute
    by_cases hpath : path = s.settings.rootSegment
    · rw [relativeToRoot, if_pos hpath]
      cases value with
      | none => cases mode <;> exact .kept rfl (by simp)
      | some tree =>
        cases mode with
        | replace => exact .replaced tree (decide_eq_true hpath)
        | _ => exact .kept rfl (by simp)
    · have hcall := Call.isReplacement_of_ne hpath value mode
      cases hrelative : relativeToRoot path s.settings.rootSegment with
      | error error => exact .kept hcall (by simp)
      | ok relative =>
        cases relative with
        | none => exact absurd hrelative (relativeToRoot_ne_none hpath)
        | some relative => exact performed_updatePath hcall (.ofText relative) value mode

/-! ## Runs -/

/-- A call with its answer. -/
structure Answered where
  call : Call
  answer : Except StoreError UpdateOutcome

namespace Answered

def isApplied (entry : Answered) : Bool :=
  match entry.answer with
  | .ok .applied => true
  | _ => false

theorem isApplied_iff {entry : Answered} : entry.isApplied ↔ entry.answer = .ok .applied := by
  unfold isApplied
  split <;> simp_all

/-- Whether a call was an update below the root that changed the tree. -/
def isEffectiveUpdate (root : String) (entry : Answered) : Bool :=
  !entry.call.isReplacement root && entry.isApplied

end Answered

/-- The log of a run of calls, and the store after it. -/
def performAll (s : Store) : List Call → List Answered × Store
  | [] => ([], s)
  | call :: calls =>
    let result := s.perform call
    let rest := result.2.performAll calls
    (⟨call, result.1⟩ :: rest.1, rest.2)

/-- The number of effective updates in a log since the tree was last replaced as a whole. -/
def effectiveUpdates (root : String) (log : List Answered) : Nat :=
  (log.rtakeWhile fun entry => !entry.call.isReplacement root).countP (·.isEffectiveUpdate root)

theorem performAll_concat (s : Store) (calls : List Call) (call : Call) :
    s.performAll (calls ++ [call]) =
      ((s.performAll calls).1 ++ [⟨call, ((s.performAll calls).2.perform call).1⟩],
        ((s.performAll calls).2.perform call).2) := by
  induction calls generalizing s with
  | nil => rfl
  | cons first calls ih =>
    rw [List.cons_append, performAll, performAll]
    dsimp only
    rw [ih, List.cons_append]

/-- A replacement starts the count anew. -/
theorem effectiveUpdates_concat (root : String) (log : List Answered) (entry : Answered) :
    effectiveUpdates root (log ++ [entry]) =
      if entry.call.isReplacement root then 0
      else effectiveUpdates root log + if entry.isEffectiveUpdate root then 1 else 0 := by
  unfold effectiveUpdates
  rw [List.rtakeWhile_concat]
  cases hcall : entry.call.isReplacement root with
  | true => rfl
  | false =>
    simp only [Bool.not_false, Bool.false_eq_true, if_true, if_false]
    rw [List.countP_append, List.countP_singleton]

/-! ## Counting -/

/-- The revision of a store after a number of effective updates. Subscribers see it too. -/
structure HasCounted (s : Store) (updates : Nat) : Prop where
  revision : s.revision = s.settings.revisionAfter updates
  latest : s.channel.latest = s.revision

variable {s after : Store} {call : Call} {answer : Except StoreError UpdateOutcome} {updates : Nat}

theorem Performed.settings (h : s.Performed call (answer, after)) : after.settings = s.settings := by
  cases h <;> rfl

/-- What a call makes of the count. -/
theorem Performed.hasCounted (h : s.Performed call (answer, after)) (hcounted : s.HasCounted updates) :
    after.HasCounted
      (if call.isReplacement s.settings.rootSegment then 0
        else updates +
          if Answered.isEffectiveUpdate s.settings.rootSegment ⟨call, answer⟩ then 1 else 0) := by
  cases h with
  | replaced tree hcall =>
    rw [if_pos hcall]
    exact ⟨rfl, rfl⟩
  | advanced tree hcall =>
    have heffective : Answered.isEffectiveUpdate s.settings.rootSegment ⟨call, .ok .applied⟩ := by
      simp [Answered.isEffectiveUpdate, Answered.isApplied, hcall]
    rw [if_neg (by simp [hcall]), if_pos heffective]
    refine ⟨?_, rfl⟩
    change s.settings.nextRevision s.revision = s.settings.revisionAfter (updates + 1)
    rw [hcounted.revision, StoreSettings.nextRevision_revisionAfter]
  | kept hcall hanswer =>
    have hidle : ¬ Answered.isEffectiveUpdate s.settings.rootSegment ⟨call, answer⟩ := by
      simp [Answered.isEffectiveUpdate, Answered.isApplied_iff, hanswer]
    rw [if_neg (by simp [hcall]), if_neg hidle]
    exact hcounted

/-- The count after a run is that of its log. -/
theorem hasCounted_performAll (settings : StoreSettings) (tree : Json) (calls : List Call) :
    (performAll { tree, settings } calls).2.settings = settings ∧
      (performAll { tree, settings } calls).2.HasCounted
        (effectiveUpdates settings.rootSegment (performAll { tree, settings } calls).1) := by
  induction calls using List.reverseRecOn with
  | nil => exact ⟨rfl, rfl, rfl⟩
  | append_singleton calls call ih =>
    obtain ⟨hsettings, hcounted⟩ := ih
    rw [performAll_concat]
    generalize performAll { tree, settings } calls = run at hsettings hcounted
    have hcall := run.2.performed_perform call
    have hnext := hcall.hasCounted hcounted
    rw [hsettings] at hnext
    rw [effectiveUpdates_concat]
    exact ⟨hcall.settings.trans hsettings, hnext⟩

/-- What the answer to a call says of the revision and of the channel. -/
theorem Performed.announces (h : s.Performed call (answer, after)) :
    let entry : Answered := ⟨call, answer⟩
    (entry.isEffectiveUpdate s.settings.rootSegment → after.revision ≠ s.revision) ∧
      (after.channel.isNewerThan s.channel ↔
        entry.isEffectiveUpdate s.settings.rootSegment ∨
          call.isReplacement s.settings.rootSegment) := by
  simp only [Answered.isEffectiveUpdate, Bool.and_eq_true, Answered.isApplied_iff]
  cases h with
  | replaced tree hcall =>
    exact ⟨by simp [hcall], iff_of_true (s.channel.isNewerThan_publish 0) (Or.inr hcall)⟩
  | advanced tree hcall =>
    exact ⟨fun _ => s.settings.nextRevision_ne s.revision,
      iff_of_true (s.channel.isNewerThan_publish _) (Or.inl (by simp [hcall]))⟩
  | kept hcall hanswer => simp [hcall, hanswer, Channel.isNewerThan_self]

/-- **The revision is the count of updates, wrapped.** Take a new store with any settings and any tree,
and any run of calls. Let `updates` be the number of effective updates below the root since the start,
or since the tree was last replaced as a whole. Then the revision is 0 without updates and else the
remainder of `updates - 1` and one more. So it stays below the wrap, within 64 bits, and is 0 only
without updates. The last revision published is the revision. A further call makes another revision if
it is an effective update, and publishes if and only if it is one or replaces the tree. -/
theorem revision_closed_form (settings : StoreSettings) (tree : Json) (calls : List Call) :
    let (log, s) := performAll { tree, settings } calls
    let updates := effectiveUpdates settings.rootSegment log
    let wrap := max settings.revisionWrap.toNat 3
    s.revision = (if updates = 0 then 0 else (updates - 1) % (wrap - 1) + 1) ∧
    s.revision < wrap ∧ wrap < UInt64.size ∧
    (s.revision = 0 ↔ updates = 0) ∧
    s.channel.latest = s.revision ∧
    ∀ call : Call,
      let (answer, after) := s.perform call
      let entry : Answered := ⟨call, answer⟩
      (entry.isEffectiveUpdate settings.rootSegment → after.revision ≠ s.revision) ∧
      (after.channel.isNewerThan s.channel ↔
        entry.isEffectiveUpdate settings.rootSegment ∨
          call.isReplacement settings.rootSegment) := by
  obtain ⟨hsettings, hcounted⟩ := hasCounted_performAll settings tree calls
  generalize performAll { tree, settings } calls = run at hsettings hcounted
  have hrevision := hcounted.revision
  rw [hsettings] at hrevision
  refine ⟨hrevision, ?_, settings.wrap_lt_size, ?_, hcounted.latest, fun call => ?_⟩
  · rw [hrevision]
    exact settings.revisionAfter_lt_wrap _
  · rw [hrevision]
    exact settings.revisionAfter_eq_zero_iff _
  · rw [← hsettings]
    exact (run.2.performed_perform call).announces

/-- The smallest wrap there is: the third update comes back to 1, a call without effect in between does
not count, and the next update makes another revision. -/
theorem revision_closed_form_at_wrap :
    let (log, s) := performAll { tree := .object [], settings := { revisionWrap := 0 } }
      [.set "page" (.string "a"), .set "page" (.string "b"), .set "page" (.string "b"),
        .update "page" none .replace]
    let next : Call := .updateAbsolute "data.page" (some .null) .add
    effectiveUpdates "data" log = 3 ∧ s.revision = 1 ∧
      Answered.isEffectiveUpdate "data" ⟨next, (s.perform next).1⟩ ∧
      (s.perform next).2.revision ≠ s.revision := by
  have hclosed := revision_closed_form { revisionWrap := 0 } (.object [])
    [.set "page" (.string "a"), .set "page" (.string "b"), .set "page" (.string "b"),
      .update "page" none .replace]
  exact ⟨rfl, hclosed.1, rfl,
    (hclosed.2.2.2.2.2 (.updateAbsolute "data.page" (some .null) .add)).1 rfl⟩

end Store

end DataBinding
