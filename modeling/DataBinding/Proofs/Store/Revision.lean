import DataBinding.Proofs.Reference.AbsolutePath
import DataBinding.Proofs.Update.Effect
import DataBinding.Store

/-!
# The revision moves with the tree

A store tells that its tree changed in three ways: by the outcome of the call, by its revision and by
what it publishes. For every call that sets, deletes, appends or removes below the root, all three
say exactly whether the tree is another one, and a call that says it is not leaves the store as it was.

For a move the outcome, the revision and the channel still agree with each other, but not with the
tree: a move over equal elements is published although the tree is as before.

* `StoreSettings.nextRevision_ne`: the counter never stands still, however small its wrap is.
* `Store.perform_movesWithTree`: the agreement for all calls that are no move.
* `Store.updatePath_move_iff`: when a move is published, and when it leaves an equal tree.
-/

namespace DataBinding

/-! ## The wrap -/

namespace StoreSettings

/-- The wrap of the revisions of a store, small ones raised to the smallest that works. -/
def wrap (s : StoreSettings) : Nat := max s.revisionWrap.toNat 3

theorem three_le_wrap (s : StoreSettings) : 3 ≤ s.wrap := Nat.le_max_right _ _

theorem toNat_max_minRevisionWrap (s : StoreSettings) :
    (max s.revisionWrap minRevisionWrap).toNat = s.wrap := by
  have hmin : minRevisionWrap.toNat = 3 := rfl
  have hmax : max s.revisionWrap minRevisionWrap =
      if s.revisionWrap ≤ minRevisionWrap then minRevisionWrap else s.revisionWrap := rfl
  rw [hmax, wrap]
  split
  · rename_i hsmall
    rw [UInt64.le_iff_toNat_le] at hsmall
    omega
  · rename_i hlarger
    rw [UInt64.le_iff_toNat_le] at hlarger
    omega

theorem nextRevision_eq (s : StoreSettings) (revision : Nat) :
    s.nextRevision revision = revision % (s.wrap - 1) + 1 := by
  rw [nextRevision, toNat_max_minRevisionWrap]

theorem nextRevision_ne (s : StoreSettings) (revision : Nat) :
    s.nextRevision revision ≠ revision := by
  have hwrap := s.three_le_wrap
  rw [nextRevision_eq]
  generalize s.wrap = wrap at hwrap
  intro hsame
  have hlt : revision % (wrap - 1) < wrap - 1 := Nat.mod_lt _ (by omega)
  rcases Nat.lt_or_ge revision (wrap - 1) with hsmall | hlarge
  · rw [Nat.mod_eq_of_lt hsmall] at hsame
    omega
  · -- Then the revision is the modulus itself, whose remainder is 0.
    have hmodulus : revision = wrap - 1 := by omega
    rw [hmodulus, Nat.mod_self] at hsame
    omega

end StoreSettings

/-! ## The channel -/

theorem Channel.isNewerThan_publish (c : Channel) (revision : Nat) :
    (c.publish revision).isNewerThan c := by
  simp [isNewerThan, publish]

theorem Channel.isNewerThan_self (c : Channel) : c.isNewerThan c = false := by
  simp [isNewerThan]

namespace Store

/-! ## Calls -/

/-- The calls that write to a store. -/
inductive Call where
  | update (path : String) (value : Option Json) (mode : UpdateMode)
  | updatePath (path : DataPath) (value : Option Json) (mode : UpdateMode)
  | set (path : String) (value : Json)
  | updateAbsolute (path : String) (value : Option Json) (mode : UpdateMode)
  | replace (tree : Json)

def Call.mode : Call → UpdateMode
  | .update _ _ mode | .updatePath _ _ mode | .updateAbsolute _ _ mode => mode
  | .set _ _ | .replace _ => .replace

/-- Whether a call is about the tree as a whole: it replaces the tree, or it addresses the bare root
segment. -/
def Call.IsWhole (root : String) : Call → Prop
  | .updateAbsolute path _ _ => path = root
  | .replace _ => True
  | _ => False

/-- What a call answers, and the store after it. -/
def perform (s : Store) : Call → Except StoreError UpdateOutcome × Store
  | .update path value mode =>
    let (outcome, after) := s.update path value mode
    (.ok outcome, after)
  | .updatePath path value mode =>
    let (outcome, after) := s.updatePath path value mode
    (.ok outcome, after)
  | .set path value =>
    let (outcome, after) := s.set path value
    (.ok outcome, after)
  | .updateAbsolute path value mode => s.updateAbsolute path value mode
  | .replace tree => (.ok .applied, s.replace tree)

/-! ## Agreement with the tree -/

/-- The outcome, the revision and the channel tell alike whether the tree is another one than before.
If they tell that it is not, the whole store is the one before. -/
structure MovesWithTree (before : Store) (result : Except StoreError UpdateOutcome × Store) :
    Prop where
  tree_iff : result.1 = .ok .applied ↔ ¬ result.2.tree == before.tree
  revision_iff : result.1 = .ok .applied ↔ result.2.revision ≠ before.revision
  published_iff : result.1 = .ok .applied ↔ result.2.channel.isNewerThan before.channel
  latest : result.1 = .ok .applied → result.2.channel.latest = result.2.revision
  kept : result.1 ≠ .ok .applied → result.2 = before ∧ (result.1 = .ok .unchanged ∨
    ∃ path, result.1 = .error (.outsideRoot path before.settings.rootSegment))

/-- Nothing is told where nothing happened. -/
theorem movesWithTree_kept {s : Store} {answer : Except StoreError UpdateOutcome}
    (h : answer = .ok .unchanged ∨
      ∃ path, answer = .error (.outsideRoot path s.settings.rootSegment)) :
    s.MovesWithTree (answer, s) := by
  have hanswer : answer ≠ .ok .applied := by
    rcases h with rfl | ⟨path, rfl⟩ <;> simp
  have hquiet : s.channel.isNewerThan s.channel = false := s.channel.isNewerThan_self
  constructor
  · simp [hanswer]
  · simp [hanswer]
  · simp [hanswer, hquiet]
  · exact fun happlied => absurd happlied hanswer
  · exact fun _ => ⟨rfl, h⟩

theorem movesWithTree_advance {s : Store} {tree : Json} (h : ¬ tree == s.tree) :
    s.MovesWithTree (.ok .applied, s.advance tree) := by
  have hrevision : (s.advance tree).revision ≠ s.revision := s.settings.nextRevision_ne s.revision
  have hpublished : (s.advance tree).channel.isNewerThan s.channel :=
    s.channel.isNewerThan_publish _
  constructor
  · exact iff_of_true rfl h
  · exact iff_of_true rfl hrevision
  · exact iff_of_true rfl hpublished
  · exact fun _ => rfl
  · exact fun hanswer => absurd rfl hanswer

theorem updatePath_movesWithTree (s : Store) (path : DataPath) (value : Option Json)
    {mode : UpdateMode} (hmode : mode ≠ .move) :
    s.MovesWithTree
      (.ok (s.updatePath path value mode).1, (s.updatePath path value mode).2) := by
  unfold updatePath
  cases hupdate : s.tree.update? path value mode with
  | none => exact movesWithTree_kept (Or.inl rfl)
  | some tree => exact movesWithTree_advance (Json.not_beq_of_update? hmode hupdate)

theorem relativeToRoot_ne_none {path root : String} (hne : path ≠ root) :
    relativeToRoot path root ≠ .ok none := by
  unfold relativeToRoot
  rw [if_neg hne]
  split <;> simp

/-- **The revision moves exactly when the tree does.** A call that is no move and is not about the tree
as a whole is answered by `applied` exactly if it leaves another tree, exactly if the revision is
another one, and exactly if a revision is published. Otherwise it is answered by `unchanged`, or that
its path is outside of the root, and the store is as before. -/
theorem perform_movesWithTree (s : Store) (call : Call) (hmode : call.mode ≠ .move)
    (hpart : ¬ call.IsWhole s.settings.rootSegment) : s.MovesWithTree (s.perform call) := by
  cases call with
  | update path value mode => exact s.updatePath_movesWithTree (.ofText path) value hmode
  | updatePath path value mode => exact s.updatePath_movesWithTree path value hmode
  | set path value => exact s.updatePath_movesWithTree (.ofText path) (some value) hmode
  | updateAbsolute path value mode =>
    have hmode : mode ≠ .move := hmode
    change s.MovesWithTree (s.updateAbsolute path value mode)
    unfold updateAbsolute
    cases hrelative : relativeToRoot path s.settings.rootSegment with
    | error error =>
      exact movesWithTree_kept (Or.inr ⟨path, congrArg _ (relativeToRoot_eq_error_iff.mp hrelative).1⟩)
    | ok relative =>
      cases relative with
      | none => exact absurd hrelative (relativeToRoot_ne_none hpart)
      | some relative => exact s.updatePath_movesWithTree (.ofText relative) value hmode
  | replace tree => exact absurd trivial hpart

/-- Filling an array up to a new element moves a revision that stands at its wrap. -/
theorem perform_movesWithTree_at_wrap :
    let s : Store :=
      { tree := .object [("rows", .array [.null])], revision := 2, settings := { revisionWrap := 0 } }
    let call : Call := .updateAbsolute "data.rows.2" (some .null) .replace
    call.mode ≠ .move ∧ ¬ call.IsWhole s.settings.rootSegment ∧ s.MovesWithTree (s.perform call) := by
  intro s call
  have hmode : call.mode ≠ .move := by decide
  have hpart : ¬ call.IsWhole s.settings.rootSegment := by
    change ¬ "data.rows.2" = "data"
    decide
  exact ⟨hmode, hpart, s.perform_movesWithTree call hmode hpart⟩

/-! ## Moves -/

/-- A move is published if and only if it takes an element to another place, and it leaves an equal
tree if and only if all elements it passes over are equal to the one that it takes. -/
theorem updatePath_move_iff (s : Store) (path : DataPath) (value : Option Json) :
    let (outcome, after) := s.updatePath path value .move
    (outcome = .applied ↔ after.revision ≠ s.revision) ∧
    (outcome = .applied ↔
      ∃ items index target, s.tree.MovesElement path value items index target) ∧
    (after.tree == s.tree ↔ ∀ items index target,
      s.tree.MovesElement path value items index target →
        Json.EqualBetween items index target) := by
  unfold updatePath
  cases hupdate : s.tree.update? path value .move with
  | none =>
    have hprobe := Json.update?_eq_none_iff.mp hupdate
    have hnot : ¬ ∃ items index target, s.tree.MovesElement path value items index target := by
      intro hmoves
      rw [Json.isEffective_move_iff.mpr hmoves] at hprobe
      cases hprobe
    refine ⟨by simp, by simp [hnot], iff_of_true BEq.rfl ?_⟩
    intro items index target hmoves
    exact absurd ⟨items, index, target, hmoves⟩ hnot
  | some tree =>
    obtain ⟨hprobe, rfl⟩ := Json.update?_eq_some_iff.mp hupdate
    have hmoves := Json.isEffective_move_iff.mp hprobe
    refine ⟨iff_of_true rfl (s.settings.nextRevision_ne s.revision), iff_of_true rfl hmoves, ?_⟩
    constructor
    · intro hsame items index target hmoves
      exact (Json.write_move_beq_iff hmoves).mp hsame
    · intro hequal
      obtain ⟨items, index, target, hmoves⟩ := hmoves
      exact (Json.write_move_beq_iff hmoves).mpr (hequal items index target hmoves)

/-- Of two equal elements the first is moved behind the second: the revision moves, the tree does
not. -/
theorem update_move_over_equal :
    let one := Json.number (.integer 1 (by decide))
    let s : Store := { tree := .object [("list", .array [one, one])] }
    let (outcome, after) := s.update "list.0" (some (.object [("increment", one)])) .move
    outcome = .applied ∧ after.revision = 1 ∧ s.revision = 0 ∧ after.tree == s.tree := by
  decide

end Store

end DataBinding
