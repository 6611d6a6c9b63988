import DataBinding.Proofs.Evaluation.Passes

/-!
# Evaluation that has come to rest

Each pass goes one level deeper, into the arrays and objects that the pass before brought in. So where a
result is nested no deeper than passes were made, the last of them brought in nothing that the next one
would go into, and the passes of a greater depth find nothing to work on.

A scalar spends its first pass on itself, an array or object spends it on its parts. This is why a scalar
needs one pass more for a result of the same nesting.

* `BindingContext.boundedPasses_of_nesting_le`, `boundedPasses_of_nesting_lt`: more passes give the
  result again, by induction on the number of passes.
* `Evaluator.passBound_eq_or_le`, `passBound_le_of_neg`: which depths stand for at least as many
  passes.
* `Evaluator.evaluate_eq_of_converged`: what this means for evaluation to a depth, positive or
  negative.
-/

namespace DataBinding

namespace BindingContext

variable {ctx : BindingContext}

/-- What comes of a part depends on further passes only through the array or object it names. -/
theorem evaluateThen_of_imp {more more' : Json → Except ReferenceError (Option Json)}
    {part : Json} {result : Option Json}
    (himp : ∀ found : Json, found.isComposite → more found = .ok result →
      more' found = .ok result)
    (h : ctx.evaluateThen more part = .ok result) : ctx.evaluateThen more' part = .ok result := by
  unfold evaluateThen at h ⊢
  cases hscalar : ctx.evaluateScalar part with
  | error error =>
    rw [hscalar] at h
    cases h
  | ok found =>
    rw [hscalar] at h
    cases found with
    | none => exact h
    | some found =>
      change (if found.isComposite then more found else .ok (some found)) = .ok result at h
      change (if found.isComposite then more' found else .ok (some found)) = .ok result
      by_cases hfound : found.isComposite
      · rw [if_pos hfound] at h ⊢
        exact himp found hfound h
      · rw [if_neg hfound] at h ⊢
        exact h

/-- An array or object stays one: passes never find it missing. -/
theorem boundedPasses_ne_none {n : Nat} {value : Json} (hvalue : value.isComposite) :
    ctx.boundedPasses n value ≠ .ok none := by
  intro h
  cases n with
  | zero => cases h
  | succ n =>
    cases value with
    | array items =>
      obtain ⟨results, -, hnone⟩ := except_map_eq_ok h
      cases hnone
    | object members =>
      obtain ⟨results, -, hnone⟩ := except_map_eq_ok h
      cases hnone
    | _ => cases hvalue

theorem boundedPasses_succ_of_scalar {value : Json} (hvalue : ¬ value.isComposite) (n : Nat) :
    ctx.boundedPasses (n + 1) value = ctx.evaluateThen (ctx.boundedPasses n) value := by
  cases value with
  | array items => exact absurd rfl hvalue
  | object members => exact absurd rfl hvalue
  | _ => rfl

/-- One pass more, if the result is nested no deeper than passes were made. The parts were treated by
one pass less and are nested one level less, so the induction hypothesis is about them. -/
theorem boundedPasses_succ_of_nesting_le {n : Nat} {value result : Json}
    (hvalue : value.isComposite) (hnesting : result.nesting ≤ n)
    (h : ctx.boundedPasses n value = .ok (some result)) :
    ctx.boundedPasses (n + 1) value = .ok (some result) := by
  induction n generalizing value result with
  | zero =>
    cases h
    have hpos := Json.nesting_pos hvalue
    omega
  | succ n ih =>
    have hpart : ∀ (part : Json) (result : Option Json),
        (∀ found, result = some found → found.nesting ≤ n) →
        ctx.evaluateThen (ctx.boundedPasses n) part = .ok result →
          ctx.evaluateThen (ctx.boundedPasses (n + 1)) part = .ok result := by
      intro part result hresult
      refine evaluateThen_of_imp fun found hfound hmore => ?_
      cases result with
      | none => exact absurd hmore (boundedPasses_ne_none hfound)
      | some result => exact ih hfound (hresult result rfl) hmore
    cases value with
    | array items =>
      obtain ⟨results, hresults, hresult⟩ := except_map_eq_ok h
      cases hresult
      rw [Json.nesting_array_le] at hnesting
      have hagain : items.mapM (ctx.evaluateThen (ctx.boundedPasses (n + 1))) = .ok results := by
        refine mapM_eq_ok_of_imp hresults fun item _ result hmem => hpart item result ?_
        rintro found rfl
        exact hnesting found (List.mem_map.mpr ⟨some found, hmem, rfl⟩)
      rw [boundedPasses, hagain]
      rfl
    | object members =>
      obtain ⟨results, hresults, hresult⟩ := except_map_eq_ok h
      cases hresult
      rw [Json.nesting_object_le] at hnesting
      have hagain : (members.mapM fun member =>
          (ctx.evaluateThen (ctx.boundedPasses (n + 1)) member.2).map fun result =>
            result.map fun value => (member.1, value)) = .ok results := by
        refine mapM_eq_ok_of_imp hresults fun member _ named hmem hnamed => ?_
        obtain ⟨result, hresult, rfl⟩ := except_map_eq_ok hnamed
        rw [hpart member.2 result _ hresult]
        · rfl
        · rintro found rfl
          exact hnesting (member.1, found) (List.mem_filterMap.mpr ⟨_, hmem, rfl⟩)
      rw [boundedPasses, hagain]
      rfl
    | _ => cases hvalue

/-- Any number of passes more over an array or object. -/
theorem boundedPasses_of_nesting_le {n m : Nat} {value result : Json}
    (hvalue : value.isComposite) (hnesting : result.nesting ≤ n)
    (h : ctx.boundedPasses n value = .ok (some result)) (hnm : n ≤ m) :
    ctx.boundedPasses m value = .ok (some result) := by
  induction hnm with
  | refl => exact h
  | step hnm ih => exact boundedPasses_succ_of_nesting_le hvalue (Nat.le_trans hnesting hnm) ih

/-- Any number of passes more over a scalar. Its first pass is spent on the scalar itself, so the
others must be enough for what it names. -/
theorem boundedPasses_of_nesting_lt {n m : Nat} {value result : Json}
    (hvalue : ¬ value.isComposite) (hnesting : result.nesting < n)
    (h : ctx.boundedPasses n value = .ok (some result)) (hnm : n ≤ m) :
    ctx.boundedPasses m value = .ok (some result) := by
  obtain ⟨n, rfl⟩ : ∃ k, n = k + 1 := ⟨n - 1, by omega⟩
  obtain ⟨m, rfl⟩ : ∃ k, m = k + 1 := ⟨m - 1, by omega⟩
  rw [boundedPasses_succ_of_scalar hvalue] at h ⊢
  exact evaluateThen_of_imp
    (fun found hfound hmore => boundedPasses_of_nesting_le hfound (by omega) hmore (by omega)) h

/-- A scalar does need that pass: here it names a row, whose element is still a reference. -/
example :
    let ctx := ofGlobal ⟨.object [("x", .string "five"), ("row", .array [.string "~.x"])], "data"⟩
    ctx.boundedPasses 1 (.string "~.row") = .ok (some (.array [.string "~.x"])) ∧
      ctx.boundedPasses 2 (.string "~.row") = .ok (some (.array [.string "five"])) :=
  ⟨rfl, rfl⟩

end BindingContext

/-! ## Depths -/

namespace Evaluator

variable {e : Evaluator} {ctx : BindingContext}

/-- A greater depth stands for more passes, or for as many if the safety limit cuts off both. -/
theorem passBound_eq_or_le {depth more : Int} (hdepth : 0 ≤ depth) (hmore : depth ≤ more) :
    e.passBound more = e.passBound depth ∨
      (e.passBound depth : Int) = depth ∧ e.passBound depth ≤ e.passBound more := by
  unfold passBound
  rw [if_pos hdepth, if_pos (Int.le_trans hdepth hmore)]
  omega

/-- A negative depth leaves fewer passes than the safety limit, so the limit cuts off no positive
depth up to that number. -/
theorem passBound_le_of_neg {depth negative : Int} (hdepth : 0 ≤ depth) (hneg : negative < 0)
    (hleft : depth ≤ e.safetyLimit.toNat + negative) :
    (e.passBound depth : Int) = depth ∧ e.passBound depth ≤ e.passBound negative := by
  unfold passBound
  rw [if_pos hdepth, if_neg (Int.not_le.mpr hneg)]
  omega

/-- Extra depth changes nothing once evaluation has come to rest: if a result is nested no deeper than
the depth that gave it, or for a scalar less deeply, every greater depth gives it again, and so does
every negative depth that leaves at least as many passes of the safety limit. -/
theorem evaluate_eq_of_converged {value result : Json} {depth : Int} (hdepth : 1 ≤ depth)
    (h : e.evaluate ctx value depth = .ok (some result))
    (hnesting : if value.isComposite then (result.nesting : Int) ≤ depth
      else (result.nesting : Int) < depth) :
    (∀ more, depth ≤ more → e.evaluate ctx value more = .ok (some result)) ∧
    ∀ negative < 0, depth ≤ e.safetyLimit.toNat + negative →
      e.evaluate ctx value negative = .ok (some result) := by
  simp only [evaluate_eq_boundedPasses_passBound] at h ⊢
  have hmore : ∀ passes, (e.passBound depth : Int) = depth → e.passBound depth ≤ passes →
      ctx.boundedPasses passes value = .ok (some result) := by
    intro passes hbound hle
    split at hnesting
    · next hvalue => exact BindingContext.boundedPasses_of_nesting_le hvalue (by omega) h hle
    · next hvalue => exact BindingContext.boundedPasses_of_nesting_lt hvalue (by omega) h hle
  constructor
  · intro more hle
    rcases e.passBound_eq_or_le (by omega) hle with hsame | ⟨hbound, hpasses⟩
    · rw [hsame]
      exact h
    · exact hmore _ hbound hpasses
  · intro negative hneg hleft
    obtain ⟨hbound, hpasses⟩ := e.passBound_le_of_neg (by omega) hneg hleft
    exact hmore _ hbound hpasses

/-- Two passes bring in a list and what its elements name: one is missing and becomes `null`, and a
member that names nothing is left out. -/
theorem evaluate_eq_of_converged_in_row :
    let scope : Scope := ⟨.object [("x", .string "five"),
      ("row", .array [.string "~.x", .string "~.gone"])], "data"⟩
    let value : Json := .object [("a", .string "~.row"), ("b", .string "~.gone")]
    let result : Json := .object [("a", .array [.string "five", .null])]
    (1 : Int) ≤ 2 ∧
    ({} : Evaluator).evaluate (.ofGlobal scope) value 2 = .ok (some result) ∧
    value.isComposite ∧ (result.nesting : Int) ≤ 2 ∧
    (∀ more, 2 ≤ more → ({} : Evaluator).evaluate (.ofGlobal scope) value more =
      .ok (some result)) ∧
    ∀ negative < 0, 2 ≤ (({} : Evaluator).safetyLimit.toNat : Int) + negative →
      ({} : Evaluator).evaluate (.ofGlobal scope) value negative = .ok (some result) := by
  intro scope value result
  have h : ({} : Evaluator).evaluate (.ofGlobal scope) value 2 = .ok (some result) := by
    rw [evaluate_eq_boundedPasses_passBound]
    rfl
  have hnesting : (result.nesting : Int) ≤ 2 := by decide
  have hsame := evaluate_eq_of_converged (by decide) h hnesting
  exact ⟨by decide, h, rfl, hnesting, hsame⟩

end Evaluator

end DataBinding
