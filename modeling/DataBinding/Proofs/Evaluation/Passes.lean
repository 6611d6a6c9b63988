import Mathlib.Logic.Relation
import DataBinding.Evaluation
import DataBinding.Proofs.Json.Nesting

/-!
# Evaluation is a bounded number of passes

The depth of an evaluation counts down from a positive number to one, or from a negative number to
the floor. Here it is compared with passes that are counted by a natural number and know nothing of
depths.

* `BindingContext.boundedPasses`: `n` passes, by recursion on `n`.
* `Evaluator.passCount`: how many passes a depth stands for.
* `Evaluator.passes_eq_boundedPasses`: counting down a depth makes that many passes.
* `Evaluator.GoesOn`: the step from a pass to the passes over what it brought in; `depth_bounds` is the
  invariant of its runs.
* `nesting_boundedPasses`: each pass adds at most one level to what was there.
* `Evaluator.evaluate_eq_boundedPasses`: what this means for evaluation to a depth.
-/

namespace DataBinding

/-! ## Passes by number -/

namespace BindingContext

/-- A value is replaced by what it refers to, and an array or object that comes in is treated
further. -/
def evaluateThen (ctx : BindingContext) (more : Json → Except ReferenceError (Option Json))
    (value : Json) : Except ReferenceError (Option Json) :=
  (ctx.evaluateScalar value).bind fun
    | some result => if result.isComposite then more result else .ok (some result)
    | none => .ok none

/-- A number of passes. A pass replaces the elements of an array, of which a missing one becomes
`null`, the members of an object, of which a missing one is left out, or a scalar itself. -/
def boundedPasses (ctx : BindingContext) : Nat → Json → Except ReferenceError (Option Json)
  | 0, value => .ok (some value)
  | n + 1, .array items =>
    (items.mapM (ctx.evaluateThen (boundedPasses ctx n))).map fun results =>
      some (.array (results.map (·.getD .null)))
  | n + 1, .object members =>
    (members.mapM fun member =>
      (ctx.evaluateThen (boundedPasses ctx n) member.2).map fun result =>
        result.map fun value => (member.1, value)).map fun results =>
      some (.object (results.filterMap id))
  | n + 1, scalar => ctx.evaluateThen (boundedPasses ctx n) scalar

/-- The last pass leaves what it brings in as it is. -/
theorem evaluateThen_zero (ctx : BindingContext) (value : Json) :
    ctx.evaluateThen (ctx.boundedPasses 0) value = ctx.evaluateScalar value := by
  unfold evaluateThen
  cases ctx.evaluateScalar value with
  | error error => rfl
  | ok result =>
    cases result with
    | none => rfl
    | some result => exact ite_self _

end BindingContext

/-! ## Traversals -/

theorem except_map_map {ε α β γ : Type} (x : Except ε α) (f : α → β) (g : β → γ) :
    (x.map f).map g = x.map (g ∘ f) := by
  cases x <;> rfl

theorem except_map_eq_ok {ε α β : Type} {x : Except ε α} {f : α → β} {b : β}
    (h : x.map f = .ok b) : ∃ a, x = .ok a ∧ f a = b := by
  cases x with
  | error error => cases h
  | ok a => exact ⟨a, rfl, Except.ok.inj h⟩

theorem mapM_cons_eq_ok {ε α β : Type} {f : α → Except ε β} {item : α} {items : List α}
    {results : List β} (h : (item :: items).mapM f = .ok results) :
    ∃ first rest, f item = .ok first ∧ items.mapM f = .ok rest ∧ results = first :: rest := by
  rw [List.mapM_cons] at h
  cases hitem : f item with
  | error error =>
    rw [hitem] at h
    cases h
  | ok first =>
    cases hitems : items.mapM f with
    | error error =>
      rw [hitem, hitems] at h
      cases h
    | ok rest =>
      rw [hitem, hitems] at h
      cases h
      exact ⟨first, rest, rfl, rfl, rfl⟩

theorem mem_of_mapM {ε α β : Type} {f : α → Except ε β} {items : List α} {results : List β}
    (h : items.mapM f = .ok results) {result : β} (hresult : result ∈ results) :
    ∃ item ∈ items, f item = .ok result := by
  induction items generalizing results with
  | nil =>
    cases h
    cases hresult
  | cons item items ih =>
    obtain ⟨first, rest, hitem, hitems, rfl⟩ := mapM_cons_eq_ok h
    rcases List.mem_cons.mp hresult with rfl | hrest
    · exact ⟨item, List.mem_cons_self, hitem⟩
    · obtain ⟨other, hother, hf⟩ := ih hitems hrest
      exact ⟨other, List.mem_cons_of_mem _ hother, hf⟩

/-- A traversal gives its results again under a function that gives each of them again. -/
theorem mapM_eq_ok_of_imp {ε α β : Type} {f g : α → Except ε β} {items : List α}
    {results : List β} (h : items.mapM f = .ok results)
    (himp : ∀ item ∈ items, ∀ result ∈ results, f item = .ok result → g item = .ok result) :
    items.mapM g = .ok results := by
  induction items generalizing results with
  | nil =>
    cases h
    rfl
  | cons item items ih =>
    obtain ⟨first, rest, hitem, hitems, rfl⟩ := mapM_cons_eq_ok h
    have hfirst : g item = .ok first :=
      himp item List.mem_cons_self first List.mem_cons_self hitem
    have hrest : items.mapM g = .ok rest :=
      ih hitems fun other hother result hresult =>
        himp other (List.mem_cons_of_mem _ hother) result (List.mem_cons_of_mem _ hresult)
    rw [List.mapM_cons, hfirst, hrest]
    rfl

theorem evaluateItems_congr {f g : Json → Except ReferenceError (Option Json)}
    {items : List Json} (h : ∀ item ∈ items, f item = g item) :
    evaluateItems f items = evaluateItems g items := by
  induction items with
  | nil => rfl
  | cons item items ih =>
    rw [evaluateItems, evaluateItems, h item List.mem_cons_self,
      ih fun other hother => h other (List.mem_cons_of_mem _ hother)]

theorem evaluateMembers_congr {f g : Json → Except ReferenceError (Option Json)}
    {members : List (String × Json)} (h : ∀ member ∈ members, f member.2 = g member.2) :
    evaluateMembers f members = evaluateMembers g members := by
  induction members with
  | nil => rfl
  | cons member members ih =>
    rw [evaluateMembers, evaluateMembers, h member List.mem_cons_self,
      ih fun other hother => h other (List.mem_cons_of_mem _ hother)]

theorem evaluateItems_eq (evaluate : Json → Except ReferenceError (Option Json))
    (items : List Json) :
    evaluateItems evaluate items =
      (items.mapM evaluate).map fun results => results.map (·.getD .null) := by
  induction items with
  | nil => rfl
  | cons item items ih =>
    rw [evaluateItems, ih, List.mapM_cons]
    cases evaluate item with
    | error error => rfl
    | ok result =>
      cases items.mapM evaluate <;> rfl

theorem evaluateMembers_eq (evaluate : Json → Except ReferenceError (Option Json))
    (members : List (String × Json)) :
    evaluateMembers evaluate members =
      (members.mapM fun member => (evaluate member.2).map fun result =>
        result.map fun value => (member.1, value)).map fun results => results.filterMap id := by
  induction members with
  | nil => rfl
  | cons member members ih =>
    obtain ⟨name, value⟩ := member
    rw [evaluateMembers, ih, List.mapM_cons]
    cases evaluate value with
    | error error => rfl
    | ok result =>
      cases members.mapM fun member => (evaluate member.2).map fun result =>
        result.map fun value => (member.1, value) with
      | error error => rfl
      | ok results => cases result <;> rfl

/-- What a pass evaluates: the elements, the values of the members, or a scalar itself. -/
def Json.parts : Json → List Json
  | .array items => items
  | .object members => members.map Prod.snd
  | scalar => [scalar]

/-! ## Counting down a depth -/

namespace Evaluator

variable {e : Evaluator} {ctx : BindingContext}

/-- How many passes are made from a depth on: down to one, or down to the floor. -/
def passCount (e : Evaluator) (depth : Int) : Nat :=
  if 0 ≤ depth then depth.toNat else (depth - e.floor).toNat

theorem floor_le_zero (e : Evaluator) : e.floor ≤ 0 := by
  unfold floor
  omega

theorem passCount_eq_zero_iff {depth : Int} :
    e.passCount depth = 0 ↔ depth = 0 ∨ depth ≤ e.floor := by
  have hfloor := e.floor_le_zero
  unfold passCount
  split <;> omega

/-- From one depth to the next a pass is spent. -/
theorem passCount_sub_one {depth : Int} {n : Nat} (h : e.passCount depth = n + 1) :
    e.passCount (depth - 1) = n := by
  have hfloor := e.floor_le_zero
  unfold passCount at h ⊢
  split at h <;> split <;> omega

/-- The last pass at a positive depth is the one at depth one. -/
theorem passCount_eq_one {depth : Int} {n : Nat} (h : e.passCount depth = n + 1)
    (hmore : ¬ (1 < depth ∨ depth < 0)) : n = 0 := by
  unfold passCount at h
  split at h <;> omega

/-- From a pass at a depth to one over an array or object that it brought in. -/
inductive GoesOn (e : Evaluator) (ctx : BindingContext) : Int × Json → Int × Json → Prop
  | next {depth : Int} {value part result : Json} (hpass : ¬ (depth = 0 ∨ depth ≤ e.floor))
    (hpart : part ∈ value.parts) (hresult : ctx.evaluateScalar part = .ok (some result))
    (hmore : 1 < depth ∨ depth < 0) (hcomposite : result.isComposite) :
    GoesOn e ctx (depth, value) (depth - 1, result)

/-- A pass at a depth is a pass by number, if that is so for the passes it goes on with. -/
theorem passes_eq_of_goesOn {depth : Int} {n : Nat} (h : e.passCount depth = n + 1)
    {value : Json} (hnext : ∀ result, e.GoesOn ctx (depth, value) (depth - 1, result) →
      e.passes ctx (depth - 1) result = ctx.boundedPasses n result) :
    e.passes ctx depth value = ctx.boundedPasses (n + 1) value := by
  have hpass : ¬ (depth = 0 ∨ depth ≤ e.floor) := by
    rw [← passCount_eq_zero_iff, h]
    omega
  rw [passes, dif_neg hpass]
  extract_lets evaluate
  have hevaluate : ∀ part ∈ value.parts,
      evaluate part = ctx.evaluateThen (ctx.boundedPasses n) part := by
    intro part hpart
    unfold evaluate BindingContext.evaluateThen
    cases hresult : ctx.evaluateScalar part with
    | error error => rfl
    | ok result =>
      cases result with
      | none => rfl
      | some result =>
        change (if _ : (1 < depth ∨ depth < 0) ∧ result.isComposite then
            e.passes ctx (depth - 1) result else .ok (some result)) =
          if result.isComposite then ctx.boundedPasses n result else .ok (some result)
        by_cases hcomposite : result.isComposite
        · rw [if_pos hcomposite]
          by_cases hmore : 1 < depth ∨ depth < 0
          · rw [dif_pos ⟨hmore, hcomposite⟩]
            exact hnext result (.next hpass hpart hresult hmore hcomposite)
          · rw [dif_neg fun hboth => hmore hboth.1, passCount_eq_one h hmore]
            rfl
        · rw [if_neg hcomposite, dif_neg fun hboth => hcomposite hboth.2]
  cases value with
  | array items =>
    have hitems : ∀ item ∈ items, evaluate item = ctx.evaluateThen (ctx.boundedPasses n) item :=
      hevaluate
    change (evaluateItems evaluate items).map _ = _
    rw [evaluateItems_congr hitems, evaluateItems_eq, except_map_map]
    rfl
  | object members =>
    have hmembers : ∀ member ∈ members,
        evaluate member.2 = ctx.evaluateThen (ctx.boundedPasses n) member.2 :=
      fun member hmember => hevaluate member.2 (List.mem_map_of_mem hmember)
    change (evaluateMembers evaluate members).map _ = _
    rw [evaluateMembers_congr hmembers, evaluateMembers_eq, except_map_map]
    rfl
  | _ => exact hevaluate _ (List.mem_singleton_self _)

/-- Counting down a depth makes the passes that the depth stands for. -/
theorem passes_eq_boundedPasses {depth : Int} {n : Nat} (h : e.passCount depth = n)
    (value : Json) : e.passes ctx depth value = ctx.boundedPasses n value := by
  induction n generalizing depth value with
  | zero =>
    rw [passes, dif_pos (passCount_eq_zero_iff.mp h)]
    rfl
  | succ n ih => exact passes_eq_of_goesOn h fun result _ => ih (passCount_sub_one h) result

/-- The depth never rises, and never falls below the floor where it was above it. -/
theorem depth_bounds {start last : Int × Json}
    (h : Relation.ReflTransGen (e.GoesOn ctx) start last) :
    last.1 ≤ start.1 ∧ min start.1 e.floor ≤ last.1 := by
  induction h with
  | refl => omega
  | tail _ hstep ih =>
    cases hstep with
    | next hpass _ _ _ _ =>
      dsimp only at ih ⊢
      omega

end Evaluator

/-! ## Growth -/

section Growth

variable {ctx : BindingContext} {bound : Nat}
  (hlocal : ctx.localScope.tree.nesting ≤ bound) (hglobal : ctx.globalScope.tree.nesting ≤ bound)

include hlocal hglobal in
theorem nesting_lookup {reference : Reference} {found : Json}
    (h : ctx.lookup reference = .ok (some found)) : found.nesting ≤ bound := by
  cases reference with
  | localRoot =>
    cases h
    exact hlocal
  | globalRoot =>
    cases h
    exact hglobal
  | localPath rest =>
    rw [BindingContext.lookup_localPath] at h
    exact Nat.le_trans (Json.nesting_le_of_get? (Except.ok.inj h)) hlocal
  | globalPath rest =>
    rw [BindingContext.lookup_globalPath] at h
    exact Nat.le_trans (Json.nesting_le_of_get? (Except.ok.inj h)) hglobal
  | ancestor search key rest =>
    rw [BindingContext.lookup_ancestor] at h
    obtain ⟨absolute, -, hread⟩ := except_map_eq_ok h
    exact Nat.le_trans (Json.nesting_le_of_get? hread) hglobal

include hlocal hglobal in
theorem nesting_evaluateScalar {value result : Json} (hvalue : value.nesting ≤ bound)
    (h : ctx.evaluateScalar value = .ok (some result)) : result.nesting ≤ bound := by
  unfold BindingContext.evaluateScalar at h
  split at h
  · exact nesting_lookup hlocal hglobal h
  · cases h
    exact hvalue

include hlocal hglobal in
/-- What comes of a part is bounded by what comes of the passes over it. -/
theorem nesting_evaluateThen {more : Json → Except ReferenceError (Option Json)} {limit : Nat}
    (hbound : bound ≤ limit)
    (hmore : ∀ value result : Json, value.nesting ≤ bound → more value = .ok (some result) →
      result.nesting ≤ limit) {part result : Json} (hpart : part.nesting ≤ bound)
    (h : ctx.evaluateThen more part = .ok (some result)) : result.nesting ≤ limit := by
  unfold BindingContext.evaluateThen at h
  cases hscalar : ctx.evaluateScalar part with
  | error error =>
    rw [hscalar] at h
    cases h
  | ok found =>
    rw [hscalar] at h
    cases found with
    | none => cases h
    | some found =>
      have hfound := nesting_evaluateScalar hlocal hglobal hpart hscalar
      change (if found.isComposite then more found else .ok (some found)) = .ok (some result) at h
      split at h
      · exact hmore found result hfound h
      · cases h
        exact Nat.le_trans hfound hbound

include hlocal hglobal in
/-- What a pass brings in is not nested deeper than the trees, and each pass adds a level. -/
theorem nesting_boundedPasses {n : Nat} {value result : Json} (hvalue : value.nesting ≤ bound)
    (h : ctx.boundedPasses n value = .ok (some result)) : result.nesting ≤ n + bound := by
  induction n generalizing value result with
  | zero =>
    cases h
    omega
  | succ n ih =>
    -- A part is treated by one pass less, so it stays one level below.
    have hthen : ∀ {part result : Json}, part.nesting ≤ bound →
        ctx.evaluateThen (ctx.boundedPasses n) part = .ok (some result) →
          result.nesting ≤ n + bound :=
      fun hpart hresult => nesting_evaluateThen hlocal hglobal (by omega)
        (fun _ _ hvalue hmore => ih hvalue hmore) hpart hresult
    have hsum : n + 1 + bound = n + bound + 1 := by omega
    cases value with
    | array items =>
      obtain ⟨results, hresults, hresult⟩ := except_map_eq_ok h
      cases hresult
      rw [hsum, Json.nesting_array_le]
      intro item hitem
      obtain ⟨found, hfound, rfl⟩ := List.mem_map.mp hitem
      obtain ⟨part, hmem, hpart⟩ := mem_of_mapM hresults hfound
      have hlt := Json.nesting_item_lt hmem
      cases found with
      | none => exact Nat.zero_le _
      | some found => exact hthen (by omega) hpart
    | object members =>
      obtain ⟨results, hresults, hresult⟩ := except_map_eq_ok h
      cases hresult
      rw [hsum, Json.nesting_object_le]
      intro member hmember
      obtain ⟨found, hfound, hsome⟩ := List.mem_filterMap.mp hmember
      obtain ⟨part, hmem, hmap⟩ := mem_of_mapM hresults hfound
      obtain ⟨value, hpart, hpair⟩ := except_map_eq_ok hmap
      have hlt := Json.nesting_member_lt hmem
      cases value with
      | none =>
        cases hpair
        cases hsome
      | some value =>
        cases hpair
        cases hsome
        exact hthen (by omega) hpart
    | _ =>
      have hscalar := hthen hvalue h
      omega

end Growth

/-! ## Evaluation to a depth -/

namespace Evaluator

/-- The number of passes that are made for a depth: as many as it says, up to the safety limit but
no fewer than one, or for a negative depth as many as it leaves of the limit. -/
def passBound (e : Evaluator) (depth : Int) : Nat :=
  if 0 ≤ depth then (min depth (max (e.safetyLimit.toNat : Int) 1)).toNat
  else (max 0 ((e.safetyLimit.toNat : Int) + depth)).toNat

theorem passCount_min_ceiling (e : Evaluator) (depth : Int) :
    e.passCount (min depth e.ceiling) = e.passBound depth := by
  unfold passCount passBound ceiling floor
  split <;> split <;> omega

/-- A negative depth leaves as many passes as the safety limit and it together. -/
theorem passBound_of_neg (e : Evaluator) {depth : Int} (h : depth < 0) :
    e.passBound depth = e.passBound (max 0 (e.safetyLimit.toNat + depth)) := by
  unfold passBound
  split <;> split <;> omega

theorem evaluate_eq_boundedPasses_passBound (e : Evaluator) (ctx : BindingContext) (value : Json)
    (depth : Int) : e.evaluate ctx value depth = ctx.boundedPasses (e.passBound depth) value :=
  passes_eq_boundedPasses (e.passCount_min_ceiling depth) value

/-- Evaluation to a depth is a number of passes that the depth and the safety limit determine. A
negative depth counts from the limit, every depth on the way down is a 64-bit number, and each pass
adds at most one level to the deepest of what there is. -/
theorem evaluate_eq_boundedPasses (e : Evaluator) (ctx : BindingContext) (value : Json)
    (depth : Int32) :
    e.evaluate ctx value depth.toInt = ctx.boundedPasses (e.passBound depth.toInt) value ∧
    (depth.toInt < 0 → e.evaluate ctx value depth.toInt =
      e.evaluate ctx value (max 0 (e.safetyLimit.toNat + depth.toInt))) ∧
    (∀ last, Relation.ReflTransGen (e.GoesOn ctx) (min depth.toInt e.ceiling, value) last →
      -0x8000000000000000 ≤ last.1 ∧ last.1 < 0x8000000000000000) ∧
    ∀ result, e.evaluate ctx value depth.toInt = .ok (some result) →
      result.nesting ≤ e.passBound depth.toInt +
        max value.nesting (max ctx.localScope.tree.nesting ctx.globalScope.tree.nesting) := by
  refine ⟨evaluate_eq_boundedPasses_passBound .., ?_, ?_, ?_⟩
  · intro hneg
    rw [evaluate_eq_boundedPasses_passBound, evaluate_eq_boundedPasses_passBound,
      e.passBound_of_neg hneg]
  · intro last hrun
    have hbounds := depth_bounds hrun
    have hle := depth.toInt_le
    have hge := depth.le_toInt
    have hlimit := e.safetyLimit.toNat_lt
    unfold floor ceiling at hbounds
    dsimp only at hbounds
    omega
  · intro result hresult
    rw [evaluate_eq_boundedPasses_passBound] at hresult
    exact nesting_boundedPasses (by omega) (by omega) (by omega) hresult

end Evaluator

end DataBinding
