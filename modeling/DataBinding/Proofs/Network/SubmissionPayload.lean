import DataBinding.Action
import DataBinding.Proofs.Evaluation.Passes

/-!
# What is submitted is what evaluation gives

A payload that an action is given is evaluated without an evaluator, in loops of its own over the elements
or members. For arrays and objects these loops are the one pass that evaluation to depth one makes, error
by error and whatever the safety limit. The state of the application is all that an object gets on top.

* `evaluate_eq_evaluateData`: the loops and the pass.
* `Json.SetsMember`: a member set in its place, or at the end; `setsMember_iff` says that this is what
  setting a member does.
* `CarriesState`: a value with the state of the application; `carriesState_iff` says what it is made by.
* `submissionPayload_agrees`: the payload, compared with what evaluation gives.
-/

namespace DataBinding

/-! ## One pass -/

section Traversal

variable {ε α β γ : Type}

theorem mapM_map_eq (f : α → Except ε β) (g : β → γ) (items : List α) :
    (items.mapM fun item => (f item).map g) = (items.mapM f).map (List.map g) := by
  induction items with
  | nil => rfl
  | cons item items ih =>
    rw [List.mapM_cons, List.mapM_cons, ih]
    cases f item with
    | error error => rfl
    | ok result => cases items.mapM f <;> rfl

theorem filterMapM_eq (f : α → Except ε (Option β)) (items : List α) :
    items.filterMapM f = (items.mapM f).map (List.filterMap id) := by
  induction items with
  | nil => rfl
  | cons item items ih =>
    rw [List.filterMapM_cons, List.mapM_cons, ih]
    cases f item with
    | error error => rfl
    | ok result => cases result <;> cases items.mapM f <;> rfl

end Traversal

section Pass

variable {ctx : BindingContext} {data : Json}

/-- A payload that is an array or object is evaluated in one pass. -/
theorem boundedPasses_one_eq_evaluateData (hdata : data.isComposite) :
    ctx.boundedPasses 1 data = (evaluateData ctx data).map some := by
  have hthen : ctx.evaluateThen (ctx.boundedPasses 0) = ctx.evaluateScalar :=
    funext ctx.evaluateThen_zero
  cases data with
  | array items =>
    rw [BindingContext.boundedPasses, hthen, evaluateData, mapM_map_eq, except_map_map,
      except_map_map]
    rfl
  | object members =>
    rw [BindingContext.boundedPasses, hthen, evaluateData, filterMapM_eq, except_map_map,
      except_map_map]
    rfl
  | _ => cases hdata

/-- A depth of one stands for one pass, even if the safety limit is zero. -/
theorem Evaluator.passBound_one (e : Evaluator) : e.passBound 1 = 1 := by
  unfold passBound
  rw [if_pos (by decide)]
  omega

theorem evaluate_eq_evaluateData (hdata : data.isComposite) (e : Evaluator) :
    e.evaluate ctx data 1 = (evaluateData ctx data).map some := by
  rw [e.evaluate_eq_boundedPasses_passBound, e.passBound_one,
    boundedPasses_one_eq_evaluateData hdata]

end Pass

/-! ## The state of the application -/

namespace Json

variable {name : String} {value : Json} {members changed : List (String × Json)}

/-- The members after one was set: in the place of the first of its name, or at the end if there is
none. -/
inductive SetsMember (name : String) (value : Json) :
    List (String × Json) → List (String × Json) → Prop where
  | inPlace {front back : List (String × Json)} {old : Json} (hfront : name ∉ front.map Prod.fst) :
      SetsMember name value (front ++ (name, old) :: back) (front ++ (name, value) :: back)
  | atEnd {members : List (String × Json)} (hmembers : name ∉ members.map Prod.fst) :
      SetsMember name value members (members ++ [(name, value)])

/-- Members of other names are passed over. -/
theorem insertMember_append {front : List (String × Json)} (h : name ∉ front.map Prod.fst)
    (value : Json) (rest : List (String × Json)) :
    insertMember name value (front ++ rest) = front ++ insertMember name value rest := by
  induction front with
  | nil => rfl
  | cons member front ih =>
    rw [List.map_cons, List.mem_cons, not_or] at h
    rw [List.cons_append, insertMember, if_neg (Ne.symm h.1), ih h.2, List.cons_append]

theorem setsMember_insertMember (name : String) (value : Json) (members : List (String × Json)) :
    SetsMember name value members (insertMember name value members) := by
  by_cases hname : name ∈ members.map Prod.fst
  · obtain ⟨front, old, back, rfl, hfront⟩ :
        ∃ front old back, members = front ++ (name, old) :: back ∧
          name ∉ front.map Prod.fst := by
      obtain ⟨names, others, hnames, hfirst⟩ := List.eq_append_cons_of_mem hname
      obtain ⟨front, rest, rfl, hfront, hrest⟩ := List.map_eq_append_iff.mp hnames
      obtain ⟨⟨_, old⟩, back, rfl, rfl, -⟩ := List.map_eq_cons_iff.mp hrest
      exact ⟨front, old, back, rfl, hfront ▸ hfirst⟩
    rw [insertMember_append hfront, insertMember, if_pos rfl]
    exact .inPlace hfront
  · have hend : insertMember name value members = members ++ [(name, value)] := by
      simpa [insertMember] using insertMember_append hname value []
    rw [hend]
    exact .atEnd hname

theorem setsMember_iff :
    SetsMember name value members changed ↔ changed = insertMember name value members := by
  constructor
  · rintro (hfront | hmembers)
    · rw [insertMember_append hfront, insertMember, if_pos rfl]
    · simpa [insertMember] using (insertMember_append hmembers value []).symm
  · rintro rfl
    exact setsMember_insertMember name value members

end Json

/-- A value and what is submitted for it over a global tree: an object has its `__state` set to that of
the tree if the tree is an object that has one, and all else is submitted as it is. -/
inductive CarriesState (globalTree : Json) : Json → Json → Prop where
  | stateful {members changed : List (String × Json)} {state : Json}
      (hstate : globalTree.member? "__state" = some state)
      (hset : Json.SetsMember "__state" state members changed) :
      CarriesState globalTree (.object members) (.object changed)
  | stateless {members : List (String × Json)} (hstate : globalTree.member? "__state" = none) :
      CarriesState globalTree (.object members) (.object members)
  | other {value : Json} (hvalue : ¬ value.isObject) : CarriesState globalTree value value

theorem carriesState_iff {globalTree value payload : Json} :
    CarriesState globalTree value payload ↔ payload = withState globalTree value := by
  constructor
  · intro h
    cases h with
    | stateful hstate hset => rw [withState, hstate, Json.setsMember_iff.mp hset]
    | stateless hstate => rw [withState, hstate]
    | other hvalue =>
      cases value with
      | object members => exact absurd rfl hvalue
      | _ => rfl
  · rintro rfl
    cases value with
    | object members =>
      rw [withState]
      cases hstate : globalTree.member? "__state" with
      | none => exact .stateless hstate
      | some state => exact .stateful hstate (Json.setsMember_iff.mpr rfl)
    | _ => exact .other Bool.false_ne_true

/-- What is submitted for an array or object is what evaluation to depth one gives, whatever the settings
of the evaluator: it fails if and only if evaluation does, with the same error, and otherwise is the
result, where an object carries the state of the application. -/
theorem submissionPayload_agrees {data : Json} (hdata : data.isComposite) (e : Evaluator)
    (ctx : BindingContext) :
    (∀ error,
      submissionPayload ctx (some data) = .error error ↔ e.evaluate ctx data 1 = .error error) ∧
    ∀ payload, submissionPayload ctx (some data) = .ok payload ↔
      ∃ result, e.evaluate ctx data 1 = .ok (some result) ∧
        CarriesState ctx.globalScope.tree result payload := by
  rw [evaluate_eq_evaluateData hdata, submissionPayload]
  cases evaluateData ctx data with
  | error error => simp [Except.map]
  | ok result => simp [Except.map, carriesState_iff, eq_comm]

/-- A member refers to data, one is the old state, one refers to nothing, and the last holds a reference in
an object of its own, which one pass leaves alone. The state is overwritten where it stands. The safety
limit is zero. -/
theorem submissionPayload_agrees_for_form :
    let ctx : BindingContext := .ofGlobal
      ⟨.object [("user", .string "Ann"), ("__state", .string "open")], "data"⟩
    let e : Evaluator := { safetyLimit := 0 }
    let row : Json := .object [("x", .string "~~.user")]
    let data : Json := .object [("by", .string "~~.user"), ("__state", .null),
      ("gone", .string "~~.guest"), ("row", row)]
    data.isComposite ∧
    e.evaluate ctx data 1 =
      .ok (some (.object [("by", .string "Ann"), ("__state", .null), ("row", row)])) ∧
    submissionPayload ctx (some data) =
      .ok (.object [("by", .string "Ann"), ("__state", .string "open"), ("row", row)]) := by
  intro ctx e row data
  have hdata : data.isComposite := rfl
  have hevaluate : e.evaluate ctx data 1 =
      .ok (some (.object [("by", .string "Ann"), ("__state", .null), ("row", row)])) := by
    rw [evaluate_eq_evaluateData hdata]
    rfl
  have hset : Json.SetsMember "__state" (.string "open")
      ([("by", .string "Ann")] ++ ("__state", .null) :: [("row", row)])
      ([("by", .string "Ann")] ++ ("__state", .string "open") :: [("row", row)]) :=
    .inPlace (by decide)
  obtain ⟨-, hpayload⟩ := submissionPayload_agrees hdata e ctx
  exact ⟨hdata, hevaluate, (hpayload _).mpr ⟨_, hevaluate, .stateful rfl hset⟩⟩

end DataBinding
