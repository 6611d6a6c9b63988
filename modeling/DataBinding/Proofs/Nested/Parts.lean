import DataBinding.Proofs.Nested.Projection
import DataBinding.Proofs.Nested.References

/-!
# The parts of an override

An override is projected in one pass: its elements or members, or the override itself if it is a
scalar, are evaluated, and nothing deeper is. So a reference right below the root is replaced by what it
refers to, while one further down is projected as its own text.

* `lookup_evaluateMembers`, `getElem?_evaluateItems`: what a pass makes of one part.
* `Json.inPlace`: what stands for a part that evaluates to something or to nothing.
* `Layer.child?_project`, `Layer.get?_project`: the parts of an override and what is below them.
-/

namespace DataBinding

/-! ## One part of a pass -/

theorem lookup_evaluateMembers {evaluate : Json → Except ReferenceError (Option Json)}
    {members results : List (String × Json)} (hnames : (members.map Prod.fst).Nodup)
    (h : evaluateMembers evaluate members = .ok results) (name : String) :
    (members.lookup name).elim (.ok none) evaluate = .ok (results.lookup name) := by
  induction members generalizing results with
  | nil =>
    cases h
    rfl
  | cons member members ih =>
    obtain ⟨other, old⟩ := member
    rw [List.map_cons, List.nodup_cons] at hnames
    rw [evaluateMembers] at h
    cases hold : evaluate old with
    | error error =>
      rw [hold] at h
      cases h
    | ok result =>
      cases hrest : evaluateMembers evaluate members with
      | error error =>
        rw [hold, hrest] at h
        cases h
      | ok rest =>
        rw [hold, hrest] at h
        cases h
        have hlater := ih hnames.2 hrest
        rw [Json.lookup_cons_eq_ite]
        by_cases hname : name = other
        · subst hname
          rw [if_pos rfl, Option.elim_some, hold]
          cases result with
          | some value =>
            rw [Json.lookup_cons_eq_ite, if_pos rfl]
          | none =>
            -- Among the other members the name does not occur again.
            cases hagain : members.lookup name with
            | none =>
              rw [hagain] at hlater
              exact hlater
            | some value =>
              have hmem := List.mem_map_of_mem (f := Prod.fst) (Json.mem_of_lookup hagain)
              exact absurd hmem hnames.1
        · rw [if_neg hname, hlater]
          cases result with
          | some value => rw [Json.lookup_cons_eq_ite, if_neg hname]
          | none => rfl

theorem getElem?_evaluateItems {evaluate : Json → Except ReferenceError (Option Json)}
    {items results : List Json} (h : evaluateItems evaluate items = .ok results) {index : Nat}
    {item : Json} (hitem : items[index]? = some item) :
    ∃ found, evaluate item = .ok found ∧ results[index]? = some (found.getD .null) := by
  induction items generalizing results index with
  | nil => cases hitem
  | cons first items ih =>
    rw [evaluateItems] at h
    cases hfirst : evaluate first with
    | error error =>
      rw [hfirst] at h
      cases h
    | ok result =>
      cases hrest : evaluateItems evaluate items with
      | error error =>
        rw [hfirst, hrest] at h
        cases h
      | ok rest =>
        rw [hfirst, hrest] at h
        cases h
        cases index with
        | zero =>
          cases hitem
          exact ⟨result, hfirst, rfl⟩
        | succ index => exact ih hrest hitem

namespace Layer

variable {anchor : String} {parent : Scope}

theorem project_object (members : List (String × Json)) (anchor : String) (parent : Scope) :
    project (.object members) anchor parent =
      (evaluateMembers (parent.contextAt anchor).evaluateScalar members).map .object := by
  rw [project_eq_boundedPasses, evaluateMembers_eq, except_map_map, BindingContext.boundedPasses,
    except_map_map]
  simp only [BindingContext.evaluateThen_zero]
  rfl

theorem project_array (items : List Json) (anchor : String) (parent : Scope) :
    project (.array items) anchor parent =
      (evaluateItems (parent.contextAt anchor).evaluateScalar items).map .array := by
  rw [project_eq_boundedPasses, evaluateItems_eq, except_map_map, BindingContext.boundedPasses,
    except_map_map, funext (BindingContext.evaluateThen_zero _)]
  rfl

end Layer

theorem BindingContext.evaluateScalar_of_isComposite (ctx : BindingContext) {value : Json}
    (h : value.isComposite) : ctx.evaluateScalar value = .ok (some value) := by
  cases value with
  | array items => rfl
  | object members => rfl
  | _ => cases h

/-- What stands for a part of a value in a pass: an object leaves a missing member out, elsewhere
`null` takes its place. -/
def Json.inPlace (whole : Json) (found : Option Json) : Option Json :=
  if whole.isObject then found else some (found.getD .null)

namespace Layer

variable {dataOverride projected : Json} {anchor : String} {parent : Scope}

/-- A part of the override is evaluated in its place. -/
theorem child?_project (hoverride : dataOverride.IsWellFormed)
    (h : project dataOverride anchor parent = .ok projected) {segment : String} {part : Json}
    (hpart : dataOverride.child? segment = some part) :
    ∃ found, (parent.contextAt anchor).evaluateScalar part = .ok found ∧
      projected.child? segment = dataOverride.inPlace found := by
  cases dataOverride with
  | object members =>
    cases hoverride with
    | scalar hscalar => cases hscalar
    | object hnames _ =>
      rw [project_object] at h
      obtain ⟨results, hresults, rfl⟩ := except_map_eq_ok h
      have hlookup := lookup_evaluateMembers hnames hresults segment
      have hmember : members.lookup segment = some part := hpart
      rw [hmember] at hlookup
      exact ⟨results.lookup segment, hlookup, rfl⟩
  | array items =>
    rw [project_array] at h
    obtain ⟨results, hresults, rfl⟩ := except_map_eq_ok h
    obtain ⟨index, hindex, hitem⟩ := Option.bind_eq_some_iff.mp hpart
    obtain ⟨found, hfound, hresult⟩ := getElem?_evaluateItems hresults hitem
    refine ⟨found, hfound, ?_⟩
    rw [Json.child?, hindex]
    exact hresult
  | _ => cases hpart

/-- What is deeper in the override is projected as it is. -/
theorem get?_project (hoverride : dataOverride.IsWellFormed)
    (h : project dataOverride anchor parent = .ok projected) {segments : List String}
    (hdeep : 1 < segments.length) {value : Json} (hvalue : dataOverride.get? segments = some value) :
    projected.get? segments = some value := by
  match segments, hdeep with
  | segment :: next :: rest, _ =>
    obtain ⟨part, hpart, hbelow⟩ := Option.bind_eq_some_iff.mp hvalue
    have hcomposite : part.isComposite := by
      obtain ⟨child, hchild, -⟩ := Option.bind_eq_some_iff.mp hbelow
      cases hpart' : part.isComposite with
      | true => rfl
      | false =>
        rw [Json.child?_of_not_isComposite hpart'] at hchild
        cases hchild
    obtain ⟨found, hfound, hplaced⟩ := child?_project hoverride h hpart
    rw [BindingContext.evaluateScalar_of_isComposite _ hcomposite] at hfound
    cases hfound
    have hsame : projected.child? segment = some part := by
      rw [hplaced, Json.inPlace]
      exact ite_self _
    rw [Json.get?, hsame]
    exact hbelow

end Layer

end DataBinding
