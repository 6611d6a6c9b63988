import DataBinding.DataPath
import DataBinding.Reference

/-!
# Evaluation

A scope is a tree with the absolute path of its root. A context is the pair of scopes in force at a
place: the local one of the nearest enclosing binding, and the global one of the store.

One pass over an array or object replaces each element or member by what it refers to. What comes
in may hold references again, so that a positive depth asks for as many passes, and a negative one
for passes until the safety limit. Data that refers to itself is cut off by the limit.

* `Json.walk`: the way down a tree by which a reference is looked up; it ends at the value at the path
  (`walk_eq_get?`).
* `BindingContext.lookup`: what a reference names, if it is there.
* `BindingContext.evaluateScalar`: a reference is replaced by what it names.
* `Evaluator.evaluate`: evaluation to a depth.
* `Evaluator.evaluateAttributes`: evaluation of a list of attributes, of which the set ones stay.
-/

namespace DataBinding

/-! ## Looking up -/

namespace Json

/-- Goes down a tree segment by segment, and gives up where a segment leads nowhere. -/
def walk : Json → List String → Option Json
  | node, [] => some node
  | .object members, segment :: segments => do walk (← members.lookup segment) segments
  | .array items, segment :: segments => do
    let index ← Text.arrayIndex? segment
    walk (← items[index]?) segments
  | _, _ :: _ => none

theorem walk_eq_get? (node : Json) (segments : List String) :
    node.walk segments = node.get? segments := by
  induction segments generalizing node with
  | nil => cases node <;> rfl
  | cons segment segments ih =>
    cases node with
    | object members =>
      change (members.lookup segment).bind (walk · segments) =
        (members.lookup segment).bind (get? · segments)
      exact congrArg _ (funext ih)
    | array items =>
      change ((Text.arrayIndex? segment).bind fun index =>
          items[index]?.bind (walk · segments)) =
        ((Text.arrayIndex? segment).bind (items[·]?)).bind (get? · segments)
      rw [Option.bind_assoc, funext ih]
    | _ => rfl

end Json

structure Scope where
  tree : Json
  path : String

structure BindingContext where
  localScope : Scope
  globalScope : Scope

namespace BindingContext

/-- The context in which the local scope is the global one. -/
def ofGlobal (scope : Scope) : BindingContext := ⟨scope, scope⟩

/-- The absolute path of a location, seen from the local scope. -/
def resolvePath (ctx : BindingContext) (location : String) : Except ReferenceError String :=
  Reference.resolveText ctx.localScope.path ctx.localScope.path ctx.globalScope.path location

/-- What a reference names. An ancestor is resolved to an absolute path, whose first segment is the
root of the global tree itself. -/
def lookup (ctx : BindingContext) : Reference → Except ReferenceError (Option Json)
  | .localRoot => .ok (some ctx.localScope.tree)
  | .globalRoot => .ok (some ctx.globalScope.tree)
  | .localPath rest => .ok (ctx.localScope.tree.walk (Dotted.split rest))
  | .globalPath rest => .ok (ctx.globalScope.tree.walk (Dotted.split rest))
  | reference@(.ancestor ..) =>
    (reference.resolve ctx.localScope.path ctx.localScope.path ctx.globalScope.path).map
      fun absolute => ctx.globalScope.tree.walk ((Dotted.split absolute).drop 1)

theorem lookup_localPath (ctx : BindingContext) (rest : String) :
    ctx.lookup (.localPath rest) = .ok (ctx.localScope.tree.get? (Dotted.split rest)) :=
  congrArg Except.ok (Json.walk_eq_get? _ _)

theorem lookup_globalPath (ctx : BindingContext) (rest : String) :
    ctx.lookup (.globalPath rest) = .ok (ctx.globalScope.tree.get? (Dotted.split rest)) :=
  congrArg Except.ok (Json.walk_eq_get? _ _)

theorem lookup_ancestor (ctx : BindingContext) (search : AncestorSearch) (key : String)
    (rest : Option String) :
    ctx.lookup (.ancestor search key rest) =
      ((Reference.ancestor search key rest).resolve ctx.localScope.path ctx.localScope.path
        ctx.globalScope.path).map
        fun absolute => ctx.globalScope.tree.get? ((Dotted.split absolute).drop 1) := by
  simp only [lookup, Json.walk_eq_get?]

/-- A reference is replaced by what it names, or by nothing if that is missing. A literal is itself. -/
def evaluateScalar (ctx : BindingContext) (value : Json) : Except ReferenceError (Option Json) :=
  match Reference.ofJson? value with
  | some reference => ctx.lookup reference
  | none => .ok (some value)

end BindingContext

/-! ## Passes -/

structure Evaluator where
  /-- The depth where none is given. -/
  defaultDepth : Int32 := 1
  /-- The largest number of passes. -/
  safetyLimit : UInt32 := 20
  deriving DecidableEq

/-- The elements, each replaced by its result; a missing one becomes `null`. -/
def evaluateItems (evaluate : Json → Except ReferenceError (Option Json)) :
    List Json → Except ReferenceError (List Json)
  | [] => .ok []
  | item :: items => do
    let result ← evaluate item
    let results ← evaluateItems evaluate items
    return result.getD .null :: results

/-- The members, each replaced by its result; a missing one is left out. -/
def evaluateMembers (evaluate : Json → Except ReferenceError (Option Json)) :
    List (String × Json) → Except ReferenceError (List (String × Json))
  | [] => .ok []
  | (name, value) :: members => do
    let result ← evaluate value
    let results ← evaluateMembers evaluate members
    return match result with
      | some value => (name, value) :: results
      | none => results

namespace Evaluator

/-- The largest positive depth that is honoured: at least one pass is always made. -/
def ceiling (e : Evaluator) : Int := max e.safetyLimit.toNat 1

/-- The depth at which evaluation without a bound stops. -/
def floor (e : Evaluator) : Int := -e.safetyLimit.toNat

/-- One pass at the given depth, and the passes below it. The depth counts down: from a positive
number to one, or from a negative number to the floor. -/
def passes (e : Evaluator) (ctx : BindingContext) (depth : Int) (value : Json) :
    Except ReferenceError (Option Json) :=
  if _hstop : depth = 0 ∨ depth ≤ e.floor then .ok (some value)
  else
    let evaluate (item : Json) : Except ReferenceError (Option Json) := do
      match ← ctx.evaluateScalar item with
      | some result =>
        if hmore : (1 < depth ∨ depth < 0) ∧ result.isComposite then
          passes e ctx (depth - 1) result
        else return some result
      | none => return none
    match value with
    | .array items => (evaluateItems evaluate items).map fun items => some (.array items)
    | .object members =>
      (evaluateMembers evaluate members).map fun members => some (.object members)
    | scalar => evaluate scalar
termination_by if 0 ≤ depth then depth.toNat else (depth - e.floor).toNat
decreasing_by
  have hfloor : e.floor ≤ 0 := by simp [floor]
  generalize e.floor = bound at *
  split <;> split <;> omega

/-- Evaluates to a depth: 0 leaves the value as it is, 1 makes one pass, and a negative depth goes on
to the safety limit. -/
def evaluate (e : Evaluator) (ctx : BindingContext) (value : Json) (depth : Int) :
    Except ReferenceError (Option Json) :=
  e.passes ctx (min depth e.ceiling) value

/-- The attributes evaluated to the default depth, without those whose result is not set. -/
def evaluateAttributes (e : Evaluator) (ctx : BindingContext) :
    List (String × Json) → Except ReferenceError (List (String × Json)) :=
  evaluateMembers fun value =>
    (e.evaluate ctx value e.defaultDepth.toInt).map fun result => result.filter Json.isTruthy

end Evaluator

end DataBinding
