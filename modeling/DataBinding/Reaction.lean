import DataBinding.Evaluation
import DataBinding.Json.Record
import DataBinding.Nested.Target
import DataBinding.Store

/-!
# Reactions

A reaction is a write that an event triggers. Its path is resolved from the local scope, its payload is
evaluated to the default depth, and the write goes to a target. A reaction without a path does
nothing.

* `Reaction.apply`: one reaction.
* `dispatchReactions`: several in order, each for itself.
* `Reaction.ofJson?`, `Reaction.toJson`: the written form, tagged by `what`.
-/

namespace DataBinding

/-- A payload that is absent differs from one that is `null`. -/
inductive Reaction where
  | setData (path : Option String) (value : Option Json)
  | addData (path : Option String) (value : Option Json)
  | removeData (path : Option String)
  | moveData (path : Option String) (increment : Option Json)

namespace Reaction

def name : Reaction → String
  | .setData .. => "setData"
  | .addData .. => "addData"
  | .removeData .. => "removeData"
  | .moveData .. => "moveData"

/-! ## Effect -/

/-- The payload, evaluated to the default depth. -/
def evaluatePayload (ctx : BindingContext) (evaluator : Evaluator) :
    Option Json → Except BindingError (Option Json)
  | some value =>
    liftReference (evaluator.evaluate ctx value evaluator.defaultDepth.toInt)
  | none => .ok none

/-- Writes at a location, if there is one. -/
def write (ctx : BindingContext) (path : Option String) (value : Option Json) (mode : UpdateMode)
    (target : Target) : Except BindingError UpdateOutcome × Target :=
  match path with
  | none => (.ok .unchanged, target)
  | some location =>
    match ctx.resolvePath location with
    | .error error => (.error (.reference error), target)
    | .ok absolute =>
      let (outcome, target) := target.updateAbsolute absolute value mode
      (liftStore outcome, target)

/-- The path, the evaluated payload and the mode of the write of a reaction. A move carries its
increment in an object. -/
def plan (ctx : BindingContext) (evaluator : Evaluator) :
    Reaction → Except BindingError (Option String × Option Json × UpdateMode)
  | .setData path value => do
    return (path, ← evaluatePayload ctx evaluator value, .replace)
  | .addData path value => do
    return (path, ← evaluatePayload ctx evaluator value, .add)
  | .removeData path => .ok (path, none, .remove)
  | .moveData path increment => do
    let increment ← evaluatePayload ctx evaluator increment
    return (path, increment.map fun increment => .object [("increment", increment)], .move)

def apply (r : Reaction) (ctx : BindingContext) (evaluator : Evaluator) (target : Target) :
    Except BindingError UpdateOutcome × Target :=
  match r.plan ctx evaluator with
  | .error error => (.error error, target)
  | .ok (path, value, mode) => write ctx path value mode target

/-! ## Written form -/

/-- A reaction of a kind from its fields. -/
def ofFields? (kind : String) (fields : List (String × Json)) : Option Reaction := do
  let path ← Json.field? fields "path" none (Json.nullable Json.string?)
  match kind with
  | "setData" => return .setData path (fields.lookup "value")
  | "addData" => return .addData path (fields.lookup "value")
  | "removeData" => return .removeData path
  | "moveData" =>
    return .moveData path (← Json.field? fields "increment" none (Json.nullable some))
  | _ => none

def fieldNames : String → List String
  | "setData" | "addData" => ["path", "value"]
  | "removeData" => ["path"]
  | "moveData" => ["path", "increment"]
  | _ => []

/-- Reads a reaction from an object with a member `what`, or from an array that starts with the kind.
-/
def ofJson? : Json → Option Reaction
  | .object members => do
    let kind ← (← members.lookup "what").string?
    ofFields? kind members
  | .array (kind :: items) => do
    let kind ← kind.string?
    ofFields? kind (← (Json.array items).fields? (fieldNames kind))
  | _ => none

def toJson (r : Reaction) : Json :=
  let path := Json.ofNullable Json.string
  .object (("what", .string r.name) ::
    match r with
    | .setData location value | .addData location value =>
      ("path", path location) :: Json.optionalMember "value" value
    | .removeData location => [("path", path location)]
    | .moveData location increment =>
      ("path", path location) :: Json.optionalMember "increment" increment)

end Reaction

/-- Carries out reactions in order. One that fails does not keep the others from running. -/
def dispatchReactions (ctx : BindingContext) (evaluator : Evaluator) :
    List Reaction → Target → List (Except BindingError UpdateOutcome) × Target
  | [], target => ([], target)
  | reaction :: reactions, target =>
    let (outcome, target) := reaction.apply ctx evaluator target
    let (outcomes, target) := dispatchReactions ctx evaluator reactions target
    (outcome :: outcomes, target)

end DataBinding
