import DataBinding.Json.Record
import DataBinding.Nested.Target
import DataBinding.Network

/-!
# Mappings

A mapping configuration is an object whose members name mapping processors and configure them. A
registry holds the processors that can be named, of which one is always there.

That one carries out simple mappings. A simple mapping lists destinations, each with the location in a
response that goes there. All its writes are planned before the first is made, from the data as it was
before. If a required source is missing, no write of the list is made, and the mapping for errors, whose
sources are references into the data, takes its place.

* `SimpleMapping.retrieve`: the value at a location of a response (`retrieve_eq`).
* `SimpleMapping.plan`: the writes of a mapping.
* `SimpleMapping.apply`: planning and writing.
* `MappingRegistry.applyMapping`: every processor that a configuration names, in order.
-/

namespace DataBinding

/-! ## Simple mappings -/

/-- What goes to one destination. -/
structure MappingItem where
  /-- The location of the source. -/
  value : Option String
  required : Bool
  /-- What is written in place of a missing source that is not required. -/
  defaultValue : Option Json
  updateMode : Option String

def MappingItem.ofJson? (value : Json) : Option MappingItem := do
  let fields ← value.fields? ["value", "required", "defaultValue", "updateMode"]
  return {
    value := ← Json.field? fields "value" none (Json.nullable Json.string?)
    required := ← Json.field? fields "required" true Json.bool?
    defaultValue := fields.lookup "defaultValue"
    updateMode := ← Json.field? fields "updateMode" none (Json.nullable Json.string?) }

/-- A write at an absolute path that has been planned and not yet made. -/
structure PlannedWrite where
  path : String
  value : Option Json
  mode : UpdateMode

structure SimpleMapping where
  /-- Destinations with sources in the response. -/
  stringMap : List (String × Json) := []
  /-- Destinations with sources in the data, for when a required source is missing. -/
  onErrorMap : Option (List (String × Json)) := none

/-- Whether an absolute path is `root` or lies below it. -/
def isUnderRoot (path root : String) : Bool :=
  path == root || (root.toList ++ ['.']).isPrefixOf path.toList

namespace SimpleMapping

def ofJson? (value : Json) : Option SimpleMapping := do
  let fields ← value.fields? ["stringMap", "onErrorMap"]
  return {
    stringMap := ← Json.field? fields "stringMap" [] Json.members?
    onErrorMap := ← Json.field? fields "onErrorMap" none (Json.nullable Json.members?) }

/-! ### Sources -/

/-- One segment further on the way to a location of a response. -/
def descend (location : String) (current : Json) (segment : String) : Except BindingError Json :=
  let next :=
    match current with
    | .object members => members.lookup segment
    | .array items => (Text.arrayIndex? segment).bind fun index => items[index]?
    | _ => none
  match next with
  | some value => .ok value
  | none => .error (.requiredValueMissing location)

/-- The value at a dotted location of a response. -/
def retrieve (response : Json) (location : String) : Except BindingError Json :=
  if location.isEmpty then .error .emptyLocation
  else (Dotted.split location).foldlM (descend location) response

theorem descend_eq (location : String) (current : Json) (segment : String) :
    descend location current segment =
      match current.child? segment with
      | some value => .ok value
      | none => .error (.requiredValueMissing location) := by
  cases current <;> rfl

/-- The way down a response ends at the value at the path, and all that is wrong with a way that ends
before is that the location is missing. -/
theorem foldlM_descend (location : String) (current : Json) (segments : List String) :
    segments.foldlM (descend location) current =
      match current.get? segments with
      | some value => .ok value
      | none => .error (.requiredValueMissing location) := by
  induction segments generalizing current with
  | nil => rfl
  | cons segment segments ih =>
    rw [List.foldlM_cons, descend_eq, Json.get?]
    cases current.child? segment with
    | none => rfl
    | some child => exact ih child

theorem retrieve_eq {location : String} (h : location ≠ "") (response : Json) :
    retrieve response location =
      match response.get? (Dotted.split location) with
      | some value => .ok value
      | none => .error (.requiredValueMissing location) := by
  rw [retrieve, if_neg (by simpa using h), foldlM_descend]

/-- A source in the response: a location that is not there is an error. -/
def fromResponse (response : Json) (location : String) : Except BindingError (Option Json) :=
  (retrieve response location).map some

/-- A source in the data: a reference that names nothing has no value, which is no error. -/
def fromData (ctx : BindingContext) (evaluator : Evaluator) (location : String) :
    Except BindingError (Option Json) :=
  liftReference (evaluator.evaluate ctx (.string location) (-1))

/-! ### Planning -/

/-- The write of one destination. An item that is malformed, has an unknown mode or no location, or
whose destination lies outside of the data, is left out. -/
def planItem (source : String → Except BindingError (Option Json)) (ctx : BindingContext)
    (evaluator : Evaluator) (destination : String) (item : Json) :
    Except BindingError (Option PlannedWrite) :=
  match MappingItem.ofJson? item with
  | none => .ok none
  | some item =>
    match UpdateMode.named? (item.updateMode.getD ""), item.value.filter (!·.isEmpty) with
    | some mode, some location => do
      let path ← liftReference (ctx.resolvePath destination)
      if !isUnderRoot path ctx.globalScope.path then return none
      match source location with
      | .ok value => return some { path, value, mode }
      | .error _ =>
        if item.required then .error (.requiredValueMissing location)
        else
          match item.defaultValue with
          | some standard =>
            let value ← liftReference (evaluator.evaluate ctx standard (-1))
            return some { path, value, mode }
          | none => return none
    | _, _ => .ok none

/-- The writes of a list of destinations, in order, or the first error. -/
def plan (source : String → Except BindingError (Option Json)) (ctx : BindingContext)
    (evaluator : Evaluator) : List (String × Json) → Except BindingError (List PlannedWrite)
  | [] => .ok []
  | (destination, item) :: rest => do
    let write ← planItem source ctx evaluator destination item
    let writes ← plan source ctx evaluator rest
    return write.toList ++ writes

/-- The writes of a mapping: those for errors if planning the others failed. -/
def planAll (m : SimpleMapping) (response : Json) (ctx : BindingContext) (evaluator : Evaluator) :
    Except BindingError (List PlannedWrite) :=
  match plan (fromResponse response) ctx evaluator m.stringMap with
  | .ok writes => .ok writes
  | .error error =>
    match m.onErrorMap with
    | some destinations => plan (fromData ctx evaluator) ctx evaluator destinations
    | none => .error error

/-! ### Writing -/

/-- Makes planned writes in order, up to the first that the target refuses. -/
def writeAll : List PlannedWrite → Target → Except BindingError Unit × Target
  | [], target => (.ok (), target)
  | write :: writes, target =>
    match target.updateAbsolute write.path write.value write.mode with
    | (.error error, target) => (.error (.store error), target)
    | (.ok _, target) => writeAll writes target

/-- Plans and writes. -/
def apply (m : SimpleMapping) (response : Json) (ctx : BindingContext) (evaluator : Evaluator)
    (target : Target) : Except BindingError Unit × Target :=
  match m.planAll response ctx evaluator with
  | .error error => (.error error, target)
  | .ok writes => writeAll writes target

end SimpleMapping

/-! ## Mapping processors -/

/-- Writes data of a response to a target, as its configuration says. -/
abbrev MappingProcessor :=
  (config response : Json) → BindingContext → Evaluator → Target →
    Except BindingError Unit × Target

/-- The name of the processor of simple mappings. -/
def simpleMappingName : String := "simpleMapping"

/-- The processor of simple mappings. -/
def simpleMapping : MappingProcessor := fun config response ctx evaluator target =>
  match SimpleMapping.ofJson? config with
  | some mapping => mapping.apply response ctx evaluator target
  | none => (.error (.processorFailed simpleMappingName "invalid configuration"), target)

abbrev MappingRegistry := NameMap MappingProcessor

/-- A processor was registered under a name that is taken. -/
structure IdConflict where
  id : String
  deriving DecidableEq

def IdConflict.message (conflict : IdConflict) : String :=
  "mapping processor already registered: " ++ conflict.id

namespace MappingRegistry

/-- The registry of the processors that are always there. -/
def builtin : MappingRegistry := ⟨[(simpleMappingName, simpleMapping)]⟩

/-- Adds a processor under a name that is not taken yet. -/
def register (r : MappingRegistry) (id : String) (p : MappingProcessor) :
    Except IdConflict MappingRegistry :=
  match r.get? id with
  | some _ => .error ⟨id⟩
  | none => .ok (r.insert id p)

/-- Runs the processors that the members of a configuration name. Unknown names are passed over, and
one that fails does not keep the others from running. Counts those that completed. -/
def applyMembers (r : MappingRegistry) (response : Json) (ctx : BindingContext)
    (evaluator : Evaluator) : List (String × Json) → Target → Nat × Target
  | [], target => (0, target)
  | (name, config) :: members, target =>
    match r.get? name with
    | none => r.applyMembers response ctx evaluator members target
    | some processor =>
      let (result, target) := processor config response ctx evaluator target
      let (completed, target) := r.applyMembers response ctx evaluator members target
      (if result.isOk then completed + 1 else completed, target)

/-- Runs every processor that a configuration names. Only objects name any. -/
def applyMapping (r : MappingRegistry) (mapping response : Json) (ctx : BindingContext)
    (evaluator : Evaluator) (target : Target) : Nat × Target :=
  match mapping with
  | .object members => r.applyMembers response ctx evaluator members target
  | _ => (0, target)

end MappingRegistry

end DataBinding
