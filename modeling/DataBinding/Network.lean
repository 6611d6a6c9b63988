import DataBinding.Store

/-!
# Requests, responses and sessions

A transport answers a request with a response or an error. Methods are sent in upper case. Processors see
every response before it is stored, one after the other. One that fails is skipped, and the next
receives the last good value.

A session sends its headers with every request and lets one submission run at a time. The latch that
sees to that changes in single steps, which tasks may interleave: to begin is to take the latch and
then to set the silent flag if asked to; to finish is to clear the flag if it was set and then to
free the latch.

* `NameMap`: a map with its entries in the order of their names, which is the order of code points.
* `alterData`: the body of a response after all processors.
* `Latch.begin?`, `Latch.finish`: both steps of each at once.
-/

namespace DataBinding

/-! ## Maps keyed by name -/

structure NameMap (α : Type) where
  entries : List (String × α) := []

namespace NameMap

variable {α : Type}

/-- The entries with `name` set to `value`, in order. -/
def insertEntry (name : String) (value : α) : List (String × α) → List (String × α)
  | [] => [(name, value)]
  | (other, old) :: rest =>
    if name = other then (name, value) :: rest
    else if name < other then (name, value) :: (other, old) :: rest
    else (other, old) :: insertEntry name value rest

def insert (m : NameMap α) (name : String) (value : α) : NameMap α :=
  ⟨insertEntry name value m.entries⟩

def get? (m : NameMap α) (name : String) : Option α := m.entries.lookup name

def names (m : NameMap α) : List String := m.entries.map Prod.fst

def size (m : NameMap α) : Nat := m.entries.length

def isEmpty (m : NameMap α) : Bool := m.entries.isEmpty

end NameMap

/-! ## Requests and responses -/

abbrev Headers := NameMap String

structure Request where
  method : String
  url : String
  headers : Headers := {}
  body : Option Json := none

structure Response where
  status : Nat := 200
  headers : Headers := {}
  body : Json := .null

/-- Sends a request and waits for its answer. -/
abbrev Transport := Request → Except BindingError Response

/-- A method in upper case, ASCII letters only. -/
def Request.methodName (method : String) : String :=
  String.ofList (method.toList.map Char.toUpper)

/-! ## Processors -/

/-- What a processor may look at besides the value it transforms. -/
structure ProcessorInput where
  request : Request
  /-- The response as it came in. -/
  response : Response
  /-- The value before the first processor. -/
  unprocessed : Json

structure Processor where
  id : String
  process : ProcessorInput → Json → Except BindingError Json

/-- The value after one processor more. -/
def Processor.step (input : ProcessorInput) (data : Json) (p : Processor) : Json :=
  match p.process input data with
  | .ok next => next
  | .error _ => data

/-- The body of a response after all processors. Of a whole document only the `data` member is
processed, and it is written back if the document is an object. Without processors the body stays as
it is. -/
def alterData (request : Request) (response : Response) (body : Json) (isDocument : Bool)
    (processors : List Processor) : Json :=
  if processors.isEmpty then body
  else
    let unprocessed := if isDocument then (body.member? "data").getD .null else body
    let input : ProcessorInput := { request, response, unprocessed }
    let processed := processors.foldl (Processor.step input) unprocessed
    match isDocument, body with
    | true, .object members => .object (Json.insertMember "data" processed members)
    | true, _ => body
    | false, _ => processed

/-! ## Sessions -/

structure Latch where
  submitting : Bool := false
  silent : Bool := false
  deriving DecidableEq

/-- What the holder of a latch keeps until it finishes. -/
structure Guard where
  /-- Whether the silent flag was set when the submission began. -/
  clearsSilent : Bool
  deriving DecidableEq

namespace Latch

/-! ### Single steps -/

/-- Takes the latch if it is free. -/
def take? (l : Latch) : Option Latch :=
  if l.submitting then none else some { l with submitting := true }

def setSilent (l : Latch) (silent : Bool) : Latch := { l with silent }

def free (l : Latch) : Latch := { l with submitting := false }

/-! ### Submissions -/

/-- Begins a submission, unless one is running. A given `silent` becomes the silent flag for as long
as the submission runs. -/
def begin? (l : Latch) (silent : Option Bool) : Option (Guard × Latch) :=
  match l.take? with
  | none => none
  | some taken =>
    match silent with
    | some silent => some (⟨true⟩, taken.setSilent silent)
    | none => some (⟨false⟩, taken)

def finish (l : Latch) (guard : Guard) : Latch :=
  (if guard.clearsSilent then l.setSilent false else l).free

end Latch

structure Session where
  headers : Headers := {}
  latch : Latch := {}

/-- The session with one more header, and the same latch. -/
def Session.withHeader (s : Session) (name value : String) : Session :=
  { s with headers := s.headers.insert name value }

end DataBinding
