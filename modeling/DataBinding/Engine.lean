import DataBinding.Mapping

/-!
# Engines and running applications

An engine holds the services that do not change while an application runs, and its settings, which are
read from records in which every field has a default, and written in full. What does change is the
target, the session, and the requests sent so far.

* `EngineSettings.ofText?`, `EngineSettings.ofJson?`, `EngineSettings.toJson`: the written form of settings.
* `AppState.send`: sends a request with the headers of the session.
-/

namespace DataBinding

/-! ## Settings as data -/

namespace Evaluator

def ofJson? (value : Json) : Option Evaluator := do
  let fields ← value.fields? ["defaultDepth", "recursionSafetyLimit"]
  return {
    defaultDepth := ← Json.field? fields "defaultDepth" 1 Json.int32?
    safetyLimit := ← Json.field? fields "recursionSafetyLimit" 20 Json.uint32? }

def toJson (e : Evaluator) : Json :=
  .object [
    ("defaultDepth", .number (.ofInt32 e.defaultDepth)),
    ("recursionSafetyLimit", .number (.ofUInt32 e.safetyLimit))]

end Evaluator

namespace StoreSettings

def ofJson? (value : Json) : Option StoreSettings := do
  let fields ← value.fields? ["revisionWrap", "referenceScanDepth", "rootSegment"]
  let standard : StoreSettings := {}
  return {
    revisionWrap := ← Json.field? fields "revisionWrap" standard.revisionWrap Json.uint64?
    referenceScanDepth :=
      ← Json.field? fields "referenceScanDepth" standard.referenceScanDepth Json.uint64?
    rootSegment := ← Json.field? fields "rootSegment" standard.rootSegment Json.string? }

def toJson (s : StoreSettings) : Json :=
  .object [
    ("revisionWrap", .number (.ofUInt64 s.revisionWrap)),
    ("referenceScanDepth", .number (.ofUInt64 s.referenceScanDepth)),
    ("rootSegment", .string s.rootSegment)]

end StoreSettings

/-- The settings of an engine: evaluation and stores. -/
structure EngineSettings where
  evaluator : Evaluator := {}
  store : StoreSettings := {}
  deriving DecidableEq

namespace EngineSettings

def ofJson? (value : Json) : Option EngineSettings := do
  let fields ← value.fields? ["template", "store"]
  return {
    evaluator := ← Json.field? fields "template" {} Evaluator.ofJson?
    store := ← Json.field? fields "store" {} StoreSettings.ofJson? }

def toJson (s : EngineSettings) : Json :=
  .object [("template", s.evaluator.toJson), ("store", s.store.toJson)]

def shape : Shape :=
  .record [
    ("template", .record [("defaultDepth", .any), ("recursionSafetyLimit", .any)]),
    ("store",
      .record [("revisionWrap", .any), ("referenceScanDepth", .any), ("rootSegment", .any)])]

def ofText? (text : String) : Option EngineSettings :=
  (shape.read? text).bind ofJson?

end EngineSettings

/-! ## Engines -/

structure Engine where
  transport : Transport
  processors : List Processor := []
  mappings : MappingRegistry := .builtin
  settings : EngineSettings := {}

def Engine.evaluator (e : Engine) : Evaluator := e.settings.evaluator

/-- A request that was sent, with the latch as it was at that moment. -/
structure SentRequest where
  request : Request
  latch : Latch

structure AppState where
  target : Target
  session : Session := {}
  /-- The requests so far, the first one first. -/
  sent : List SentRequest := []

namespace AppState

/-- The request of this session for a method and a URL. -/
def request (s : AppState) (method url : String) (body : Option Json) : Request :=
  { method := Request.methodName method, url, headers := s.session.headers, body }

def send (s : AppState) (transport : Transport) (request : Request) :
    Except BindingError Response × AppState :=
  (transport request, { s with sent := s.sent ++ [⟨request, s.session.latch⟩] })

def withLatch (s : AppState) (latch : Latch) : AppState :=
  { s with session := { s.session with latch } }

end AppState

end DataBinding
