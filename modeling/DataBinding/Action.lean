import DataBinding.Engine

/-!
# Network actions

Two actions exchange data with a server: one fetches, the other submits. Both take the latch of the
session, evaluate the URL, send one request, and use the response as their arguments say. The latch
is free again however they end.

* `ActionArgs.fetch`, `ActionArgs.submit`: the actions.
* `submissionPayload`: what is submitted.
-/

namespace DataBinding

structure ActionArgs where
  /-- The URL, or a reference to it. -/
  url : Option Json := none
  httpMethod : Option String := none
  /-- Whether the response is used at all; it is if nothing is said. -/
  refreshAppOnResponse : Option Bool := none
  /-- Whether the response is data and not a whole document. -/
  updateOnlyData : Bool := false
  /-- Where response data goes; it replaces the root if nothing is said. -/
  updateDataAtLocation : Option String := none
  submitSilently : Option Bool := none
  /-- The payload to submit. One that is `null` differs from none. -/
  data : Option Json := none

inductive ActionOutcome where
  /-- Another action holds the latch. -/
  | skipped
  | missingUrl
  /-- The response was not used. -/
  | ignored
  | dataUpdated (outcome : UpdateOutcome)
  /-- The response is a document to load. -/
  | reload (document : Json)

/-! ## Payload -/

/-- Evaluates the parts of a payload once. A missing element becomes `null`, a missing member is left
out, and a scalar that is not set becomes `null`. -/
def evaluateData (ctx : BindingContext) : Json → Except ReferenceError Json
  | .array items =>
    (items.mapM fun item => (ctx.evaluateScalar item).map (·.getD .null)).map .array
  | .object members =>
    (members.filterMapM fun member =>
      (ctx.evaluateScalar member.2).map fun result =>
        result.map fun value => (member.1, value)).map .object
  | scalar =>
    (ctx.evaluateScalar scalar).map fun value => (value.filter Json.isTruthy).getD .null

/-- A payload with the state of the application, if there is one and the payload can hold it. -/
def withState (globalTree : Json) : Json → Json
  | .object members =>
    match globalTree.member? "__state" with
    | some state => .object (Json.insertMember "__state" state members)
    | none => .object members
  | payload => payload

/-- What is submitted: the whole data if none are given. -/
def submissionPayload (ctx : BindingContext) : Option Json → Except ReferenceError Json
  | none => .ok (.object [("data", ctx.globalScope.tree)])
  | some data => (evaluateData ctx data).map (withState ctx.globalScope.tree)

namespace ActionArgs

/-! ## Written form -/

def ofJson? (value : Json) : Option ActionArgs := do
  let fields ← value.fields? ["url", "httpMethod", "refreshAppOnResponse", "updateOnlyData",
    "updateDataAtLocation", "submitSilently", "data"]
  return {
    url := ← Json.field? fields "url" none (Json.nullable some)
    httpMethod := ← Json.field? fields "httpMethod" none (Json.nullable Json.string?)
    refreshAppOnResponse :=
      ← Json.field? fields "refreshAppOnResponse" none (Json.nullable Json.bool?)
    updateOnlyData := ← Json.field? fields "updateOnlyData" false Json.bool?
    updateDataAtLocation :=
      ← Json.field? fields "updateDataAtLocation" none (Json.nullable Json.string?)
    submitSilently := ← Json.field? fields "submitSilently" none (Json.nullable Json.bool?)
    data := fields.lookup "data" }

def toJson (a : ActionArgs) : Json :=
  .object ([
    ("url", Json.ofNullable id a.url),
    ("httpMethod", Json.ofNullable .string a.httpMethod),
    ("refreshAppOnResponse", Json.ofNullable .bool a.refreshAppOnResponse),
    ("updateOnlyData", .bool a.updateOnlyData),
    ("updateDataAtLocation", Json.ofNullable .string a.updateDataAtLocation),
    ("submitSilently", Json.ofNullable .bool a.submitSilently)] ++
    Json.optionalMember "data" a.data)

/-! ## Exchange -/

/-- The URL that the arguments evaluate to. Only a text that is not empty is one. -/
def targetUrl (a : ActionArgs) (ctx : BindingContext) : Except ReferenceError (Option String) :=
  match a.url with
  | none => .ok none
  | some url =>
    (ctx.evaluateScalar url).map fun value => (value.bind Json.string?).filter (!·.isEmpty)

/-- Uses a response. A location that does not lie in the data is passed over. -/
def useResponse (a : ActionArgs) (engine : Engine) (ctx : BindingContext) (request : Request)
    (response : Response) (target : Target) : Except BindingError ActionOutcome × Target :=
  let updated (result : Except StoreError UpdateOutcome × Target) :=
    ((liftStore result.1).map ActionOutcome.dataUpdated, result.2)
  if !a.refreshAppOnResponse.getD true then (.ok .ignored, target)
  else
    let altered :=
      alterData request response response.body (!a.updateOnlyData) engine.processors
    if !a.updateOnlyData then (.ok (.reload altered), target)
    else
      match a.updateDataAtLocation with
      | none => updated (target.replaceRoot altered)
      | some location =>
        match ctx.resolvePath location with
        | .error error => (.error (.reference error), target)
        | .ok path =>
          if !isUnderRoot path ctx.globalScope.path then (.ok .ignored, target)
          else if path = ctx.globalScope.path then updated (target.replaceRoot altered)
          else updated (target.updateAbsolute path (some altered) .replace)

/-- Sends the request of an action that holds the latch, and uses the response. -/
def exchange (a : ActionArgs) (engine : Engine) (method : String) (body : Option Json)
    (ctx : BindingContext) (state : AppState) : Except BindingError ActionOutcome × AppState :=
  match a.targetUrl ctx with
  | .error error => (.error (.reference error), state)
  | .ok none => (.ok .missingUrl, state)
  | .ok (some url) =>
    let request := state.request method url body
    match state.send engine.transport request with
    | (.error error, state) => (.error error, state)
    | (.ok response, state) =>
      let (outcome, target) := a.useResponse engine ctx request response state.target
      (outcome, { state with target })

/-- Runs an exchange under the latch of the session. -/
def execute (a : ActionArgs) (engine : Engine) (method : String) (body : Option Json)
    (silent : Option Bool) (ctx : BindingContext) (state : AppState) :
    Except BindingError ActionOutcome × AppState :=
  match state.session.latch.begin? silent with
  | none => (.ok .skipped, state)
  | some (guard, latch) =>
    let (outcome, state) := a.exchange engine method body ctx (state.withLatch latch)
    (outcome, state.withLatch (state.session.latch.finish guard))

/-- Fetches data, by GET if no method is given. -/
def fetch (a : ActionArgs) (engine : Engine) (ctx : BindingContext) (state : AppState) :
    Except BindingError ActionOutcome × AppState :=
  a.execute engine (a.httpMethod.getD "get") none none ctx state

/-- Submits data, by POST if no method is given. -/
def submit (a : ActionArgs) (engine : Engine) (ctx : BindingContext) (state : AppState) :
    Except BindingError ActionOutcome × AppState :=
  match submissionPayload ctx a.data with
  | .error error => (.error (.reference error), state)
  | .ok payload =>
    a.execute engine (a.httpMethod.getD "post") (some payload) a.submitSilently ctx state

end ActionArgs

end DataBinding
