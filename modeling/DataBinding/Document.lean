import DataBinding.Engine

/-!
# Documents

A document is what an application is loaded from: views, templates, data, and further sources of
data, which are fetched once it is loaded. What a source delivers goes where its mapping or its path
says, or else is merged into the root member by member.

* `DataSource.merge`: writes a body.
* `DataSource.fetch`: sends the request and merges the answer.
* `blockingSources`, `backgroundSources`: the two groups, fetched in this order.
* `Document.ofText?`, `Document.ofJson?`, `Document.toJson`: the written form.
* `Document.load`: the document with its data in a store.
-/

namespace DataBinding

/-! ## Additional data sources -/

structure DataSource where
  /-- The URL; a source without one is skipped. -/
  src : Option String := none
  /-- The method, GET if there is none. -/
  method : Option String := none
  /-- The location that receives the body. -/
  path : Option String := none
  /-- Whether the view waits for the source. -/
  blocking : Bool := false
  /-- Processors that take the place of the path. -/
  dataMapping : Option Json := none

namespace DataSource

/-! ### Written form -/

def fieldNames : List String := ["src", "method", "path", "blocking", "dataMapping"]

def ofJson? (value : Json) : Option DataSource := do
  let fields ← value.fields? fieldNames
  return {
    src := ← Json.field? fields "src" none (Json.nullable Json.string?)
    method := ← Json.field? fields "method" none (Json.nullable Json.string?)
    path := ← Json.field? fields "path" none (Json.nullable Json.string?)
    blocking := ← Json.field? fields "blocking" false Json.bool?
    dataMapping := ← Json.field? fields "dataMapping" none (Json.nullable some) }

def toJson (s : DataSource) : Json :=
  .object ([
    ("src", Json.ofNullable .string s.src),
    ("method", Json.ofNullable .string s.method),
    ("path", Json.ofNullable .string s.path),
    ("blocking", .bool s.blocking)] ++ Json.optionalMember "dataMapping" s.dataMapping)

def shape : Shape := .record (fieldNames.map fun name => (name, .any))

/-! ### Merging -/

/-- Writes members below a root, up to the first that the target refuses. The outcome is that of the
last one that changed anything. -/
def mergeMembers (root : String) (outcome : UpdateOutcome) :
    List (String × Json) → Target → Except BindingError UpdateOutcome × Target
  | [], target => (.ok outcome, target)
  | (name, value) :: members, target =>
    match target.updateAbsolute (root ++ "." ++ name) (some value) .replace with
    | (.error error, target) => (.error (.store error), target)
    | (.ok changed, target) =>
      mergeMembers root (if changed.isChanged then changed else outcome) members target

/-- Writes a body. With a mapping its processors decide where; with a path the body goes there; else
every member of the body goes to the path that its name spells below the root, and other bodies are
ignored. -/
def merge (s : DataSource) (engine : Engine) (body : Json) (ctx : BindingContext)
    (target : Target) : Except BindingError UpdateOutcome × Target :=
  match s.dataMapping with
  | some mapping =>
    let (completed, target) :=
      engine.mappings.applyMapping mapping body ctx engine.evaluator target
    (.ok (if 0 < completed then .applied else .unchanged), target)
  | none =>
    match s.path with
    | some location =>
      match ctx.resolvePath location with
      | .error error => (.error (.reference error), target)
      | .ok path =>
        let (outcome, target) := target.updateAbsolute path (some body) .replace
        (liftStore outcome, target)
    | none =>
      match body with
      | .object members => mergeMembers ctx.globalScope.path .unchanged members target
      | _ => (.ok .unchanged, target)

/-! ### Fetching -/

/-- Merges the answer to a request, from the data as it is then. Failures leave no trace. -/
def receive (s : DataSource) (engine : Engine) (request : Request)
    (answer : Except BindingError Response) (target : Target) : Target :=
  match answer with
  | .error _ => target
  | .ok response =>
    let body := alterData request response response.body false engine.processors
    match target.scope with
    | .error _ => target
    | .ok scope => (s.merge engine body (.ofGlobal scope) target).2

def fetch (s : DataSource) (engine : Engine) (state : AppState) : AppState :=
  match s.src with
  | none => state
  | some src =>
    let request := state.request (s.method.getD "GET") src none
    let (answer, state) := state.send engine.transport request
    { state with target := s.receive engine request answer state.target }

end DataSource

def blockingSources (sources : List DataSource) : List DataSource :=
  sources.filter (·.blocking)

def backgroundSources (sources : List DataSource) : List DataSource :=
  sources.filter (!·.blocking)

def fetchAll (sources : List DataSource) (engine : Engine) (state : AppState) : AppState :=
  sources.foldl (fun state source => source.fetch engine state) state

/-! ## Written form and loading -/

structure Document where
  renderView : List (String × Json) := []
  templates : Option Json := none
  /-- The templates under their old name. -/
  listForms : Option Json := none
  data : Json := .null
  sources : List DataSource := []

/-- A document whose data lives in a store. -/
structure LoadedDocument where
  store : Store
  renderView : List (String × Json)
  templates : Option Json
  sources : List DataSource

namespace Document

/-- Reads the sources of a list, all of them or none. -/
def sourcesOfJson? (value : Json) : Option (List DataSource) := do
  (← value.items?).mapM DataSource.ofJson?

def ofJson? (value : Json) : Option Document := do
  let fields ← value.fields?
    ["renderView", "templates", "listForms", "data", "additionalDataSource"]
  return {
    renderView := ← Json.field? fields "renderView" [] Json.members?
    templates := ← Json.field? fields "templates" none (Json.nullable some)
    listForms := ← Json.field? fields "listForms" none (Json.nullable some)
    data := (fields.lookup "data").getD .null
    sources := ← Json.field? fields "additionalDataSource" [] sourcesOfJson? }

def toJson (d : Document) : Json :=
  .object (("renderView", .object d.renderView) ::
    Json.optionalMember "templates" d.templates ++
    Json.optionalMember "listForms" d.listForms ++
    ("data", d.data) ::
    if d.sources.isEmpty then []
    else [("additionalDataSource", .array (d.sources.map DataSource.toJson))])

def shape : Shape :=
  .record [("renderView", .any), ("templates", .any), ("listForms", .any), ("data", .any),
    ("additionalDataSource", .list DataSource.shape)]

def ofText? (text : String) : Option Document :=
  (shape.read? text).bind ofJson?

def viewNames (d : Document) : List String := d.renderView.map Prod.fst

/-- The templates, under their new name or their old one. -/
def effectiveTemplates (d : Document) : Option Json := d.templates.or d.listForms

/-- Puts the data of the document into a store, or other data in their place. -/
def load (d : Document) (dataOverride : Option Json) (settings : StoreSettings) :
    LoadedDocument where
  store := { tree := dataOverride.getD d.data, settings }
  renderView := d.renderView
  templates := d.effectiveTemplates
  sources := d.sources

end Document

end DataBinding
