import DataBinding.Action
import DataBinding.Document
import DataBinding.Engine
import DataBinding.Proofs.Json.Field
import DataBinding.Reaction

/-!
# Payloads are restored

Reactions, actions, sources, documents and settings arrive as data, may be written again, and are the same
when they are read from what was written. For each of them one statement says which decoder reads which
field with which default (`ReadFrom`), and decoding gives a payload if and only if its fields are read as
the payload has them. So it does not matter whether a record arrived as an object or as an array, nor
whether a field was given or left to its default; what is left to show is that each field that is written
is read alike.

* `isRecord`, for every kind of payload: what it is decoded from, and what is written for it.
* `Reaction.fields?`: the fields of a reaction, which has its kind as a tag.
* `payloads_restored`: all kinds of payload together.
-/

namespace DataBinding

open Json

/-! ## Settings -/

namespace Evaluator

def fieldNames : List String := ["defaultDepth", "recursionSafetyLimit"]

/-- The fields of a record are read as these settings. -/
structure ReadFrom (fields : List (String × Json)) (e : Evaluator) : Prop where
  defaultDepth : field? fields "defaultDepth" 1 int32? = some e.defaultDepth
  safetyLimit : field? fields "recursionSafetyLimit" 20 uint32? = some e.safetyLimit

theorem isRecord : IsRecord ofJson? toJson (·.fields? fieldNames) ReadFrom where
  fieldsOf_object _ := rfl
  decode_iff value e := by
    constructor
    · intro h
      obtain ⟨fields, hfields, h⟩ := Option.bind_eq_some_iff.mp h
      obtain ⟨depth, hdepth, h⟩ := Option.bind_eq_some_iff.mp h
      obtain ⟨limit, hlimit, h⟩ := Option.bind_eq_some_iff.mp h
      cases h
      exact ⟨fields, hfields, hdepth, hlimit⟩
    · rintro ⟨fields, hfields, h⟩
      rw [fieldNames] at hfields
      simp only [ofJson?, hfields, Option.bind_eq_bind, Option.bind_some, h.defaultDepth,
        h.safetyLimit]
      rfl
  encode_eq fields e h := ⟨_, rfl, {
    defaultDepth := restores_int32.field? (int32?_ofInt32 1) h.defaultDepth rfl
    safetyLimit := restores_uint32.field? (uint32?_ofUInt32 20) h.safetyLimit rfl }⟩

end Evaluator

namespace StoreSettings

def fieldNames : List String := ["revisionWrap", "referenceScanDepth", "rootSegment"]

/-- The fields of a record are read as these settings. -/
structure ReadFrom (fields : List (String × Json)) (s : StoreSettings) : Prop where
  revisionWrap : field? fields "revisionWrap" 9007199254740991 uint64? = some s.revisionWrap
  referenceScanDepth : field? fields "referenceScanDepth" 50 uint64? = some s.referenceScanDepth
  rootSegment : field? fields "rootSegment" "data" string? = some s.rootSegment

theorem isRecord : IsRecord ofJson? toJson (·.fields? fieldNames) ReadFrom where
  fieldsOf_object _ := rfl
  decode_iff value s := by
    constructor
    · intro h
      obtain ⟨fields, hfields, h⟩ := Option.bind_eq_some_iff.mp h
      obtain ⟨wrap, hwrap, h⟩ := Option.bind_eq_some_iff.mp h
      obtain ⟨depth, hdepth, h⟩ := Option.bind_eq_some_iff.mp h
      obtain ⟨root, hroot, h⟩ := Option.bind_eq_some_iff.mp h
      cases h
      exact ⟨fields, hfields, hwrap, hdepth, hroot⟩
    · rintro ⟨fields, hfields, h⟩
      rw [fieldNames] at hfields
      simp only [ofJson?, hfields, Option.bind_eq_bind, Option.bind_some, h.revisionWrap,
        h.referenceScanDepth, h.rootSegment]
      rfl
  encode_eq fields s h := ⟨_, rfl, {
    revisionWrap := restores_uint64.field? (uint64?_ofUInt64 9007199254740991) h.revisionWrap rfl
    referenceScanDepth := restores_uint64.field? (uint64?_ofUInt64 50) h.referenceScanDepth rfl
    rootSegment := restores_string.field? rfl h.rootSegment rfl }⟩

end StoreSettings

namespace EngineSettings

def fieldNames : List String := ["template", "store"]

/-- The fields of a record are read as these settings. -/
structure ReadFrom (fields : List (String × Json)) (s : EngineSettings) : Prop where
  evaluator : field? fields "template" {} Evaluator.ofJson? = some s.evaluator
  store : field? fields "store" {} StoreSettings.ofJson? = some s.store

theorem isRecord : IsRecord ofJson? toJson (·.fields? fieldNames) ReadFrom where
  fieldsOf_object _ := rfl
  decode_iff value s := by
    constructor
    · intro h
      obtain ⟨fields, hfields, h⟩ := Option.bind_eq_some_iff.mp h
      obtain ⟨evaluator, hevaluator, h⟩ := Option.bind_eq_some_iff.mp h
      obtain ⟨store, hstore, h⟩ := Option.bind_eq_some_iff.mp h
      cases h
      exact ⟨fields, hfields, hevaluator, hstore⟩
    · rintro ⟨fields, hfields, h⟩
      rw [fieldNames] at hfields
      simp only [ofJson?, hfields, Option.bind_eq_bind, Option.bind_some, h.evaluator, h.store]
      rfl
  encode_eq fields s h := by
    -- The defaults are what the empty object is read as, so they are read back like all else.
    have hevaluator : Evaluator.ofJson? (.object []) = some {} := rfl
    have hstore : StoreSettings.ofJson? (.object []) = some {} := rfl
    have hback := Evaluator.isRecord.restores
    have hback' := StoreSettings.isRecord.restores
    exact ⟨_, rfl, hback.field? (hback.back hevaluator) h.evaluator rfl,
      hback'.field? (hback'.back hstore) h.store rfl⟩

end EngineSettings

/-! ## Actions -/

namespace ActionArgs

def fieldNames : List String :=
  ["url", "httpMethod", "refreshAppOnResponse", "updateOnlyData", "updateDataAtLocation",
    "submitSilently", "data"]

/-- The fields of a record are read as these arguments. The payload is taken as it is. -/
structure ReadFrom (fields : List (String × Json)) (a : ActionArgs) : Prop where
  url : field? fields "url" none (nullable some) = some a.url
  httpMethod : field? fields "httpMethod" none (nullable string?) = some a.httpMethod
  refreshAppOnResponse :
    field? fields "refreshAppOnResponse" none (nullable bool?) = some a.refreshAppOnResponse
  updateOnlyData : field? fields "updateOnlyData" false bool? = some a.updateOnlyData
  updateDataAtLocation :
    field? fields "updateDataAtLocation" none (nullable string?) = some a.updateDataAtLocation
  submitSilently : field? fields "submitSilently" none (nullable bool?) = some a.submitSilently
  data : fields.lookup "data" = a.data

theorem isRecord : IsRecord ofJson? toJson (·.fields? fieldNames) ReadFrom where
  fieldsOf_object _ := rfl
  decode_iff value a := by
    constructor
    · intro h
      obtain ⟨fields, hfields, h⟩ := Option.bind_eq_some_iff.mp h
      obtain ⟨url, hurl, h⟩ := Option.bind_eq_some_iff.mp h
      obtain ⟨method, hmethod, h⟩ := Option.bind_eq_some_iff.mp h
      obtain ⟨refresh, hrefresh, h⟩ := Option.bind_eq_some_iff.mp h
      obtain ⟨only, honly, h⟩ := Option.bind_eq_some_iff.mp h
      obtain ⟨location, hlocation, h⟩ := Option.bind_eq_some_iff.mp h
      obtain ⟨silent, hsilent, h⟩ := Option.bind_eq_some_iff.mp h
      cases h
      exact ⟨fields, hfields, hurl, hmethod, hrefresh, honly, hlocation, hsilent, rfl⟩
    · rintro ⟨fields, hfields, h⟩
      rw [fieldNames] at hfields
      simp only [ofJson?, hfields, Option.bind_eq_bind, Option.bind_some, h.url, h.httpMethod,
        h.refreshAppOnResponse, h.updateOnlyData, h.updateDataAtLocation, h.submitSilently, h.data]
      rfl
  encode_eq fields a h := ⟨_, rfl, {
    url := restores_any.nullable.field? rfl h.url rfl
    httpMethod := restores_string.nullable.field? rfl h.httpMethod rfl
    refreshAppOnResponse := restores_bool.nullable.field? rfl h.refreshAppOnResponse rfl
    updateOnlyData := restores_bool.field? rfl h.updateOnlyData rfl
    updateDataAtLocation := restores_string.nullable.field? rfl h.updateDataAtLocation rfl
    submitSilently := restores_bool.nullable.field? rfl h.submitSilently rfl
    data := lookup_optionalMember "data" a.data }⟩

/-- The fields that may be missing, and whether there is a value for them. -/
def optionalFields (a : ActionArgs) : List (String × Bool) :=
  [("url", a.url.isSome), ("httpMethod", a.httpMethod.isSome),
    ("refreshAppOnResponse", a.refreshAppOnResponse.isSome),
    ("updateDataAtLocation", a.updateDataAtLocation.isSome),
    ("submitSilently", a.submitSilently.isSome)]

theorem isRestored {value : Json} {a : ActionArgs} (hread : ofJson? value = some a) :
    IsRestored ofJson? toJson (·.fields? fieldNames) [("data", a.data)] a.optionalFields value a := by
  refine isRecord.isRestored hread (fun fields h => ?_) fun fields h => ?_
  · exact List.forall_mem_singleton.mpr h.data
  · simp only [optionalFields, List.forall_mem_cons]
    exact ⟨isUnset_iff h.url, isUnset_iff h.httpMethod, isUnset_iff h.refreshAppOnResponse,
      isUnset_iff h.updateDataAtLocation, isUnset_iff h.submitSilently, by simp⟩

end ActionArgs

/-! ## Documents and their sources -/

namespace DataSource

/-- The fields of a record are read as this source. -/
structure ReadFrom (fields : List (String × Json)) (s : DataSource) : Prop where
  src : field? fields "src" none (nullable string?) = some s.src
  method : field? fields "method" none (nullable string?) = some s.method
  path : field? fields "path" none (nullable string?) = some s.path
  blocking : field? fields "blocking" false bool? = some s.blocking
  dataMapping : field? fields "dataMapping" none (nullable some) = some s.dataMapping

theorem isRecord : IsRecord ofJson? toJson (·.fields? fieldNames) ReadFrom where
  fieldsOf_object _ := rfl
  decode_iff value s := by
    constructor
    · intro h
      obtain ⟨fields, hfields, h⟩ := Option.bind_eq_some_iff.mp h
      obtain ⟨src, hsrc, h⟩ := Option.bind_eq_some_iff.mp h
      obtain ⟨method, hmethod, h⟩ := Option.bind_eq_some_iff.mp h
      obtain ⟨path, hpath, h⟩ := Option.bind_eq_some_iff.mp h
      obtain ⟨blocking, hblocking, h⟩ := Option.bind_eq_some_iff.mp h
      obtain ⟨mapping, hmapping, h⟩ := Option.bind_eq_some_iff.mp h
      cases h
      exact ⟨fields, hfields, hsrc, hmethod, hpath, hblocking, hmapping⟩
    · rintro ⟨fields, hfields, h⟩
      simp only [ofJson?, hfields, Option.bind_eq_bind, Option.bind_some, h.src, h.method, h.path,
        h.blocking, h.dataMapping]
      rfl
  encode_eq fields s h := ⟨_, rfl, {
    src := restores_string.nullable.field? rfl h.src rfl
    method := restores_string.nullable.field? rfl h.method rfl
    path := restores_string.nullable.field? rfl h.path rfl
    blocking := restores_bool.field? rfl h.blocking rfl
    dataMapping := field?_of_optional h.dataMapping
      (lookup_optionalMember "dataMapping" s.dataMapping) }⟩

/-- The fields that may be missing, and whether there is a value for them. -/
def optionalFields (s : DataSource) : List (String × Bool) :=
  [("src", s.src.isSome), ("method", s.method.isSome), ("path", s.path.isSome),
    ("dataMapping", s.dataMapping.isSome)]

theorem isRestored {value : Json} {s : DataSource} (hread : ofJson? value = some s) :
    IsRestored ofJson? toJson (·.fields? fieldNames) [] s.optionalFields value s := by
  refine isRecord.isRestored hread (fun fields h => by simp) fun fields h => ?_
  simp only [optionalFields, List.forall_mem_cons]
  exact ⟨isUnset_iff h.src, isUnset_iff h.method, isUnset_iff h.path, isUnset_iff h.dataMapping,
    by simp⟩

end DataSource

namespace Document

def fieldNames : List String :=
  ["renderView", "templates", "listForms", "data", "additionalDataSource"]

/-- The fields of a record are read as this document. Data that are missing are `null`. -/
structure ReadFrom (fields : List (String × Json)) (d : Document) : Prop where
  renderView : field? fields "renderView" [] members? = some d.renderView
  templates : field? fields "templates" none (nullable some) = some d.templates
  listForms : field? fields "listForms" none (nullable some) = some d.listForms
  data : (fields.lookup "data").getD .null = d.data
  sources : field? fields "additionalDataSource" [] sourcesOfJson? = some d.sources

theorem restores_sources :
    Restores sourcesOfJson? fun sources => .array (sources.map DataSource.toJson) :=
  DataSource.isRecord.restores.list

/-- What is written for each field. A list of no sources is left out. -/
theorem exists_toJson_eq (d : Document) : ∃ written, d.toJson = .object written ∧
    written.lookup "renderView" = some (.object d.renderView) ∧
    written.lookup "templates" = d.templates ∧ written.lookup "listForms" = d.listForms ∧
    written.lookup "data" = some d.data ∧
    written.lookup "additionalDataSource" =
      if d.sources.isEmpty then none else some (.array (d.sources.map DataSource.toJson)) := by
  obtain ⟨view, templates, forms, data, sources⟩ := d
  refine ⟨_, rfl, rfl, ?_⟩
  cases templates <;> cases forms <;> cases sources <;> exact ⟨rfl, rfl, rfl, rfl⟩

theorem isRecord : IsRecord ofJson? toJson (·.fields? fieldNames) ReadFrom where
  fieldsOf_object _ := rfl
  decode_iff value d := by
    constructor
    · intro h
      obtain ⟨fields, hfields, h⟩ := Option.bind_eq_some_iff.mp h
      obtain ⟨view, hview, h⟩ := Option.bind_eq_some_iff.mp h
      obtain ⟨templates, htemplates, h⟩ := Option.bind_eq_some_iff.mp h
      obtain ⟨forms, hforms, h⟩ := Option.bind_eq_some_iff.mp h
      obtain ⟨sources, hsources, h⟩ := Option.bind_eq_some_iff.mp h
      cases h
      exact ⟨fields, hfields, hview, htemplates, hforms, rfl, hsources⟩
    · rintro ⟨fields, hfields, h⟩
      rw [fieldNames] at hfields
      simp only [ofJson?, hfields, Option.bind_eq_bind, Option.bind_some, h.renderView, h.templates,
        h.listForms, h.data, h.sources]
      rfl
  encode_eq fields d h := by
    obtain ⟨written, hwritten, hview, htemplates, hforms, hdata, hsources⟩ := d.exists_toJson_eq
    refine ⟨written, hwritten, {
      renderView := restores_members.field? rfl h.renderView hview
      templates := field?_of_optional h.templates htemplates
      listForms := field?_of_optional h.listForms hforms
      data := by rw [hdata, Option.getD_some]
      sources := ?_ }⟩
    cases hempty : d.sources.isEmpty with
    | true =>
      rw [hempty, if_pos rfl] at hsources
      rw [field?_of_missing hsources, List.isEmpty_iff.mp hempty]
    | false =>
      rw [hempty, if_neg Bool.false_ne_true] at hsources
      exact restores_sources.field? rfl h.sources hsources

/-- The fields that may be missing, and whether there is a value for them. -/
def optionalFields (d : Document) : List (String × Bool) :=
  [("templates", d.templates.isSome), ("listForms", d.listForms.isSome)]

theorem isRestored {value : Json} {d : Document} (hread : ofJson? value = some d) :
    IsRestored ofJson? toJson (·.fields? fieldNames) [] d.optionalFields value d := by
  refine isRecord.isRestored hread (fun fields h => by simp) fun fields h => ?_
  simp only [optionalFields, List.forall_mem_cons]
  exact ⟨isUnset_iff h.templates, isUnset_iff h.listForms, by simp⟩

end Document

/-! ## Reactions -/

namespace Reaction

/-- The fields of a reaction, its kind among them. In an array the kind comes first, and then the fields
that it has. -/
def fields? : Json → Option (List (String × Json))
  | .object members => some members
  | .array (kind :: items) =>
    (kind.string?.bind fun name => (Json.array items).fields? (fieldNames name)).map
      (("what", kind) :: ·)
  | _ => none

/-- The fields of a reaction are read as this one. The value that is set or added is taken as it is. -/
inductive ReadFrom (fields : List (String × Json)) : Reaction → Prop where
  | setData {path : Option String} {value : Option Json}
      (hkind : fields.lookup "what" = some (.string "setData"))
      (hpath : field? fields "path" none (nullable string?) = some path)
      (hvalue : fields.lookup "value" = value) : ReadFrom fields (.setData path value)
  | addData {path : Option String} {value : Option Json}
      (hkind : fields.lookup "what" = some (.string "addData"))
      (hpath : field? fields "path" none (nullable string?) = some path)
      (hvalue : fields.lookup "value" = value) : ReadFrom fields (.addData path value)
  | removeData {path : Option String}
      (hkind : fields.lookup "what" = some (.string "removeData"))
      (hpath : field? fields "path" none (nullable string?) = some path) :
      ReadFrom fields (.removeData path)
  | moveData {path : Option String} {increment : Option Json}
      (hkind : fields.lookup "what" = some (.string "moveData"))
      (hpath : field? fields "path" none (nullable string?) = some path)
      (hincrement : field? fields "increment" none (nullable some) = some increment) :
      ReadFrom fields (.moveData path increment)

theorem readFrom_iff {kind : String} {fields : List (String × Json)}
    (hkind : fields.lookup "what" = some (.string kind)) {r : Reaction} :
    r.ReadFrom fields ↔ ofFields? kind fields = some r := by
  constructor
  · intro h
    cases h with
    | setData hkind' hpath hvalue | addData hkind' hpath hvalue =>
      cases hkind.symm.trans hkind'
      rw [ofFields?, hpath, ← hvalue]
      rfl
    | removeData hkind' hpath =>
      cases hkind.symm.trans hkind'
      rw [ofFields?, hpath]
      rfl
    | moveData hkind' hpath hincrement =>
      cases hkind.symm.trans hkind'
      simp only [ofFields?, hpath, hincrement, Option.bind_eq_bind, Option.bind_some]
      rfl
  · intro h
    obtain ⟨path, hpath, h⟩ := Option.bind_eq_some_iff.mp h
    split at h
    · cases h
      exact .setData hkind hpath rfl
    · cases h
      exact .addData hkind hpath rfl
    · cases h
      exact .removeData hkind hpath
    · obtain ⟨increment, hincrement, h⟩ := Option.bind_eq_some_iff.mp h
      cases h
      exact .moveData hkind hpath hincrement
    · cases h

/-- The tag of a reaction is none of its other fields. -/
theorem ofFields?_cons (kind : String) (tag : Json) (fields : List (String × Json)) :
    ofFields? kind (("what", tag) :: fields) = ofFields? kind fields := by
  have hpath : (("what", tag) :: fields).lookup "path" = fields.lookup "path" := rfl
  have hvalue : (("what", tag) :: fields).lookup "value" = fields.lookup "value" := rfl
  have hincrement : (("what", tag) :: fields).lookup "increment" = fields.lookup "increment" := rfl
  simp only [ofFields?, field?, hpath, hvalue, hincrement]

theorem ReadFrom.kind {fields : List (String × Json)} {r : Reaction} (h : r.ReadFrom fields) :
    fields.lookup "what" = some (.string r.name) := by
  cases h <;> assumption

theorem ofJson?_object (members : List (String × Json)) (r : Reaction) :
    ofJson? (.object members) = some r ↔ r.ReadFrom members := by
  constructor
  · intro h
    obtain ⟨tag, htag, h⟩ := Option.bind_eq_some_iff.mp h
    obtain ⟨kind, hkind, h⟩ := Option.bind_eq_some_iff.mp h
    cases string?_eq_some_iff.mp hkind
    exact (readFrom_iff htag).mpr h
  · intro h
    simp only [ofJson?, h.kind, string?, Option.bind_eq_bind, Option.bind_some]
    exact (readFrom_iff h.kind).mp h

theorem ofJson?_array (kind : Json) (items : List Json) (r : Reaction) :
    ofJson? (.array (kind :: items)) = some r ↔
      ∃ fields, fields? (.array (kind :: items)) = some fields ∧ r.ReadFrom fields := by
  constructor
  · intro h
    obtain ⟨name, hname, h⟩ := Option.bind_eq_some_iff.mp h
    obtain ⟨fields, hfields, h⟩ := Option.bind_eq_some_iff.mp h
    cases string?_eq_some_iff.mp hname
    refine ⟨("what", .string name) :: fields, ?_, (readFrom_iff rfl).mpr ?_⟩
    · rw [fields?, hname, Option.bind_some, hfields, Option.map_some]
    · rwa [ofFields?_cons]
  · rintro ⟨_, hall, h⟩
    obtain ⟨fields, hbelow, rfl⟩ := Option.map_eq_some_iff.mp hall
    obtain ⟨name, hname, hfields⟩ := Option.bind_eq_some_iff.mp hbelow
    cases string?_eq_some_iff.mp hname
    have hread := (readFrom_iff rfl).mp h
    rw [ofFields?_cons] at hread
    simp only [ofJson?, string?, Option.bind_eq_bind, Option.bind_some, hfields]
    exact hread

theorem isRecord : IsRecord ofJson? toJson fields? (fun fields r => r.ReadFrom fields) where
  fieldsOf_object _ := rfl
  decode_iff value r := by
    cases value with
    | object members =>
      rw [ofJson?_object]
      exact ⟨fun h => ⟨members, rfl, h⟩, fun ⟨_, hmembers, h⟩ => Option.some.inj hmembers ▸ h⟩
    | array items =>
      cases items with
      | nil => simp [ofJson?, fields?]
      | cons kind items => exact ofJson?_array kind items r
    | _ => simp [ofJson?, fields?]
  encode_eq fields r h := by
    cases h with
    | @setData path value _ hpath _ =>
      exact ⟨_, rfl, .setData rfl (restores_string.nullable.field? rfl hpath rfl)
        (lookup_optionalMember "value" value)⟩
    | @addData path value _ hpath _ =>
      exact ⟨_, rfl, .addData rfl (restores_string.nullable.field? rfl hpath rfl)
        (lookup_optionalMember "value" value)⟩
    | removeData _ hpath =>
      exact ⟨_, rfl, .removeData rfl (restores_string.nullable.field? rfl hpath rfl)⟩
    | @moveData path increment _ hpath hincrement =>
      exact ⟨_, rfl, .moveData rfl (restores_string.nullable.field? rfl hpath rfl)
        (field?_of_optional hincrement (lookup_optionalMember "increment" increment))⟩

/-- The fields of which one that is `null` differs from one that is missing. -/
def exactFields : Reaction → List (String × Option Json)
  | .setData _ value | .addData _ value => [("value", value)]
  | .removeData _ | .moveData _ _ => []

/-- The fields that may be missing, and whether there is a value for them. -/
def optionalFields : Reaction → List (String × Bool)
  | .setData path _ | .addData path _ | .removeData path => [("path", path.isSome)]
  | .moveData path increment => [("path", path.isSome), ("increment", increment.isSome)]

theorem isRestored {value : Json} {r : Reaction} (hread : ofJson? value = some r) :
    IsRestored ofJson? toJson fields? r.exactFields r.optionalFields value r := by
  refine isRecord.isRestored hread (fun fields h => ?_) fun fields h => ?_
  · cases h with
    | setData _ _ hvalue | addData _ _ hvalue => exact List.forall_mem_singleton.mpr hvalue
    | removeData | moveData => simp [exactFields]
  · cases h with
    | setData _ hpath | addData _ hpath | removeData _ hpath =>
      exact List.forall_mem_singleton.mpr (isUnset_iff hpath)
    | moveData _ hpath hincrement =>
      simp only [optionalFields, List.forall_mem_cons]
      exact ⟨isUnset_iff hpath, isUnset_iff hincrement, by simp⟩

end Reaction

/-! ## All payloads -/

/-- **Decoding undoes encoding.** What any value is decoded to is decoded again from what is written for
it, for reactions, actions, sources, documents and settings. The value that a reaction sets or adds, and
the data of an action, are written as they were given, where `null` differs from a missing one. Every other
field that may be missing has no value if and only if it was missing or `null`, and the same holds of what
is written for it. -/
theorem payloads_restored :
    (∀ value r, Reaction.ofJson? value = some r →
      IsRestored Reaction.ofJson? Reaction.toJson Reaction.fields? r.exactFields r.optionalFields
        value r) ∧
    (∀ value a, ActionArgs.ofJson? value = some a →
      IsRestored ActionArgs.ofJson? ActionArgs.toJson (·.fields? ActionArgs.fieldNames)
        [("data", a.data)] a.optionalFields value a) ∧
    (∀ value s, DataSource.ofJson? value = some s →
      IsRestored DataSource.ofJson? DataSource.toJson (·.fields? DataSource.fieldNames) []
        s.optionalFields value s) ∧
    (∀ value d, Document.ofJson? value = some d →
      IsRestored Document.ofJson? Document.toJson (·.fields? Document.fieldNames) []
        d.optionalFields value d) ∧
    (∀ value s, EngineSettings.ofJson? value = some s →
      EngineSettings.ofJson? s.toJson = some s) ∧
    (∀ value e, Evaluator.ofJson? value = some e → Evaluator.ofJson? e.toJson = some e) ∧
    ∀ value s, StoreSettings.ofJson? value = some s → StoreSettings.ofJson? s.toJson = some s :=
  ⟨fun _ _ => Reaction.isRestored, fun _ _ => ActionArgs.isRestored,
    fun _ _ => DataSource.isRestored, fun _ _ => Document.isRestored,
    fun _ _ => EngineSettings.isRecord.restores.back, fun _ _ => Evaluator.isRecord.restores.back,
    fun _ _ => StoreSettings.isRecord.restores.back⟩

/-- A reaction that arrives as an array and sets `null`, and one that has no value to set; and a document
with a source that arrives as an array. -/
theorem payloads_restored_from_arrays :
    let nulled : Reaction := .setData (some "~.done") (some .null)
    let unset : Reaction := .setData (some "~.done") none
    let document : Document := { sources := [{ src := some "/user" }] }
    (Reaction.ofJson? (.array [.string "setData", .string "~.done", .null]) = some nulled ∧
      Reaction.ofJson? nulled.toJson = some nulled) ∧
    (Reaction.ofJson? (.array [.string "setData", .string "~.done"]) = some unset ∧
      Reaction.ofJson? unset.toJson = some unset) ∧
    Document.ofJson? (.object [("additionalDataSource", .array [.array [.string "/user"]])]) =
        some document ∧
      Document.ofJson? document.toJson = some document := by
  intro nulled unset document
  obtain ⟨hreaction, -, -, hdocument, -⟩ := payloads_restored
  have hnulled : Reaction.ofJson? (.array [.string "setData", .string "~.done", .null]) =
      some nulled := rfl
  have hunset : Reaction.ofJson? (.array [.string "setData", .string "~.done"]) = some unset := rfl
  have hread : Document.ofJson?
      (.object [("additionalDataSource", .array [.array [.string "/user"]])]) = some document := rfl
  exact ⟨⟨hnulled, (hreaction _ _ hnulled).decoded⟩, ⟨hunset, (hreaction _ _ hunset).decoded⟩,
    hread, (hdocument _ _ hread).decoded⟩

end DataBinding
