import DataBinding.Network
import DataBinding.Proofs.Update.InPlace

/-!
# Processors that fail

A processor that fails leaves the last good value to the next one, so the rest of the run is as if it
were not in the list. What comes of the run is put back into the body. If there was something to process,
putting it back unchanged gives the body as it was. A document without data is the exception: the
processors receive `null` for what is missing, and even if all of them fail this `null` is put into the
document. Only without any processor it stays as it is.

* `unprocessed`, `processed`, `putBack`: what goes into the processors, what comes of them, and where it is
  put; `alterData_eq_putBack` says that this is all.
* `processed_without`: a run without a processor that fails.
* `failed_processors_skipped`: lists with and without processors that fail.
-/

namespace DataBinding

/-! ## A run of processors -/

section Run

variable (request : Request) (response : Response) (body : Json) (isDocument : Bool)

/-- What the first processor receives: the body, or of a document its data. -/
def unprocessed : Json :=
  if isDocument then (body.member? "data").getD .null else body

/-- What every processor may look at. -/
def processorInput : ProcessorInput :=
  { request, response, unprocessed := unprocessed body isDocument }

/-- What a number of processors leave. -/
def processed (processors : List Processor) : Json :=
  processors.foldl (Processor.step (processorInput request response body isDocument))
    (unprocessed body isDocument)

/-- The body with a value in the place of what the processors received. -/
def putBack (value : Json) : Json :=
  match isDocument, body with
  | true, .object members => .object (Json.insertMember "data" value members)
  | true, _ => body
  | false, _ => value

/-- The body is a document that has no data. -/
def LacksData : Prop :=
  isDocument = true ∧ ∃ members, body = .object members ∧ members.lookup "data" = none

/-- The processor fails on what the ones before it leave. -/
def FailsAfter (before : List Processor) (p : Processor) : Prop :=
  ∃ error, p.process (processorInput request response body isDocument)
    (processed request response body isDocument before) = .error error

/-- Every processor of the list fails in the run. -/
def AllFail (processors : List Processor) : Prop :=
  ∀ before p after, processors = before ++ p :: after →
    FailsAfter request response body isDocument before p

variable {request response body isDocument}

theorem alterData_eq_putBack {processors : List Processor} (h : processors ≠ []) :
    alterData request response body isDocument processors =
      putBack body isDocument (processed request response body isDocument processors) := by
  rw [alterData, if_neg (by simpa using h)]
  rfl

theorem alterData_nil : alterData request response body isDocument [] = body := rfl

/-- A processor that fails leaves what it received. -/
theorem step_of_error {input : ProcessorInput} {data : Json} {p : Processor} {error : BindingError}
    (h : p.process input data = .error error) : p.step input data = data := by
  rw [Processor.step, h]

/-- The others do not notice a processor that fails. -/
theorem processed_without {before : List Processor} {p : Processor}
    (h : FailsAfter request response body isDocument before p) (after : List Processor) :
    processed request response body isDocument (before ++ p :: after) =
      processed request response body isDocument (before ++ after) := by
  obtain ⟨error, herror⟩ := h
  unfold processed at herror ⊢
  rw [List.foldl_append, List.foldl_append, List.foldl_cons, step_of_error herror]

/-- Where every processor fails, what they received is left. -/
theorem processed_of_allFail {processors : List Processor}
    (h : AllFail request response body isDocument processors) :
    processed request response body isDocument processors = unprocessed body isDocument := by
  induction processors with
  | nil => rfl
  | cons p processors ih =>
    have hskip : ∀ list, processed request response body isDocument (p :: list) =
        processed request response body isDocument list :=
      processed_without (h [] p processors rfl)
    rw [hskip]
    refine ih fun before next after hsplit => ?_
    obtain ⟨error, herror⟩ := h (p :: before) next after (congrArg (p :: ·) hsplit)
    rw [hskip] at herror
    exact ⟨error, herror⟩

/-! ## Putting back -/

/-- What is put back unchanged gives the body, if it was taken from there. -/
theorem putBack_unprocessed (h : ¬ LacksData body isDocument) :
    putBack body isDocument (unprocessed body isDocument) = body := by
  cases isDocument with
  | false => rfl
  | true =>
    cases body with
    | object members =>
      cases hdata : members.lookup "data" with
      | none => exact absurd ⟨rfl, members, rfl, hdata⟩ h
      | some data =>
        have hself : unprocessed (.object members) true = data := by
          simp [unprocessed, Json.member?, hdata]
        rw [hself]
        exact congrArg Json.object (Json.insertMember_of_lookup hdata)
    | _ => rfl

/-- Into a document without data `null` is put for what is missing. -/
theorem putBack_unprocessed_of_absent {members : List (String × Json)}
    (h : members.lookup "data" = none) :
    putBack (.object members) true (unprocessed (.object members) true) =
      .object (members ++ [("data", .null)]) := by
  have hnull : unprocessed (.object members) true = .null := by
    simp [unprocessed, Json.member?, h]
  rw [hnull]
  exact congrArg Json.object (Json.insertMember_of_absent h .null)

theorem alterData_of_allFail {processors : List Processor}
    (h : AllFail request response body isDocument processors) (hne : processors ≠ []) :
    alterData request response body isDocument processors =
      putBack body isDocument (unprocessed body isDocument) := by
  rw [alterData_eq_putBack hne, processed_of_allFail h]

end Run

/-! ## Lists with and without a processor -/

/-- **A processor that fails has no effect, except on a document without data.** The list without a
processor that fails on what it receives in the run gives the same, unless nothing remains of the list and
the body is a document that has no data. A list in which every processor fails gives the body itself, as
the empty list does, unless the body is such a document: then it gives, if it is not empty, the document
with `null` for its data at the end. -/
theorem failed_processors_skipped (request : Request) (response : Response) (body : Json)
    (isDocument : Bool) :
    (∀ before p after, FailsAfter request response body isDocument before p →
      ¬ (LacksData body isDocument ∧ before ++ after = []) →
      alterData request response body isDocument (before ++ p :: after) =
        alterData request response body isDocument (before ++ after)) ∧
    (∀ processors, AllFail request response body isDocument processors →
      ¬ (LacksData body isDocument ∧ processors ≠ []) →
      alterData request response body isDocument processors = body) ∧
    ∀ processors members, AllFail request response body isDocument processors → processors ≠ [] →
      isDocument = true → body = .object members → members.lookup "data" = none →
      alterData request response body isDocument processors =
        .object (members ++ [("data", .null)]) := by
  refine ⟨fun before p after hfails hrest => ?_, fun processors hfail hrest => ?_, ?_⟩
  · have hwithout := processed_without hfails after
    rw [alterData_eq_putBack (by simp), hwithout]
    by_cases hnone : before ++ after = []
    · have hdata : ¬ LacksData body isDocument := fun hlacks => hrest ⟨hlacks, hnone⟩
      rw [hnone, alterData_nil]
      exact putBack_unprocessed hdata
    · rw [alterData_eq_putBack hnone]
  · by_cases hnone : processors = []
    · rw [hnone, alterData_nil]
    · rw [alterData_of_allFail hfail hnone]
      exact putBack_unprocessed fun hlacks => hrest ⟨hlacks, hnone⟩
  · rintro processors members hfail hne rfl rfl hdata
    rw [alterData_of_allFail hfail hne]
    exact putBack_unprocessed_of_absent hdata

/-- A processor that fails. -/
def Processor.failing (id : String) : Processor where
  id
  process _ _ := .error (.processorFailed id "always fails")

theorem allFail_failing (request : Request) (response : Response) (body : Json) (isDocument : Bool)
    (ids : List String) :
    AllFail request response body isDocument (ids.map Processor.failing) := by
  intro before p after hsplit
  have hmem : p ∈ ids.map Processor.failing := by
    rw [hsplit]
    simp
  obtain ⟨id, -, rfl⟩ := List.mem_map.mp hmem
  exact ⟨_, rfl⟩

/-- In a document with data, one processor fails between two that do not, and then two fail on their own. -/
theorem failed_processors_skipped_in_document :
    let document := Json.object [("renderView", .object []), ("data", .bool true)]
    let request : Request := { method := "GET", url := "/api" }
    let wrap : Processor := { id := "wrap", process := fun _ data => .ok (.array [data]) }
    let failing := ["first", "second"].map Processor.failing
    ¬ LacksData document true ∧
      FailsAfter request {} document true [wrap] (.failing "first") ∧
      alterData request {} document true [wrap, .failing "first", wrap] =
        alterData request {} document true [wrap, wrap] ∧
      AllFail request {} document true failing ∧
      alterData request {} document true failing = document := by
  intro document request wrap failing
  have hdata : ¬ LacksData document true := by
    rintro ⟨-, members, hmembers, hnone⟩
    rw [← Json.object.inj hmembers] at hnone
    exact absurd hnone (by decide)
  have hfails : FailsAfter request {} document true [wrap] (.failing "first") := ⟨_, rfl⟩
  have hfail := allFail_failing request {} document true ["first", "second"]
  obtain ⟨hwithout, hkept, -⟩ := failed_processors_skipped request {} document true
  exact ⟨hdata, hfails, hwithout [wrap] (.failing "first") [wrap] hfails fun h => hdata h.1, hfail,
    hkept failing hfail fun h => hdata h.1⟩

/-- A processor that fails on a document without data adds a member to it, which no processor does. -/
theorem failed_processor_adds_data :
    let document := Json.object [("renderView", .object [])]
    let request : Request := { method := "GET", url := "/api" }
    let failing := Processor.failing "fail"
    FailsAfter request {} document true [] failing ∧
      alterData request {} document true [failing] =
        .object [("renderView", .object []), ("data", .null)] ∧
      alterData request {} document true [] = document ∧
      ¬ alterData request {} document true [failing] == alterData request {} document true [] :=
  ⟨⟨_, rfl⟩, rfl, rfl, by decide⟩

end DataBinding
