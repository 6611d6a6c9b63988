import DataBinding.Proofs.Mapping.Atomicity
import DataBinding.Proofs.Update.Edit
import DataBinding.Proofs.Update.Refresh

/-!
# Missing sources

A location that is not in the response is an error of the planner, so that its entry is refused, left
out or given its default. A reference into the data that names nothing is no error but a value that is
not set, and so is a default that evaluates to nothing. Such a value is planned like any other, and a
write without a value deletes: here a missing source does erase its destination.

* `MappingEntry.IsListed`: an entry that is planned; `planItem_eq` says how.
* `plan_append`: a plan is made entry by entry.
* `SimpleMapping.Refuses`, `SimpleMapping.Writes`: what may become of a mapping with such an entry.
* `SharedStore.leaves_of_updateAbsolute`: what a write leaves at its destination.
* `apply_missing_source`: missing sources in both maps.
* `missing_reference_erases`: a destination that is lost.
-/

namespace DataBinding

/-! ## Entries -/

/-- What an entry of a mapping says: where a value goes, how, and where it comes from. -/
structure MappingEntry where
  path : String
  mode : UpdateMode
  location : String
  required : Bool
  defaultValue : Option Json

namespace MappingEntry

/-- The write of a value, or of none, to the destination of the entry. -/
def write (entry : MappingEntry) (value : Option Json) : PlannedWrite :=
  ⟨entry.path, value, entry.mode⟩

/-- The entry is listed with this destination and this item. The mode is known, the location is not
empty, and the destination is below the root. -/
structure IsListed (entry : MappingEntry) (ctx : BindingContext) (destination : String)
    (item : Json) : Prop where
  decoded : ∃ mode : Option String, UpdateMode.named? (mode.getD "") = some entry.mode ∧
    MappingItem.ofJson? item =
      some ⟨some entry.location, entry.required, entry.defaultValue, mode⟩
  located : entry.location ≠ ""
  resolved : ctx.resolvePath destination = .ok entry.path
  underRoot : isUnderRoot entry.path ctx.globalScope.path

end MappingEntry

namespace SimpleMapping

variable {m : SimpleMapping} {response : Json} {ctx : BindingContext} {evaluator : Evaluator}
  {source : String → Except BindingError (Option Json)} {before rest : List (String × Json)}
  {destination : String} {item : Json} {entry : MappingEntry}

/-! ## Planning one entry -/

/-- An item that names a source. Where it goes is looked at first, then the source, and then what stands
in for it. -/
theorem planItem_of_decoded {decoded : MappingItem} {mode : UpdateMode} {location : String}
    (hitem : MappingItem.ofJson? item = some decoded)
    (hmode : UpdateMode.named? (decoded.updateMode.getD "") = some mode)
    (hlocation : decoded.value.filter (!·.isEmpty) = some location) :
    planItem source ctx evaluator destination item =
      (liftReference (ctx.resolvePath destination)).bind fun path =>
        if isUnderRoot path ctx.globalScope.path then
          match source location with
          | .ok value => .ok (some ⟨path, value, mode⟩)
          | .error _ =>
            if decoded.required then .error (.requiredValueMissing location)
            else
              match decoded.defaultValue with
              | some standard =>
                (liftReference (evaluator.evaluate ctx standard (-1))).map fun value =>
                  some ⟨path, value, mode⟩
              | none => .ok none
        else .ok none := by
  unfold planItem
  rw [hitem]
  dsimp only
  rw [hmode, hlocation]
  cases ctx.resolvePath destination with
  | error error => rfl
  | ok path =>
    change (if !isUnderRoot path ctx.globalScope.path then _ else _) =
      if isUnderRoot path ctx.globalScope.path then _ else _
    cases isUnderRoot path ctx.globalScope.path <;> rfl

theorem planItem_eq (hentry : entry.IsListed ctx destination item) :
    planItem source ctx evaluator destination item =
      match source entry.location with
      | .ok value => .ok (some (entry.write value))
      | .error _ =>
        if entry.required then .error (.requiredValueMissing entry.location)
        else
          match entry.defaultValue with
          | some standard =>
            (liftReference (evaluator.evaluate ctx standard (-1))).map fun value =>
              some (entry.write value)
          | none => .ok none := by
  obtain ⟨mode, hmode, hitem⟩ := hentry.decoded
  have hlocation : (some entry.location).filter (!·.isEmpty) = some entry.location := by
    simpa using hentry.located
  rw [planItem_of_decoded hitem hmode hlocation, hentry.resolved]
  exact if_pos hentry.underRoot

/-- A location that is not in the response is an error. -/
theorem exists_fromResponse_eq_error {location : String}
    (h : response.get? (Dotted.split location) = none) :
    ∃ error, fromResponse response location = .error error := by
  unfold fromResponse
  by_cases hempty : location = ""
  · rw [hempty]
    exact ⟨_, rfl⟩
  · rw [retrieve_eq hempty, h]
    exact ⟨_, rfl⟩

/-! ## Planning a list -/

theorem plan_append (source : String → Except BindingError (Option Json)) (ctx : BindingContext)
    (evaluator : Evaluator) (front back : List (String × Json)) :
    plan source ctx evaluator (front ++ back) =
      (plan source ctx evaluator front).bind fun writes =>
        (plan source ctx evaluator back).map (writes ++ ·) := by
  induction front with
  | nil =>
    rw [List.nil_append, plan]
    cases plan source ctx evaluator back <;> rfl
  | cons entry front ih =>
    obtain ⟨destination, item⟩ := entry
    rw [List.cons_append, plan, ih, plan]
    cases planItem source ctx evaluator destination item with
    | error error => rfl
    | ok write =>
      cases plan source ctx evaluator front with
      | error error => rfl
      | ok writes =>
        cases plan source ctx evaluator back with
        | error error => rfl
        | ok others =>
          change Except.ok (write.toList ++ (writes ++ others)) =
            Except.ok (write.toList ++ writes ++ others)
          rw [List.append_assoc]

/-- One entry that cannot be planned is enough. -/
theorem exists_plan_eq_error {error : BindingError}
    (h : planItem source ctx evaluator destination item = .error error) :
    ∃ error, plan source ctx evaluator (before ++ (destination, item) :: rest) = .error error := by
  rw [plan_append, plan, h]
  cases plan source ctx evaluator before <;> exact ⟨_, rfl⟩

/-- An entry without a write might as well not be listed. -/
theorem plan_eq_of_none (h : planItem source ctx evaluator destination item = .ok none) :
    plan source ctx evaluator (before ++ (destination, item) :: rest) =
      plan source ctx evaluator (before ++ rest) := by
  rw [plan_append, plan_append, plan, h]
  cases plan source ctx evaluator rest <;> rfl

/-- A write comes between those of the entries around it. -/
theorem plan_eq_of_some {write : PlannedWrite} {front back : List PlannedWrite}
    (h : planItem source ctx evaluator destination item = .ok (some write))
    (hfront : plan source ctx evaluator before = .ok front)
    (hback : plan source ctx evaluator rest = .ok back) :
    plan source ctx evaluator (before ++ (destination, item) :: rest) =
      .ok (front ++ write :: back) := by
  rw [plan_append, hfront, plan, h, hback]
  rfl

end SimpleMapping

/-! ## Writing -/

/-- What setting a value, or deleting, leaves at its destination. A value is read there, unless an array
blocks the way. The root itself is not deleted; below the root of an object there is nothing afterwards,
or `null`. -/
def Json.Leaves (before after : Json) : Option Json → Option String → Prop
  | some value, relative =>
    (∃ found, after.readRelative relative = some found ∧ found == value) ∨
      after.IsBlocked (relative.elim [] Dotted.split)
  | none, none => after = before
  | none, some place =>
    before.isObject → after.at? (.ofText place) = none ∨ after.at? (.ofText place) = some .null

namespace SharedStore

variable {s next : SharedStore} {outcome : UpdateOutcome}

/-- An update that is answered has found the store open and the path below the root. -/
theorem of_updateAbsolute_eq_ok {path : String} {value : Option Json} {mode : UpdateMode}
    (h : s.updateAbsolute path value mode = (.ok outcome, next)) :
    s.poisoned = false ∧ next.Follows s ∧
      ∃ relative, relativeToRoot path s.store.settings.rootSegment = .ok relative := by
  have hopen : s.poisoned = false := by
    cases hpoisoned : s.poisoned with
    | false => rfl
    | true =>
      rw [updateAbsolute, run, access, if_pos hpoisoned] at h
      cases h
  cases hrelative : relativeToRoot path s.store.settings.rootSegment with
  | error error =>
    rw [updateAbsolute, run_of_open hopen] at h
    unfold Store.updateAbsolute at h
    rw [hrelative] at h
    cases h
  | ok relative =>
    obtain ⟨_, after, hcall, hfollows, -⟩ := updateAbsolute_of_open hopen hrelative value mode
    rw [h] at hcall
    cases hcall
    exact ⟨hopen, hfollows, relative, rfl⟩

theorem Makes.follows {writes : List PlannedWrite} (h : s.Makes writes next) : next.Follows s := by
  induction h with
  | nil s => exact .rfl
  | cons hcall _ ih => exact ih.trans (of_updateAbsolute_eq_ok hcall).2.1

/-- Writes are made in their order. -/
theorem Makes.of_append {front back : List PlannedWrite} (h : s.Makes (front ++ back) next) :
    ∃ mid, s.Makes front mid ∧ mid.Makes back next := by
  induction front generalizing s with
  | nil => exact ⟨s, .nil s, h⟩
  | cons write front ih =>
    cases h with
    | cons hcall hrest =>
      obtain ⟨mid, hfront, hback⟩ := ih hrest
      exact ⟨mid, .cons hcall hfront, hback⟩

/-- A write that sets or deletes leaves what it says. -/
theorem leaves_of_updateAbsolute {path : String} {value : Option Json} {relative : Option String}
    (hrelative : relativeToRoot path s.store.settings.rootSegment = .ok relative)
    (h : s.updateAbsolute path value .replace = (.ok outcome, next)) :
    s.store.tree.Leaves next.store.tree value relative := by
  have hopen := (of_updateAbsolute_eq_ok h).1
  cases relative with
  | some place =>
    have htree := tree_updateAbsolute_of_open hopen hrelative value .replace
    rw [h] at htree
    dsimp only at htree
    rw [htree]
    cases value with
    | some value => exact (s.store.tree.at?_updated_self (DataPath.ofText_ne_root place) value).2
    | none => exact fun hobject => Json.at?_updated_none hobject (DataPath.ofText_ne_root place)
  | none =>
    rw [updateAbsolute, run_of_open hopen] at h
    unfold Store.updateAbsolute at h
    rw [hrelative] at h
    cases value with
    | some value =>
      cases h
      exact Or.inl ⟨value, rfl, BEq.rfl⟩
    | none =>
      cases h
      rfl

end SharedStore

/-! ## Carrying out a mapping -/

namespace SimpleMapping

/-- Planning the sources in the response fails. Without a map for errors nothing is written then. -/
def Refuses (m : SimpleMapping) (response : Json) (ctx : BindingContext) (evaluator : Evaluator) :
    Prop :=
  ∃ error, plan (fromResponse response) ctx evaluator m.stringMap = .error error ∧
    (m.onErrorMap = none →
      ∀ target, m.apply response ctx evaluator target = (.error error, target))

/-- If the other entries of a list have the writes `front` and `back`, the mapping makes `write` in
between. A store with the root segment of the global scope answers all of them. -/
def Writes (m : SimpleMapping) (response : Json) (ctx : BindingContext) (evaluator : Evaluator)
    (source : String → Except BindingError (Option Json)) (before : List (String × Json))
    (write : PlannedWrite) (rest : List (String × Json)) : Prop :=
  ∀ front back, plan source ctx evaluator before = .ok front →
    plan source ctx evaluator rest = .ok back →
    (∀ target, m.apply response ctx evaluator target =
      writeAll (front ++ write :: back) target) ∧
    ∀ s : SharedStore, s.poisoned = false →
      ctx.globalScope.path = s.store.settings.rootSegment →
      ∃ mid outcome next after, s.Makes front mid ∧
        mid.updateAbsolute write.path write.value write.mode = (.ok outcome, next) ∧
        next.Makes back after ∧
        m.apply response ctx evaluator (.root s) = (.ok (), .root after) ∧
        (write.mode = .replace → ∀ relative,
          relativeToRoot write.path ctx.globalScope.path = .ok relative →
          mid.store.tree.Leaves next.store.tree write.value relative)

variable {m : SimpleMapping} {response : Json} {ctx : BindingContext} {evaluator : Evaluator}
  {source : String → Except BindingError (Option Json)} {before rest : List (String × Json)}
  {destination : String} {item : Json} {entry : MappingEntry}

theorem refuses_of_plan {error : BindingError}
    (h : plan (fromResponse response) ctx evaluator m.stringMap = .error error) :
    m.Refuses response ctx evaluator := by
  refine ⟨error, h, fun hnone target => ?_⟩
  rw [apply, planAll, h, hnone]

theorem isUnderRoot_of_plan {entries : List (String × Json)} {writes : List PlannedWrite}
    (h : plan source ctx evaluator entries = .ok writes) :
    ∀ write ∈ writes, isUnderRoot write.path ctx.globalScope.path := by
  rw [plan_eq] at h
  obtain ⟨kept, hkept, rfl⟩ := except_map_eq_ok h
  exact isUnderRoot_of_planEach hkept

/-- The list that is carried out has been planned. -/
theorem writes_of_plan {entries : List (String × Json)} {value : Option Json}
    (happly : ∀ writes, plan source ctx evaluator entries = .ok writes →
      ∀ target, m.apply response ctx evaluator target = writeAll writes target)
    (hentries : entries = before ++ (destination, item) :: rest)
    (hitem : planItem source ctx evaluator destination item = .ok (some (entry.write value))) :
    m.Writes response ctx evaluator source before (entry.write value) rest := by
  intro front back hfront hback
  have hplan := plan_eq_of_some hitem hfront hback
  rw [← hentries] at hplan
  refine ⟨happly _ hplan, fun s hopen hroot => ?_⟩
  have hwrites := isUnderRoot_of_plan hplan
  rw [hroot] at hwrites
  obtain ⟨after, hafter, hmakes⟩ := writeAll_of_open hopen hwrites
  obtain ⟨mid, hmid, hmakes⟩ := hmakes.of_append
  cases hmakes with
  | cons hcall hrest =>
    refine ⟨mid, _, _, after, hmid, hcall, hrest, (happly _ hplan _).trans hafter, ?_⟩
    intro hmode relative hrelative
    rw [hmode] at hcall
    rw [hroot, ← hmid.follows.settings] at hrelative
    exact SharedStore.leaves_of_updateAbsolute hrelative hcall

theorem apply_of_plan_response {writes : List PlannedWrite}
    (h : plan (fromResponse response) ctx evaluator m.stringMap = .ok writes) (target : Target) :
    m.apply response ctx evaluator target = writeAll writes target := by
  rw [apply, planAll, h]

theorem apply_of_plan_data {error : BindingError} {entries : List (String × Json)}
    {writes : List PlannedWrite}
    (hfailed : plan (fromResponse response) ctx evaluator m.stringMap = .error error)
    (hentries : m.onErrorMap = some entries)
    (h : plan (fromData ctx evaluator) ctx evaluator entries = .ok writes) (target : Target) :
    m.apply response ctx evaluator target = writeAll writes target := by
  rw [apply, planAll, hfailed, hentries]
  dsimp only
  rw [h]

/-- A reference that names nothing is written as a value that is not set. -/
theorem writes_of_missing_reference {error : BindingError}
    (hentry : entry.IsListed ctx destination item)
    (hfailed : plan (fromResponse response) ctx evaluator m.stringMap = .error error)
    (hentries : m.onErrorMap = some (before ++ (destination, item) :: rest))
    (hmissing : evaluator.evaluate ctx (.string entry.location) (-1) = .ok none) :
    m.Writes response ctx evaluator (fromData ctx evaluator) before (entry.write none) rest := by
  have hitem : planItem (fromData ctx evaluator) ctx evaluator destination item =
      .ok (some (entry.write none)) := by
    rw [planItem_eq hentry, fromData, hmissing]
    rfl
  exact writes_of_plan (fun writes => apply_of_plan_data hfailed hentries) rfl hitem

/-- **What becomes of a missing source.** Let an entry be listed in the map that is carried out.

If it is listed for the response and its location is not there, a required entry refuses the mapping,
and so does a default that cannot be evaluated. Without a default the mapping acts as if the entry were
not listed. Else the value of the default is written, or none if it evaluates to nothing.

If it is listed for errors and its reference names nothing, a write without a value is made, whether
the entry is required or not and whatever its default is. With `replace` it deletes what is there. -/
theorem apply_missing_source (m : SimpleMapping) (response : Json) (ctx : BindingContext)
    (evaluator : Evaluator) {before rest : List (String × Json)} {destination : String}
    {item : Json} {entry : MappingEntry} (hentry : entry.IsListed ctx destination item) :
    (m.stringMap = before ++ (destination, item) :: rest →
      response.get? (Dotted.split entry.location) = none →
      (entry.required → m.Refuses response ctx evaluator) ∧
      (entry.required = false → entry.defaultValue = none → ∀ target,
        m.apply response ctx evaluator target =
          { m with stringMap := before ++ rest }.apply response ctx evaluator target) ∧
      ∀ standard, entry.required = false → entry.defaultValue = some standard →
        (∀ error, evaluator.evaluate ctx standard (-1) = .error error →
          m.Refuses response ctx evaluator) ∧
        ∀ value, evaluator.evaluate ctx standard (-1) = .ok value →
          m.Writes response ctx evaluator (fromResponse response) before (entry.write value)
            rest) ∧
    ∀ error, plan (fromResponse response) ctx evaluator m.stringMap = .error error →
      m.onErrorMap = some (before ++ (destination, item) :: rest) →
      evaluator.evaluate ctx (.string entry.location) (-1) = .ok none →
      m.Writes response ctx evaluator (fromData ctx evaluator) before (entry.write none) rest := by
  refine ⟨fun hentries hmissing => ?_, fun error hfailed hinstead hnothing =>
    writes_of_missing_reference hentry hfailed hinstead hnothing⟩
  obtain ⟨absent, habsent⟩ := exists_fromResponse_eq_error hmissing
  have hitem : planItem (fromResponse response) ctx evaluator destination item = _ :=
    planItem_eq hentry
  rw [habsent] at hitem
  dsimp only at hitem
  refine ⟨fun hrequired => ?_, fun hoptional hdefault target => ?_,
    fun standard hoptional hdefault => ⟨fun error herror => ?_, fun value hvalue => ?_⟩⟩
  · rw [if_pos hrequired] at hitem
    obtain ⟨error, hplan⟩ := exists_plan_eq_error hitem
    exact refuses_of_plan (hentries ▸ hplan)
  · rw [if_neg (by simp [hoptional]), hdefault] at hitem
    have hplan : plan (fromResponse response) ctx evaluator m.stringMap =
        plan (fromResponse response) ctx evaluator (before ++ rest) := by
      rw [hentries]
      exact plan_eq_of_none hitem
    rw [apply, apply, planAll, planAll, hplan]
  · rw [if_neg (by simp [hoptional]), hdefault] at hitem
    dsimp only at hitem
    rw [herror] at hitem
    obtain ⟨error, hplan⟩ := exists_plan_eq_error hitem
    exact refuses_of_plan (hentries ▸ hplan)
  · rw [if_neg (by simp [hoptional]), hdefault] at hitem
    dsimp only at hitem
    rw [hvalue] at hitem
    exact writes_of_plan (fun writes => apply_of_plan_response) hentries hitem

/-- The age is not in the response and not required: only the name is mapped. -/
theorem apply_missing_source_of_age :
    let name := ("~~.name", Json.object [("value", .string "user.name")])
    let age := Json.object [("value", .string "user.age"), ("required", .bool false)]
    let response := Json.object [("user", .object [("name", .string "Ann")])]
    let ctx : BindingContext := .ofGlobal Store.empty.scope
    MappingEntry.IsListed ⟨"data.age", .replace, "user.age", false, none⟩ ctx "~~.age" age ∧
      ∀ target, SimpleMapping.apply { stringMap := [name, ("~~.age", age)] } response ctx {} target =
        SimpleMapping.apply { stringMap := [name] } response ctx {} target := by
  intro name age response ctx
  have hentry :
      MappingEntry.IsListed ⟨"data.age", .replace, "user.age", false, none⟩ ctx "~~.age" age :=
    ⟨⟨none, rfl, rfl⟩, by decide, rfl, by decide⟩
  have hmissing := (apply_missing_source { stringMap := [name, ("~~.age", age)] } response ctx {}
    hentry).1 (rfl : _ = [name] ++ ("~~.age", age) :: []) rfl
  exact ⟨hentry, hmissing.2.1 rfl rfl⟩

/-- The name is to come from a guest, but there is none: it is lost, although the entry is not required
and has no default. -/
theorem missing_reference_erases :
    let guest := Json.object [("value", .string "~~.guest"), ("required", .bool false)]
    let config := Json.object [
      ("stringMap", .object [("~~.other", .object [("value", .string "gone")])]),
      ("onErrorMap", .object [("~~.name", guest)])]
    let s : SharedStore := { store := { tree := .object [("name", .string "Ann")] } }
    let ctx : BindingContext := .ofGlobal s.store.scope
    ctx.evaluateScalar (.string "~~.guest") = .ok none ∧
      simpleMapping config (.object []) ctx {} (.root s) =
        (.ok (), .root { s with store := s.store.advance (.object []) }) := by
  intro guest config s ctx
  let m : SimpleMapping := {
    stringMap := [("~~.other", .object [("value", .string "gone")])]
    onErrorMap := some [("~~.name", guest)] }
  have hnothing : ctx.evaluateScalar (.string "~~.guest") = .ok none := rfl
  have hmissing : Evaluator.evaluate {} ctx (.string "~~.guest") (-1) = .ok none := by
    rw [Evaluator.evaluate_eq_boundedPasses_passBound]
    change ctx.evaluateThen _ _ = _
    rw [BindingContext.evaluateThen, hnothing]
    rfl
  have hentry :
      MappingEntry.IsListed ⟨"data.name", .replace, "~~.guest", false, none⟩ ctx "~~.name" guest :=
    ⟨⟨none, rfl, rfl⟩, by decide, rfl, by decide⟩
  have hfailed : plan (fromResponse (.object []))
      (.ofGlobal ⟨.object [("name", .string "Ann")], "data"⟩) {} m.stringMap =
        .error (.requiredValueMissing "gone") := rfl
  have hentries : m.onErrorMap = some ([] ++ ("~~.name", guest) :: []) := rfl
  have hwrites := writes_of_missing_reference hentry hfailed hentries hmissing [] [] rfl rfl
  have hdeleted : writeAll [⟨"data.name", none, .replace⟩]
      (.root { store := { tree := .object [("name", .string "Ann")] } }) =
        (.ok (), .root { s with store := s.store.advance (.object []) }) := rfl
  exact ⟨hnothing, (hwrites.1 (.root s)).trans hdeleted⟩

end SimpleMapping

end DataBinding
