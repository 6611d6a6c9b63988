import DataBinding.Document
import DataBinding.Proofs.Nested.Projection
import DataBinding.Proofs.Reference.AbsolutePath
import DataBinding.Proofs.Update.Order

/-!
# The order in which sources answer

The answers to additional sources come in any order, and each is merged into the data as it is at that
moment. What a merge reads of the data is only the root segment, so its writes are known from the
answer alone. If different sources write to independent places, the data at the end is the same for
every order, and the same as if the sources without effect had not been asked.

* `Arrival.writes`: the writes of an answer below the root.
* `Arrival.arrive_spec`: one answer makes these writes and no others.
* `arriveAll_spec`: all answers, by induction on their order.
* `merge_order_irrelevant`: any order of the answers.
-/

namespace DataBinding

/-! ## What an answer writes -/

namespace DataSource

/-- The place that a location leads to, seen from the root. It leads nowhere if it does not resolve or
resolves outside of the root. -/
def place? (root location : String) : Option DataPath :=
  match Reference.resolveText root root root location with
  | .error _ => none
  | .ok path =>
    match relativeToRoot path root with
    | .error _ => none
    | .ok relative => some (relative.elim .root .ofText)

/-- The writes of a body below the root, for a source without a mapping. -/
def writes (s : DataSource) (root : String) (body : Json) : List (DataPath × Option Json) :=
  match s.path with
  | some location => (place? root location).toList.map fun place => (place, some body)
  | none =>
    match body with
    | .object members => members.map fun member => (.ofText member.1, some member.2)
    | _ => []

end DataSource

/-- A source, and what its request is answered. -/
structure Arrival where
  source : DataSource
  answer : Except BindingError Response

namespace Arrival

/-- The body that is merged, after all processors. Without a URL or after a failure there is none. -/
def body? (a : Arrival) (engine : Engine) (session : Session) : Option Json :=
  match a.source.src, a.answer with
  | some src, .ok response =>
    let request : Request :=
      { method := Request.methodName (a.source.method.getD "GET"), url := src,
        headers := session.headers }
    some (alterData request response response.body false engine.processors)
  | _, _ => none

def writes (a : Arrival) (engine : Engine) (session : Session) (root : String) :
    List (DataPath × Option Json) :=
  (a.body? engine session).elim [] (a.source.writes root)

/-- The places that an answer writes to: the one that the path of the source leads to, or without a
path one for every name of an object, which is a path of one segment if it has no dot. -/
def destinations (a : Arrival) (engine : Engine) (session : Session) (root : String) :
    List DataPath :=
  (a.writes engine session root).map Prod.fst

/-- Whether a source has a URL, is answered with a response, and leads below the root if it has a
path. -/
def isUseful (a : Arrival) (root : String) : Bool :=
  a.source.src.isSome && a.answer.isOk && a.source.path.all fun location =>
    (DataSource.place? root location).isSome

/-- The answer arrives and is merged. -/
def arrive (a : Arrival) (engine : Engine) (state : AppState) : AppState :=
  a.source.fetch { engine with transport := fun _ => a.answer } state

theorem writes_of_not_isUseful {a : Arrival} {root : String} (h : a.isUseful root = false)
    (engine : Engine) (session : Session) : a.writes engine session root = [] := by
  obtain ⟨source, answer⟩ := a
  cases hsrc : source.src with
  | none => simp [writes, body?, hsrc]
  | some src =>
    cases answer with
    | error error => simp [writes, body?, hsrc]
    | ok response =>
      have hpath : ¬ source.path.all fun location => (DataSource.place? root location).isSome := by
        intro hall
        simp [isUseful, hsrc, hall, Except.isOk, Except.toBool] at h
      cases hlocation : source.path with
      | none => simp [hlocation] at hpath
      | some location =>
        have hnowhere : DataSource.place? root location = none := by
          simpa [hlocation] using hpath
        simp [writes, body?, hsrc, DataSource.writes, hlocation, hnowhere]

end Arrival

/-- The answers arrive in the order of the list. -/
def arriveAll (engine : Engine) (arrivals : List Arrival) (state : AppState) : AppState :=
  arrivals.foldl (fun state arrival => arrival.arrive engine state) state

/-! ## One merge -/

/-- A root store after some writes below its root, and nothing else of it is changed. -/
structure SharedStore.Wrote (before after : SharedStore) (writes : List (DataPath × Option Json)) :
    Prop where
  follows : after.Follows before
  tree : after.store.tree = before.store.tree.replacedAll writes

namespace SharedStore.Wrote

variable {first second third : SharedStore} {writes writes' : List (DataPath × Option Json)}

theorem rfl : first.Wrote first [] := ⟨.rfl, Eq.refl _⟩

theorem append (h : first.Wrote second writes) (h' : second.Wrote third writes') :
    first.Wrote third (writes ++ writes') := by
  refine ⟨h'.follows.trans h.follows, ?_⟩
  rw [Json.replacedAll_append, ← h.tree]
  exact h'.tree

end SharedStore.Wrote

section Merge

variable {s : SharedStore} (hopen : s.poisoned = false)

include hopen

/-- A write below the root that the store takes. -/
theorem SharedStore.updateAbsolute_wrote {path below : String}
    (hrelative : relativeToRoot path s.store.settings.rootSegment = .ok (some below))
    (value : Json) :
    ∃ outcome after, s.updateAbsolute path (some value) .replace = (.ok outcome, after) ∧
      s.Wrote after [(.ofText below, some value)] := by
  obtain ⟨outcome, after, hcall, hfollows, htree⟩ :=
    updateAbsolute_of_open hopen hrelative (some value) .replace
  exact ⟨outcome, after, hcall, hfollows, htree below rfl⟩

/-- The members of a body are all written. -/
theorem mergeMembers_wrote (members : List (String × Json)) (outcome : UpdateOutcome) :
    ∃ changed after,
      DataSource.mergeMembers s.store.settings.rootSegment outcome members (.root s) =
        (.ok changed, .root after) ∧
      s.Wrote after (members.map fun member => (.ofText member.1, some member.2)) := by
  induction members generalizing s outcome with
  | nil => exact ⟨outcome, s, rfl, .rfl⟩
  | cons member members ih =>
    obtain ⟨name, value⟩ := member
    obtain ⟨changed, next, hcall, hwrote⟩ := SharedStore.updateAbsolute_wrote hopen
      (relativeToRoot_append s.store.settings.rootSegment name) value
    obtain ⟨last, after, hrest, hlater⟩ := ih (hwrote.follows.poisoned.trans hopen)
      (if changed.isChanged then changed else outcome)
    rw [hwrote.follows.settings] at hrest
    refine ⟨last, after, ?_, hwrote.append hlater⟩
    rw [DataSource.mergeMembers, Target.updateAbsolute, hcall]
    exact hrest

/-- A body is merged by its writes, unless it replaces the data as a whole. -/
theorem DataSource.merge_wrote {source : DataSource} (hmapping : source.dataMapping = none)
    (engine : Engine) (body : Json)
    (hroot : ∀ write ∈ source.writes s.store.settings.rootSegment body, write.1 ≠ .root) :
    ∃ answer after,
      source.merge engine body (.ofGlobal s.store.scope) (.root s) = (answer, .root after) ∧
      s.Wrote after (source.writes s.store.settings.rootSegment body) := by
  unfold DataSource.merge
  unfold DataSource.writes at hroot ⊢
  rw [hmapping]
  cases hpath : source.path with
  | none =>
    cases body with
    | object members =>
      obtain ⟨changed, after, hmerge, hwrote⟩ := mergeMembers_wrote hopen members .unchanged
      exact ⟨.ok changed, after, hmerge, hwrote⟩
    | _ => exact ⟨_, s, rfl, .rfl⟩
  | some location =>
    rw [hpath] at hroot
    dsimp only at hroot ⊢
    unfold place? at hroot ⊢
    have hresolve : (BindingContext.ofGlobal s.store.scope).resolvePath location =
        Reference.resolveText s.store.settings.rootSegment s.store.settings.rootSegment
          s.store.settings.rootSegment location := rfl
    rw [hresolve]
    cases hresolved : Reference.resolveText s.store.settings.rootSegment
        s.store.settings.rootSegment s.store.settings.rootSegment location with
    | error error => exact ⟨_, s, rfl, .rfl⟩
    | ok path =>
      rw [hresolved] at hroot
      dsimp only at hroot ⊢
      cases hrelative : relativeToRoot path s.store.settings.rootSegment with
      | error error =>
        refine ⟨.error (.store error), s, ?_, .rfl⟩
        simp [Target.updateAbsolute, SharedStore.updateAbsolute, SharedStore.run_of_open hopen,
          Store.updateAbsolute, hrelative, liftStore, Except.mapError]
      | ok relative =>
        rw [hrelative] at hroot
        cases relative with
        | none => exact absurd rfl (hroot _ (List.mem_singleton.mpr rfl))
        | some below =>
          obtain ⟨outcome, after, hcall, hwrote⟩ :=
            SharedStore.updateAbsolute_wrote hopen hrelative body
          refine ⟨liftStore (.ok outcome), after, ?_, hwrote⟩
          rw [Target.updateAbsolute, hcall]

end Merge

/-! ## One answer -/

namespace Arrival

theorem session_arrive (a : Arrival) (engine : Engine) (state : AppState) :
    (a.arrive engine state).session = state.session := by
  unfold arrive DataSource.fetch
  split <;> rfl

/-- Merging needs no more of an answer than its body. -/
theorem target_arrive (a : Arrival) (engine : Engine) (state : AppState) :
    (a.arrive engine state).target =
      match a.body? engine state.session, state.target.scope with
      | some body, .ok scope => (a.source.merge engine body (.ofGlobal scope) state.target).2
      | _, _ => state.target := by
  obtain ⟨source, answer⟩ := a
  unfold arrive DataSource.fetch body?
  cases hsrc : source.src with
  | none => rfl
  | some src =>
    cases answer with
    | error error => rfl
    | ok response =>
      change source.receive _ _ (.ok response) state.target = _
      unfold DataSource.receive
      cases state.target.scope <;> rfl

variable {a : Arrival} {engine : Engine} {state : AppState} {s : SharedStore}

/-- A poisoned store takes no part. -/
theorem arrive_of_poisoned (htarget : state.target = .root s) (hpoisoned : s.poisoned = true) :
    (a.arrive engine state).target = .root s := by
  have hscope : (Target.root s).scope = .error .poisoned := by
    simp [Target.scope, Target.store, SharedStore.scope, SharedStore.access, hpoisoned, Except.map]
  rw [target_arrive, htarget, hscope]
  cases a.body? engine state.session <;> rfl

/-- One answer makes its writes, from whatever the data is when it arrives. -/
theorem arrive_spec (htarget : state.target = .root s) (hopen : s.poisoned = false)
    (hmapping : a.source.dataMapping = none)
    (hroot : .root ∉ a.destinations engine state.session s.store.settings.rootSegment) :
    ∃ after, (a.arrive engine state).target = .root after ∧
      s.Wrote after (a.writes engine state.session s.store.settings.rootSegment) := by
  have hscope : (Target.root s).scope = .ok s.store.scope := SharedStore.scope_of_open hopen
  rw [target_arrive, htarget, hscope]
  unfold destinations at hroot
  unfold writes at hroot ⊢
  generalize a.body? engine state.session = body at hroot ⊢
  cases body with
  | none => exact ⟨s, rfl, .rfl⟩
  | some body =>
    have hbelow : ∀ write ∈ a.source.writes s.store.settings.rootSegment body,
        write.1 ≠ .root := by
      intro write hwrite hpath
      exact hroot (hpath ▸ List.mem_map_of_mem hwrite)
    obtain ⟨answer, after, hmerge, hwrote⟩ :=
      DataSource.merge_wrote hopen hmapping engine body hbelow
    exact ⟨after, congrArg Prod.snd hmerge, hwrote⟩

end Arrival

/-! ## All answers -/

section Arrivals

variable {engine : Engine} {state : AppState} {s : SharedStore} {arrivals : List Arrival}

/-- The sources of a list are fetched as if their answers arrived in its order. -/
theorem fetchAll_eq_arriveAll (sources : List DataSource) (engine : Engine) (state : AppState) :
    fetchAll sources engine state =
      arriveAll engine (sources.map fun source =>
        ⟨source, engine.transport (state.request (source.method.getD "GET")
          (source.src.getD "") none)⟩) state := by
  induction sources generalizing state with
  | nil => rfl
  | cons source sources ih =>
    have hstep : source.fetch engine state = Arrival.arrive ⟨source, engine.transport
        (state.request (source.method.getD "GET") (source.src.getD "") none)⟩ engine state := by
      unfold Arrival.arrive DataSource.fetch
      cases source.src <;> rfl
    have hrequest : (source.fetch engine state).request = state.request := by
      unfold DataSource.fetch
      cases source.src <;> rfl
    change fetchAll sources engine (source.fetch engine state) = _
    rw [ih, hrequest, hstep]
    rfl

theorem arriveAll_of_poisoned (htarget : state.target = .root s) (hpoisoned : s.poisoned = true)
    (arrivals : List Arrival) : (arriveAll engine arrivals state).target = .root s := by
  induction arrivals generalizing state with
  | nil => exact htarget
  | cons arrival arrivals ih =>
    exact ih (Arrival.arrive_of_poisoned htarget hpoisoned)

/-- The answers make their writes in the order in which they arrive. -/
theorem arriveAll_spec (htarget : state.target = .root s) (hopen : s.poisoned = false)
    (hmapping : ∀ arrival ∈ arrivals, arrival.source.dataMapping = none)
    (hroot : ∀ arrival ∈ arrivals,
      .root ∉ arrival.destinations engine state.session s.store.settings.rootSegment) :
    ∃ after, (arriveAll engine arrivals state).target = .root after ∧
      s.Wrote after (arrivals.map fun arrival =>
        arrival.writes engine state.session s.store.settings.rootSegment).flatten := by
  induction arrivals generalizing state s with
  | nil => exact ⟨s, htarget, .rfl⟩
  | cons arrival arrivals ih =>
    rw [List.forall_mem_cons] at hmapping hroot
    obtain ⟨next, hnext, hwrote⟩ := Arrival.arrive_spec htarget hopen hmapping.1 hroot.1
    have hsession := arrival.session_arrive engine state
    have hsettings := hwrote.follows.settings
    obtain ⟨after, hafter, hlater⟩ := ih hnext (hwrote.follows.poisoned.trans hopen) hmapping.2 (by
      rw [hsession, hsettings]
      exact hroot.2)
    rw [hsession, hsettings] at hlater
    exact ⟨after, hafter, hwrote.append hlater⟩

/-- A source without effect makes no writes. -/
theorem flatten_writes_filter (engine : Engine) (session : Session) (root : String)
    (arrivals : List Arrival) :
    ((arrivals.filter (·.isUseful root)).map (·.writes engine session root)).flatten =
      (arrivals.map (·.writes engine session root)).flatten := by
  induction arrivals with
  | nil => rfl
  | cons arrival arrivals ih =>
    rw [List.filter_cons, List.map_cons, List.flatten_cons]
    cases huseful : arrival.isUseful root with
    | true => rw [if_pos rfl, List.map_cons, List.flatten_cons, ih]
    | false =>
      rw [if_neg Bool.false_ne_true, Arrival.writes_of_not_isUseful huseful, ih, List.nil_append]

/-- **The data at the end does not depend on which source answers first.** Sources without a mapping
are answered in any way, and their answers are merged into a root store that holds an object. If no
answer goes to the bare root, and if the places of different answers are independent in this object,
then every order of the answers leaves equal data, also if the sources are left out that have no URL,
are answered with a failure, or have a path that does not lead below the root. -/
theorem merge_order_irrelevant {engine : Engine} {state : AppState} {store : SharedStore}
    (htarget : state.target = .root store) (hobject : store.store.tree.isObject)
    {arrivals : List Arrival}
    (hmapping : ∀ arrival ∈ arrivals, arrival.source.dataMapping = none)
    (hroot : ∀ arrival ∈ arrivals,
      .root ∉ arrival.destinations engine state.session store.store.settings.rootSegment)
    (hindependent : arrivals.Pairwise fun first second =>
      ∀ p ∈ first.destinations engine state.session store.store.settings.rootSegment,
        ∀ q ∈ second.destinations engine state.session store.store.settings.rootSegment,
          store.store.tree.Independent p q)
    {order : List Arrival}
    (horder : order.Perm arrivals ∨
      order.Perm (arrivals.filter (·.isUseful store.store.settings.rootSegment))) :
    (arriveAll engine order state).target.store.store.tree ==
      (arriveAll engine arrivals state).target.store.store.tree := by
  cases hpoisoned : store.poisoned with
  | true =>
    rw [arriveAll_of_poisoned htarget hpoisoned, arriveAll_of_poisoned htarget hpoisoned]
    exact BEq.rfl
  | false =>
    obtain ⟨kept, hperm, hsublist, hwrites⟩ : ∃ kept : List Arrival, order.Perm kept ∧
        kept.Sublist arrivals ∧
        (kept.map (·.writes engine state.session store.store.settings.rootSegment)).flatten =
          (arrivals.map (·.writes engine state.session store.store.settings.rootSegment)).flatten := by
      rcases horder with hall | huseful
      · exact ⟨arrivals, hall, .refl _, rfl⟩
      · exact ⟨_, huseful, List.filter_sublist, flatten_writes_filter ..⟩
    have hmem : ∀ arrival ∈ order, arrival ∈ arrivals := fun arrival harrival =>
      hsublist.mem (hperm.mem_iff.mp harrival)
    obtain ⟨after, hafter, hwrote⟩ := arriveAll_spec htarget hpoisoned hmapping hroot
    obtain ⟨after', hafter', hwrote'⟩ := arriveAll_spec htarget hpoisoned
      (fun arrival harrival => hmapping arrival (hmem arrival harrival))
      fun arrival harrival => hroot arrival (hmem arrival harrival)
    rw [hafter, hafter']
    change after'.store.tree == after.store.tree
    rw [hwrote.tree, hwrote'.tree, ← hwrites]
    refine BEq.symm (Json.replacedAll_flatten_perm (hperm.symm.map _) hobject ?_ ?_)
    · rw [List.pairwise_map]
      refine (hindependent.sublist hsublist).imp fun hpair write hwrite write' hwrite' => ?_
      exact hpair _ (List.mem_map_of_mem hwrite) _ (List.mem_map_of_mem hwrite')
    · intro group hgroup write hwrite hpath
      obtain ⟨arrival, harrival, rfl⟩ := List.mem_map.mp hgroup
      exact hroot arrival (hsublist.mem harrival) (hpath ▸ List.mem_map_of_mem hwrite)

/-- The second row arrives before the first one, and one source is not answered. -/
theorem merge_order_irrelevant_for_rows :
    (arriveAll { transport := fun _ => .error .invalidDocument }
          [⟨{ src := "/first", path := "~~.rows.0" }, .ok { body := .bool true }⟩,
            ⟨{ src := "/second", path := "~~.rows.1" }, .ok { body := .bool false }⟩]
          { target := .root { store := { tree := .object [("rows", .array [])] } } }
        ).target.store.store.tree ==
      (arriveAll { transport := fun _ => .error .invalidDocument }
          [⟨{ src := "/second", path := "~~.rows.1" }, .ok { body := .bool false }⟩,
            ⟨{ src := "/first", path := "~~.rows.0" }, .ok { body := .bool true }⟩,
            ⟨{ src := "/lost", path := "~~.rows" }, .error .invalidDocument⟩]
          { target := .root { store := { tree := .object [("rows", .array [])] } } }
        ).target.store.store.tree := by
  refine merge_order_irrelevant rfl rfl (by simp) (by decide) ?_ (Or.inr (.swap _ _ []))
  have hrows : (Json.object [("rows", .array [])]).Independent ⟨["rows", "1"]⟩ ⟨["rows", "0"]⟩ :=
    ⟨⟨by decide, by decide⟩, Json.not_aliased_of_parting _ ["rows"] (by decide) (by decide)⟩
  refine .cons (List.forall_mem_cons.mpr ⟨?_, List.forall_mem_singleton.mpr ?_⟩)
    (.cons (List.forall_mem_singleton.mpr ?_) (List.pairwise_singleton _ _))
  · change ∀ p ∈ [(⟨["rows", "1"]⟩ : DataPath)], ∀ q ∈ [(⟨["rows", "0"]⟩ : DataPath)],
      (Json.object [("rows", .array [])]).Independent p q
    simpa using hrows
  · change ∀ p ∈ [(⟨["rows", "1"]⟩ : DataPath)], ∀ q ∈ ([] : List DataPath),
      (Json.object [("rows", .array [])]).Independent p q
    simp
  · change ∀ p ∈ [(⟨["rows", "0"]⟩ : DataPath)], ∀ q ∈ ([] : List DataPath),
      (Json.object [("rows", .array [])]).Independent p q
    simp

end Arrivals

end DataBinding
