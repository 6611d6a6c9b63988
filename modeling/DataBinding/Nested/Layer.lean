import DataBinding.Store

/-!
# Layers

A layer is a store over data that is projected from a parent: an override, which may hold references
into the parent, is evaluated there in one pass. An update of a place that a reference covers belongs
to the parent.

A reference map lists the places of an override that hold references, with the references there, in
the order in which they are met. The path of a place is relative to the root of the override.

* `ReferenceMap.ofOverride`: all references of an override, down to a depth.
* `ReferenceMap.match?`: the entry that covers a path.
* `Layer.project`: the data of a layer, seen from its parent.
* `Layer.parentPath?`: where in the parent an update belongs.
* `Layer.resync`: reads the referenced places again.
-/

namespace DataBinding

/-! ## Reference maps -/

structure ReferenceMap where
  entries : List (DataPath × String) := []

namespace ReferenceMap

/-- The map with one more entry at its end. -/
def insert (m : ReferenceMap) (path : DataPath) (reference : String) : ReferenceMap :=
  ⟨m.entries ++ [(path, reference)]⟩

def size (m : ReferenceMap) : Nat := m.entries.length

def isEmpty (m : ReferenceMap) : Bool := m.entries.isEmpty

/-- A dotted path below the root of an override, where the empty text is the root itself. -/
def overridePath (text : String) : DataPath :=
  if text.isEmpty then .root else .ofText text

/-- The reference at a dotted path. -/
def get? (m : ReferenceMap) (path : String) : Option String :=
  (m.entries.find? fun entry => entry.1 = overridePath path).map Prod.snd

/-- The first entry that covers a dotted path: the rest of the path below it, and its reference. -/
def match? (m : ReferenceMap) (path : String) : Option (DataPath × String) :=
  m.entries.findSome? fun (key, reference) =>
    ((overridePath path).below? key).map fun rest => (rest, reference)

/-! ### The references of an override -/

mutual

/-- The references in the value at `path`, at most `room` segments below it. -/
def scan (room : Nat) (path : DataPath) : Json → List (DataPath × String)
  | .string value => if (Reference.parse? value).isSome then [(path, value)] else []
  | .array items => if room = 0 then [] else scanItems (room - 1) path 0 items
  | .object members => if room = 0 then [] else scanMembers (room - 1) path members
  | _ => []

/-- The references in the elements from `index` on. -/
def scanItems (room : Nat) (path : DataPath) (index : Nat) : List Json → List (DataPath × String)
  | [] => []
  | item :: items =>
    scan room (path.push (toString index)) item ++ scanItems room path (index + 1) items

def scanMembers (room : Nat) (path : DataPath) :
    List (String × Json) → List (DataPath × String)
  | [] => []
  | (name, value) :: members =>
    scan room (path.push name) value ++ scanMembers room path members

end

/-- The references of an override whose paths have at most `maxDepth` segments. A value that does not
count as set has none. -/
def ofOverride (dataOverride : Json) (maxDepth : Nat) : ReferenceMap :=
  ⟨if dataOverride.isTruthy then scan maxDepth .root dataOverride else []⟩

end ReferenceMap

/-! ## Layers over a parent -/

structure Layer where
  /-- The local copy of the data. -/
  store : SharedStore
  dataOverride : Json
  /-- Where the override holds references. -/
  references : ReferenceMap
  /-- The absolute path, in the parent, at which the layer is mounted. -/
  anchor : String

namespace Layer

/-- The override evaluated in one pass. Local references start from the place of `anchor` in the
parent, where an anchor outside of the parent has no data. -/
def project (dataOverride : Json) (anchor : String) (parent : Scope) :
    Except ReferenceError Json :=
  let localTree :=
    match relativeToRoot anchor parent.path with
    | .ok none => parent.tree
    | .ok (some relative) => (parent.tree.at? (.ofText relative)).getD .null
    | .error _ => .null
  let evaluator : Evaluator := {}
  (evaluator.evaluate ⟨⟨localTree, anchor⟩, parent⟩ dataOverride 1).map (·.getD .null)

/-- A new layer over a parent with the given scope. -/
def ofOverride (dataOverride : Json) (anchor : String) (settings : StoreSettings)
    (parent : Except StoreError Scope) : Except StoreError Layer := do
  let tree ← (project dataOverride anchor (← parent)).mapError .reference
  return {
    store := { store := { tree, settings } }
    dataOverride
    references := .ofOverride dataOverride settings.referenceScanDepth.toNat
    anchor }

/-- The absolute path in the parent to which an update at a local path belongs. There is none if no
reference covers the path, or if the reference that does cannot be resolved. -/
def parentPath? (l : Layer) (parent : Except StoreError Scope) (path : String) :
    Option String := do
  let (rest, reference) ← l.references.match? path
  let scope ← parent.toOption
  let place ← (Reference.resolveText l.anchor l.anchor scope.path reference).toOption
  return if rest.isRoot then place else place ++ "." ++ rest.text

/-- Writes the projected value of one referenced place into the local copy, and says whether that
changed it. The root is replaced as a whole. -/
def refresh (projected : Json) (path : DataPath) (s : SharedStore) :
    Except StoreError Bool × SharedStore :=
  s.run fun store =>
    if path.isRoot then
      if store.tree == projected then (.ok false, store) else (.ok true, store.replace projected)
    else
      let (outcome, store) := store.updatePath path (projected.at? path) .replace
      (.ok (outcome == .applied), store)

/-- Refreshes several places in order, up to the first that fails. -/
def refreshAll (projected : Json) :
    List (DataPath × String) → SharedStore → Except StoreError Bool × SharedStore
  | [], s => (.ok false, s)
  | (path, _) :: entries, s =>
    match refresh projected path s with
    | (.error error, s) => (.error error, s)
    | (.ok changed, s) =>
      let (others, s) := refreshAll projected entries s
      (others.map (changed || ·), s)

/-- Reads every referenced place from the parent again, and says whether the local copy changed. What
was written locally elsewhere stays. -/
def resync (l : Layer) (parent : Except StoreError Scope) : Except StoreError Bool × Layer :=
  match parent with
  | .error error => (.error error, l)
  | .ok scope =>
    match project l.dataOverride l.anchor scope with
    | .error error => (.error (.reference error), l)
    | .ok projected =>
      let (changed, store) := refreshAll projected l.references.entries l.store
      (changed, { l with store })

/-- The local path that an absolute path means. -/
def localPath (l : Layer) (path : String) : Except StoreError (Option String) := do
  let store ← l.store.access
  relativeToRoot path store.settings.rootSegment

end Layer

end DataBinding
