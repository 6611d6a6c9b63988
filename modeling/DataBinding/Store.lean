import DataBinding.Evaluation
import DataBinding.Update

/-!
# Stores

A store holds a tree and a revision. Each update that changes the tree moves the revision on and
publishes it; replacing the tree as a whole resets the revision to 0 and publishes that. The revision
counter wraps back to 1 before it reaches `revisionWrap`; wraps below `minRevisionWrap` count as that, so
that a revision always differs from the one before.

A store that several holders share is poisoned once a holder fails with it in hand. A poisoned store
is neither read nor written any more.

* `Store.update`, `Store.set`: an update at a path relative to the root.
* `Store.updateAbsolute`: an update at an absolute path, which starts with the root segment.
* `SharedStore.run`: an operation on a store that may be poisoned.
* `BindingError`: what can go wrong in reactions, mappings, sources, actions and documents, with the text
  of each.
-/

namespace DataBinding

/-! ## Settings -/

structure StoreSettings where
  /-- The bound of the revision counter: the largest integer that a double holds exactly along with
  all below it. -/
  revisionWrap : UInt64 := 9007199254740991
  /-- How deep an override is searched for references. -/
  referenceScanDepth : UInt64 := 50
  /-- The first segment of every absolute path into the store. -/
  rootSegment : String := "data"
  deriving DecidableEq

namespace StoreSettings

/-- The smallest wrap with which revisions change. -/
def minRevisionWrap : UInt64 := 3

/-- Sets the wrap, raised to the smallest one that works. -/
def withRevisionWrap (s : StoreSettings) (wrap : UInt64) : StoreSettings :=
  { s with revisionWrap := max wrap minRevisionWrap }

def nextRevision (s : StoreSettings) (revision : Nat) : Nat :=
  revision % ((max s.revisionWrap minRevisionWrap).toNat - 1) + 1

end StoreSettings

/-! ## Outcomes and errors -/

inductive UpdateOutcome where
  /-- The tree changed. -/
  | applied
  | unchanged
  /-- The update went to a store nearer to the root. -/
  | forwarded
  deriving DecidableEq

/-- Whether anything may have changed. -/
def UpdateOutcome.isChanged (outcome : UpdateOutcome) : Bool := outcome != .unchanged

inductive StoreError where
  | reference (error : ReferenceError)
  | outsideRoot (path root : String)
  /-- A task failed while it had the store to itself. -/
  | poisoned
  deriving DecidableEq

def StoreError.message : StoreError → String
  | .reference error => error.message
  | .outsideRoot path root => "path " ++ path ++ " is outside of the store root " ++ root
  | .poisoned => "store unavailable: store mutex poisoned"

/-! ## Publication -/

/-- The last revision published, and how many were published so far. -/
structure Channel where
  latest : Nat := 0
  count : Nat := 0
  deriving DecidableEq

namespace Channel

def publish (c : Channel) (revision : Nat) : Channel := ⟨revision, c.count + 1⟩

/-- Whether anything was published since the channel was `earlier`. -/
def isNewerThan (c earlier : Channel) : Bool := c.count != earlier.count

end Channel

/-! ## Stores -/

structure Store where
  tree : Json
  revision : Nat := 0
  settings : StoreSettings := {}
  channel : Channel := {}

/-- What an absolute path means below `root`: nothing for the root itself, else the path relative to
it. -/
def relativeToRoot (path root : String) : Except StoreError (Option String) :=
  if path = root then .ok none
  else
    match root.toList.isPrefixOf? path.toList with
    | some ('.' :: rest) => .ok (some (String.ofList rest))
    | _ => .error (.outsideRoot path root)

namespace Store

def empty : Store := { tree := .object [] }

def scope (s : Store) : Scope := ⟨s.tree, s.settings.rootSegment⟩

def get? (s : Store) (path : String) : Option Json := s.tree.at? (.ofText path)

/-- The store with a changed tree: the revision moves on and is published. -/
def advance (s : Store) (tree : Json) : Store :=
  let revision := s.settings.nextRevision s.revision
  { s with tree, revision, channel := s.channel.publish revision }

/-- The store with another tree altogether. -/
def replace (s : Store) (tree : Json) : Store :=
  { s with tree, revision := 0, channel := s.channel.publish 0 }

def updatePath (s : Store) (path : DataPath) (value : Option Json) (mode : UpdateMode) :
    UpdateOutcome × Store :=
  match s.tree.update? path value mode with
  | some tree => (.applied, s.advance tree)
  | none => (.unchanged, s)

def update (s : Store) (path : String) (value : Option Json) (mode : UpdateMode) :
    UpdateOutcome × Store :=
  s.updatePath (.ofText path) value mode

/-- Sets a value at a path. -/
def set (s : Store) (path : String) (value : Json) : UpdateOutcome × Store :=
  s.update path (some value) .replace

/-- An update at an absolute path. At the root itself a value replaces the whole tree, and everything
else is without effect. -/
def updateAbsolute (s : Store) (path : String) (value : Option Json) (mode : UpdateMode) :
    Except StoreError UpdateOutcome × Store :=
  match relativeToRoot path s.settings.rootSegment with
  | .error error => (.error error, s)
  | .ok (some relative) =>
    let (outcome, s) := s.update relative value mode
    (.ok outcome, s)
  | .ok none =>
    match mode, value with
    | .replace, some tree => (.ok .applied, s.replace tree)
    | _, _ => (.ok .unchanged, s)

end Store

/-! ## Shared stores -/

structure SharedStore where
  store : Store
  poisoned : Bool := false

namespace SharedStore

/-- The store, unless it is poisoned. -/
def access (s : SharedStore) : Except StoreError Store :=
  if s.poisoned then .error .poisoned else .ok s.store

/-- Runs an operation on the store, unless it is poisoned. -/
def run {α : Type} (s : SharedStore) (operation : Store → Except StoreError α × Store) :
    Except StoreError α × SharedStore :=
  match s.access with
  | .error error => (.error error, s)
  | .ok store =>
    let (result, store) := operation store
    (result, { s with store })

def update (s : SharedStore) (path : String) (value : Option Json) (mode : UpdateMode) :
    Except StoreError UpdateOutcome × SharedStore :=
  s.run fun store => let (outcome, store) := store.update path value mode; (.ok outcome, store)

def updatePath (s : SharedStore) (path : DataPath) (value : Option Json) (mode : UpdateMode) :
    Except StoreError UpdateOutcome × SharedStore :=
  s.run fun store => let (outcome, store) := store.updatePath path value mode; (.ok outcome, store)

def updateAbsolute (s : SharedStore) (path : String) (value : Option Json) (mode : UpdateMode) :
    Except StoreError UpdateOutcome × SharedStore :=
  s.run fun store => store.updateAbsolute path value mode

def replace (s : SharedStore) (tree : Json) : Except StoreError UpdateOutcome × SharedStore :=
  s.run fun store => (.ok .applied, store.replace tree)

def scope (s : SharedStore) : Except StoreError Scope := s.access.map Store.scope

end SharedStore

/-! ## Errors of binding -/

inductive BindingError where
  | reference (error : ReferenceError)
  | store (error : StoreError)
  /-- A required source of a mapping has no value. -/
  | requiredValueMissing (location : String)
  /-- A source of a mapping has no location at all. -/
  | emptyLocation
  | transport (reason : String)
  | processorFailed (name reason : String)
  | invalidDocument
  deriving DecidableEq

def BindingError.message : BindingError → String
  | .reference error => error.message
  | .store error => error.message
  | .requiredValueMissing location =>
    "required value not found in response data: " ++ location
  | .emptyLocation => "location is empty"
  | .transport reason => "transport error: " ++ reason
  | .processorFailed name reason => "processor " ++ name ++ " failed: " ++ reason
  | .invalidDocument => "invalid document"

/-- The result of a store operation, its error being one of binding. -/
def liftStore {α : Type} (result : Except StoreError α) : Except BindingError α :=
  result.mapError .store

/-- The result of resolving or evaluating, its error being one of binding. -/
def liftReference {α : Type} (result : Except ReferenceError α) : Except BindingError α :=
  result.mapError .reference

end DataBinding
