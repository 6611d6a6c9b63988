import DataBinding.Nested.Layer

/-!
# Targets

A target is what reactions, mappings and actions write to: a root store, or a layer with the target
below it. An update that a layer does not keep goes to its parent by an absolute path, and from there
possibly on. Every operation gives back the target after it, also when it fails.

* `Target.updateAbsolute`, `Target.replaceRoot`, `Target.scope`: the operations of every target.
* `Target.update`, `Target.resync`: the operations of a layer.
-/

namespace DataBinding

inductive Target where
  | root (store : SharedStore)
  | nested (layer : Layer) (parent : Target)

namespace Target

/-- The store of the target itself. -/
def store : Target → SharedStore
  | .root store => store
  | .nested layer _ => layer.store

/-- The global scope of those who write to the target. -/
def scope (t : Target) : Except StoreError Scope := t.store.scope

/-- Delivers an update of the local path `path` of a layer. If it belongs to the parent and the parent
takes it, the layer is synced again. In all other cases it is carried out locally. -/
def deliver (layer : Layer) (parent : Target) (path : String)
    (send : String → Except StoreError UpdateOutcome × Target)
    (write : SharedStore → Except StoreError UpdateOutcome × SharedStore) :
    Except StoreError UpdateOutcome × Target :=
  let keep (parent : Target) :=
    let (outcome, store) := write layer.store
    (outcome, Target.nested { layer with store } parent)
  match layer.parentPath? parent.scope path with
  | none => keep parent
  | some absolute =>
    match send absolute with
    | (.error _, parent) => keep parent
    | (.ok _, parent) =>
      let (synced, layer) := layer.resync parent.scope
      (synced.map fun _ => .forwarded, .nested layer parent)

/-- An update at an absolute path. At the root of a layer a value replaces the data as a whole, and
everything else is without effect. -/
def updateAbsolute (path : String) (value : Option Json) (mode : UpdateMode) :
    Target → Except StoreError UpdateOutcome × Target
  | .root store =>
    let (outcome, store) := store.updateAbsolute path value mode
    (outcome, .root store)
  | .nested layer parent =>
    match layer.localPath path with
    | .error error => (.error error, .nested layer parent)
    | .ok (some relative) =>
      deliver layer parent relative (fun absolute => updateAbsolute absolute value mode parent)
        (·.update relative value mode)
    | .ok none =>
      match mode, value with
      | .replace, some tree =>
        deliver layer parent ""
          (fun absolute => updateAbsolute absolute (some tree) .replace parent) (·.replace tree)
      | _, _ => (.ok .unchanged, .nested layer parent)

/-- An update at a path relative to the root of the target. -/
def update (path : String) (value : Option Json) (mode : UpdateMode) :
    Target → Except StoreError UpdateOutcome × Target
  | .root store =>
    let (outcome, store) := store.update path value mode
    (outcome, .root store)
  | .nested layer parent =>
    deliver layer parent path (fun absolute => parent.updateAbsolute absolute value mode)
      (·.update path value mode)

/-- Replaces the data as a whole, or the place of the parent that all of it refers to. -/
def replaceRoot (tree : Json) : Target → Except StoreError UpdateOutcome × Target
  | .root store =>
    let (outcome, store) := store.replace tree
    (outcome, .root store)
  | .nested layer parent =>
    deliver layer parent ""
      (fun absolute => parent.updateAbsolute absolute (some tree) .replace) (·.replace tree)

/-- Sends an update to the parent if it belongs there, without a sync afterwards. Says whether the
parent took it. -/
def tryParent (path : String) (value : Option Json) (mode : UpdateMode) :
    Target → Bool × Target
  | .root store => (false, .root store)
  | .nested layer parent =>
    match layer.parentPath? parent.scope path with
    | none => (false, .nested layer parent)
    | some absolute =>
      let (outcome, parent) := parent.updateAbsolute absolute value mode
      (outcome.isOk, .nested layer parent)

/-- Syncs the topmost layer with its parent. A root store has nothing to be synced with. -/
def resync : Target → Except StoreError Bool × Target
  | .root store => (.ok false, .root store)
  | .nested layer parent =>
    let (changed, layer) := layer.resync parent.scope
    (changed, .nested layer parent)

/-- The target with an operation carried out on its own store, past all references. -/
def onStore {α : Type} (operation : SharedStore → α × SharedStore) : Target → α × Target
  | .root store =>
    let (result, store) := operation store
    (result, .root store)
  | .nested layer parent =>
    let (result, store) := operation layer.store
    (result, .nested { layer with store } parent)

end Target

end DataBinding
