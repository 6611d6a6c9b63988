import DataBinding.Nested.Target

/-!
# Forests of layers

Several layers may have the same parent. A forest holds a root store and layers in the order in which
they were made, each with the number of its parent; the root store is number 0. To write to a layer is
to write to the target that ends in it, and to put every store of that target back.

* `Forest.target?`, `Forest.put`: the target of a number, and its return.
-/

namespace DataBinding

structure Forest where
  root : SharedStore
  /-- The layers from number 1 on, each with the number of its parent. -/
  layers : List (Nat × Layer) := []

namespace Forest

/-- The number of stores. -/
def size (f : Forest) : Nat := f.layers.length + 1

/-- The target that ends in the store of a number. Parents have smaller numbers. -/
def target? (f : Forest) : Nat → Option Target
  | 0 => some (.root f.root)
  | number + 1 =>
    match f.layers[number]? with
    | some (parent, layer) =>
      if _h : parent < number + 1 then (f.target? parent).map (.nested layer) else none
    | none => none

/-- The forest with the stores of a target in the places it was taken from. -/
def put (f : Forest) : Nat → Target → Forest
  | 0, .root store => { f with root := store }
  | number + 1, .nested layer parent =>
    match f.layers[number]? with
    | some (index, _) =>
      { f with layers := f.layers.set number (index, layer) }.put index parent
    | none => f
  | _, _ => f

/-- The forest with a new layer over the store of a number. -/
def addLayer (f : Forest) (parent : Nat) (dataOverride : Json) (anchor : String)
    (settings : StoreSettings) : Except StoreError Forest := do
  match f.target? parent with
  | some target =>
    let layer ← Layer.ofOverride dataOverride anchor settings target.scope
    return { f with layers := f.layers ++ [(parent, layer)] }
  | none => return f

/-- The stores in the order of their numbers. -/
def stores (f : Forest) : List SharedStore := f.root :: f.layers.map (·.2.store)

end Forest

end DataBinding
