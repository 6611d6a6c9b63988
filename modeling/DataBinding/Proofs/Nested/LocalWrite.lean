import DataBinding.Proofs.Nested.Lifetime
import DataBinding.Proofs.Nested.Parts
import DataBinding.Proofs.Nested.References
import DataBinding.Proofs.Update.Commute
import DataBinding.Proofs.Update.Rearrange

/-!
# Local writes and the places of references

The reference map of a layer is read off the override once and for all, and it addresses elements by
their position. An update at a path aside of all its entries is carried out in the local copy, by the
rules of every update, which know nothing of the map. So the places of the references read afterwards
as any other place aside of the path does: mostly as before, but elements may have moved along, and a
local copy that is an array makes way for an object.

* `ReferenceMap.match?_eq_none`: no entry covers the path.
* `Target.update_of_isAside`: the update goes to the local copy alone.
* `Target.local_write_at_references`: what is read at the places of the references.
-/

namespace DataBinding

/-- Where no entry covers a path, the map finds none for it. The empty text stands for the root here,
which only an entry for the root covers. -/
theorem ReferenceMap.match?_eq_none {m : ReferenceMap} {path : String}
    (h : ∀ entry ∈ m.entries, ¬ entry.1.covers (.ofText path)) : m.match? path = none := by
  rw [match?, List.findSome?_eq_none_iff]
  intro entry hentry
  have hcovers : ¬ entry.1.covers (overridePath path) := by
    unfold overridePath
    split
    · intro hroot
      obtain ⟨rest, hrest⟩ := DataPath.covers_iff.mp hroot
      have hempty : entry.1.segments = [] := (List.append_eq_nil_iff.mp hrest.symm).1
      exact h entry hentry (DataPath.covers_iff.mpr ⟨_, by rw [hempty]; rfl⟩)
    · exact h entry hentry
  dsimp only
  rw [DataPath.below?_eq_none hcovers]
  rfl

namespace Target

variable {layer : Layer} {parent : Target} {path : String}

/-- An update that belongs to no reference goes to the local copy alone. -/
theorem update_of_isAside (hopen : layer.store.poisoned = false)
    (haside : ∀ entry ∈ layer.references.entries, entry.1.IsAside (.ofText path))
    (value : Option Json) (mode : UpdateMode) :
    (Target.nested layer parent).update path value mode =
      (.ok (layer.store.store.update path value mode).1,
        .nested { layer with store :=
          { layer.store with store := (layer.store.store.update path value mode).2 } } parent) := by
  have hmatch : layer.references.match? path = none :=
    ReferenceMap.match?_eq_none fun entry hentry => (haside entry hentry).1
  have hplace : layer.parentPath? parent.scope path = none := by
    rw [Layer.parentPath?, hmatch]
    rfl
  rw [update, deliver_of_uncovered hplace, onStore, SharedStore.update,
    SharedStore.run_of_open hopen]

/-- **What a local write leaves at the places of references.** After any writes to a layer and to the
stores below it, take an update at a path that no entry of the reference map covers and that covers no
entry. It is carried out in the local copy alone, and the place of every entry reads afterwards as it
does after every update aside of it. If the local copy is an object: setting, deleting and appending
leave what was there, or `null` in the gap of an array, unless the path and the entry spell one element
differently; removing and moving leave the same, but in the array where the path ends every place has
the element that came to stand there. If the local copy is no object, a value that is set or appended
makes an object of it, in which nothing is at the entry. -/
theorem local_write_at_references (h : Reachable (.nested layer parent))
    (haside : ∀ entry ∈ layer.references.entries, entry.1.IsAside (.ofText path))
    (value : Option Json) (mode : UpdateMode) :
    ∃ outcome store, (Target.nested layer parent).update path value mode =
        (.ok outcome, .nested { layer with store } parent) ∧
      ∀ entry ∈ layer.references.entries,
        layer.store.store.tree.ReadsAfter store.store.tree (.ofText path) value mode entry.1 := by
  cases h.isChain with
  | nested hlayer _ =>
    refine ⟨_, _, update_of_isAside hlayer.isOpen haside value mode, fun entry hentry => ?_⟩
    dsimp only
    rw [Store.update, Store.tree_updatePath]
    exact Json.readsAfter_updated _ (haside entry hentry).symm value mode

/-- A step is taken out of a list, next to a reference to the title. -/
theorem local_write_at_references_of_title :
    let parent : SharedStore := { store := { tree := .object [("title", .bool true)] } }
    let steps := Json.array [.null, .bool false]
    let layer : Layer :=
      { store := { store := { tree := .object [("title", .bool true), ("steps", steps)] } }
        dataOverride := .object [("title", .string "~~.title"), ("steps", steps)]
        references := ⟨[(⟨["title"]⟩, "~~.title")]⟩
        anchor := "data" }
    Reachable (.nested layer (.root parent)) ∧
      (∀ entry ∈ layer.references.entries, entry.1.IsAside (.ofText "steps.0")) ∧
      ∃ outcome store, (Target.nested layer (.root parent)).update "steps.0" none .remove =
          (.ok outcome, .nested { layer with store } (.root parent)) ∧
        store.store.tree.at? ⟨["title"]⟩ = some (.bool true) := by
  intro parent steps layer
  have hbuilt : Layer.ofOverride layer.dataOverride "data" {} (Target.root parent).scope =
      .ok layer := by
    refine Layer.ofOverride_eq_ok_iff.mpr ⟨layer.store.store.tree, ?_, rfl⟩
    rw [Layer.project_object]
    rfl
  have hreachable : Reachable (.nested layer (.root parent)) := .build (.root rfl) hbuilt
  have haside : ∀ entry ∈ layer.references.entries, entry.1.IsAside (.ofText "steps.0") := by
    intro entry hentry
    cases List.mem_singleton.mp hentry
    decide
  obtain ⟨outcome, store, hupdate, hreads⟩ :=
    local_write_at_references hreachable haside none .remove
  refine ⟨hreachable, haside, outcome, store, hupdate, ?_⟩
  have hsplit : DataPath.ofText "steps.0" = ⟨["steps", "0"]⟩ := rfl
  rw [hsplit] at hreads
  refine ((hreads _ List.mem_cons_self).elsewhere rfl (Or.inl rfl) ?_ ?_).trans rfl
  · exact Json.not_aliased_of_parting _ [] (by decide) (by decide)
  · -- The key has one segment only, and no array is at the root.
    rintro items index place back ⟨front, last, segment, -, hkey, hread, -⟩
    cases front with
    | nil => cases hread
    | cons step front =>
      obtain ⟨-, hnil⟩ := List.cons.inj hkey
      exact List.append_ne_nil_of_right_ne_nil _ (List.cons_ne_nil _ _) hnil.symm

/-- What a write can do to the place of a reference that it is aside of. In a list, removing an element
before the place empties it, an element beyond the end then pads it with `null`, and another spelling
of its index writes to it. An override that is an array is lost as a whole. -/
theorem local_write_loses_reference :
    let parent : SharedStore := { store := { tree := .object [("a", .bool true)] } }
    let key : DataPath := ⟨["list", "1"]⟩
    let list := Json.object [("list", .array [.null, .string "~~.a"])]
    let layer : Layer :=
      { store := { store := { tree := list } }
        dataOverride := list
        references := ⟨[(key, "~~.a")]⟩
        anchor := "data" }
    let row : Layer :=
      { store := { store := { tree := .array [.bool true, .bool false] } }
        dataOverride := .array [.string "~~.a", .bool false]
        references := ⟨[(⟨["0"]⟩, "~~.a")]⟩
        anchor := "data" }
    Reachable (.nested layer (.root parent)) ∧ Reachable (.nested row (.root parent)) ∧
      (∀ path ∈ ["list.0", "list.01", "list.3"], key.IsAside (.ofText path)) ∧
      DataPath.IsAside ⟨["0"]⟩ (.ofText "1") ∧
      layer.store.store.tree.at? key = some (.string "~~.a") ∧
      (∃ outcome store, (Target.nested layer (.root parent)).update "list.0" none .remove =
          (.ok outcome, .nested { layer with store } (.root parent)) ∧
        store.store.tree.at? key = none ∧
        ∃ outcome' store', (Target.nested { layer with store } (.root parent)).update "list.3"
              (some (.bool false)) .replace =
            (.ok outcome', .nested { layer with store := store' } (.root parent)) ∧
          store'.store.tree.at? key = some .null) ∧
      (∃ outcome store, (Target.nested layer (.root parent)).update "list.01"
            (some (.bool false)) .replace =
          (.ok outcome, .nested { layer with store } (.root parent)) ∧
        store.store.tree.at? key = some (.bool false)) ∧
      row.store.store.tree.at? ⟨["0"]⟩ = some (.bool true) ∧
      ∃ outcome store, (Target.nested row (.root parent)).update "1" (some .null) .replace =
          (.ok outcome, .nested { row with store } (.root parent)) ∧
        store.store.tree.at? ⟨["0"]⟩ = none := by
  intro parent key list layer row
  have hbuilt : Layer.ofOverride layer.dataOverride "data" {} (Target.root parent).scope =
      .ok layer := by
    refine Layer.ofOverride_eq_ok_iff.mpr ⟨list, ?_, rfl⟩
    rw [Layer.project_object]
    rfl
  have hrow : Layer.ofOverride row.dataOverride "data" {} (Target.root parent).scope =
      .ok row := by
    refine Layer.ofOverride_eq_ok_iff.mpr ⟨row.store.store.tree, ?_, rfl⟩
    rw [Layer.project_array]
    rfl
  have haside : ∀ path ∈ ["list.0", "list.01", "list.3"], key.IsAside (.ofText path) := by
    decide
  have hlayer : ∀ path ∈ ["list.0", "list.01", "list.3"],
      ∀ entry ∈ layer.references.entries, entry.1.IsAside (.ofText path) := by
    intro path hpath entry hentry
    cases List.mem_singleton.mp hentry
    exact haside path hpath
  have hrowAside : ∀ entry ∈ row.references.entries, entry.1.IsAside (.ofText "1") := by
    intro entry hentry
    cases List.mem_singleton.mp hentry
    decide
  refine ⟨.build (.root rfl) hbuilt, .build (.root rfl) hrow, haside, by decide, rfl,
    ⟨_, _, update_of_isAside rfl (hlayer "list.0" (by decide)) _ _, ?_,
      _, _, update_of_isAside rfl ?_ _ _, ?_⟩,
    ⟨_, _, update_of_isAside rfl (hlayer "list.01" (by decide)) _ _, ?_⟩, rfl,
    _, _, update_of_isAside rfl hrowAside _ _, ?_⟩
  · rfl
  · exact hlayer "list.3" (by decide)
  · rfl
  · rfl
  · rfl

end Target

end DataBinding
