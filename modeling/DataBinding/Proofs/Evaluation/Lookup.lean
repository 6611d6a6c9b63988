import DataBinding.Proofs.Reference.AbsolutePath
import DataBinding.Proofs.Update.Lens

/-!
# Looking up is resolving, then reading

A reference is looked up by walking a tree and resolved by putting paths together. If the local scope
is a view of the global one, the two mean the same place: resolving gives an absolute path below the
root, and looking up gives what the global tree holds there (`lookup_eq_get?_of_resolve`). A value
set through the absolute path is therefore found again through the reference.

* `Scope.view`: the scopes that a global scope has at the places of its tree.
* `lookup_agrees_with_resolve`: the agreement, errors included, and its consequence for stores.
-/

namespace DataBinding

/-- The global scope itself, or the scope of the value at a dotted path below its root. -/
def Scope.view (scope : Scope) : Option String → Option Scope
  | none => some scope
  | some place =>
    (scope.tree.at? (.ofText place)).map fun tree => ⟨tree, scope.path ++ "." ++ place⟩

/-- The value at the root of a tree, or at a dotted path below it. -/
def Json.readRelative (tree : Json) : Option String → Option Json
  | none => some tree
  | some path => tree.at? (.ofText path)

theorem Json.readRelative_eq (tree : Json) (relative : Option String) :
    tree.readRelative relative = tree.get? (relative.elim [] Dotted.split) := by
  cases relative <;> rfl

/-- A view has the segments of its place after the root, and the value that is read there. -/
theorem Scope.view_eq_some {scope there : Scope} {place : Option String}
    (hroot : '.' ∉ scope.path.toList) (h : scope.view place = some there) :
    Dotted.split there.path = scope.path :: place.elim [] Dotted.split ∧
      scope.tree.get? (place.elim [] Dotted.split) = some there.tree := by
  cases place with
  | none =>
    cases h
    exact ⟨Dotted.split_of_not_mem hroot, rfl⟩
  | some place =>
    obtain ⟨tree, htree, rfl⟩ := Option.map_eq_some_iff.mp h
    refine ⟨?_, htree⟩
    rw [Dotted.split_append, Dotted.split_of_not_mem hroot]
    rfl

/-- A view exists where the tree holds a value. -/
theorem Scope.exists_view {scope : Scope} {place : Option String} {tree : Json}
    (h : scope.tree.get? (place.elim [] Dotted.split) = some tree) :
    ∃ there, scope.view place = some there ∧ there.tree = tree := by
  cases place with
  | none => exact ⟨scope, rfl, Option.some.inj h⟩
  | some place => exact ⟨⟨tree, _⟩, Option.map_eq_some_iff.mpr ⟨tree, h, rfl⟩, rfl⟩

/-! ## Resolving -/

namespace Reference

variable {root localPath : String} {segments : List String}

theorem split_resolve_ancestor {search : AncestorSearch} {key : String} {rest : Option String}
    {absolute globalPath : String} (hlocal : Dotted.split localPath = root :: segments)
    (h : (ancestor search key rest).resolve localPath localPath globalPath = .ok absolute) :
    ∃ below, Dotted.split absolute = root :: below := by
  have hanchor : ∀ anchor, ancestorAnchor search key localPath = .ok anchor →
      ∃ below, Dotted.split anchor = root :: below := by
    intro anchor hanchor
    obtain ⟨front, back, hpath, hsplit⟩ := split_ancestorAnchor hanchor
    rw [hlocal] at hpath
    cases front with
    | nil =>
      cases hpath
      exact ⟨[], hsplit⟩
    | cons first front =>
      cases hpath
      exact ⟨front ++ [key], hsplit⟩
  cases rest with
  | none => exact hanchor absolute h
  | some rest =>
    rw [resolve] at h
    cases hfound : ancestorAnchor search key localPath with
    | error error =>
      rw [hfound] at h
      cases h
    | ok anchor =>
      rw [hfound] at h
      cases h
      obtain ⟨below, hbelow⟩ := hanchor anchor hfound
      exact ⟨below ++ Dotted.split rest, by rw [Dotted.split_append, hbelow]; rfl⟩

/-- Resolving never leaves the root, and a local reference stays below the local scope. -/
theorem split_resolve {reference : Reference} {absolute : String} (hroot : '.' ∉ root.toList)
    (hlocal : Dotted.split localPath = root :: segments)
    (h : reference.resolve localPath localPath root = .ok absolute) :
    ∃ below, Dotted.split absolute = root :: below ∧
      (reference.startsFromGlobal = false → ∃ rest, below = segments ++ rest) := by
  cases reference with
  | localRoot =>
    cases h
    exact ⟨segments, hlocal, fun _ => ⟨[], (List.append_nil _).symm⟩⟩
  | globalRoot =>
    cases h
    exact ⟨[], Dotted.split_of_not_mem hroot, by simp [startsFromGlobal]⟩
  | localPath rest =>
    cases h
    refine ⟨segments ++ Dotted.split rest, ?_, fun _ => ⟨_, rfl⟩⟩
    rw [Dotted.split_append, hlocal]
    rfl
  | globalPath rest =>
    cases h
    refine ⟨Dotted.split rest, ?_, by simp [startsFromGlobal]⟩
    rw [Dotted.split_append, Dotted.split_of_not_mem hroot]
    rfl
  | ancestor search key rest =>
    obtain ⟨below, hbelow⟩ := split_resolve_ancestor hlocal h
    exact ⟨below, hbelow, by simp [startsFromGlobal]⟩

end Reference

/-! ## Looking up -/

namespace BindingContext

variable {ctx : BindingContext}

/-- Only an ancestor search fails, when looked up and when resolved. -/
theorem lookup_eq_error_iff (reference : Reference) (error : ReferenceError) :
    ctx.lookup reference = .error error ↔
      reference.resolve ctx.localScope.path ctx.localScope.path ctx.globalScope.path =
        .error error := by
  cases reference with
  | ancestor search key rest =>
    rw [lookup]
    cases (Reference.ancestor search key rest).resolve ctx.localScope.path ctx.localScope.path
        ctx.globalScope.path <;> simp [Except.map]
  | _ => simp [lookup, Reference.resolve]

/-- What a reference names is what the global tree holds at its absolute path. The local tree matters
to local references alone. -/
theorem lookup_eq_get?_of_resolve {reference : Reference} {absolute : String}
    {segments below : List String} (hroot : '.' ∉ ctx.globalScope.path.toList)
    (hlocal : Dotted.split ctx.localScope.path = ctx.globalScope.path :: segments)
    (htree : reference.startsFromGlobal = false →
      ctx.globalScope.tree.get? segments = some ctx.localScope.tree)
    (h : reference.resolve ctx.localScope.path ctx.localScope.path ctx.globalScope.path =
      .ok absolute)
    (hbelow : Dotted.split absolute = ctx.globalScope.path :: below) :
    ctx.lookup reference = .ok (ctx.globalScope.tree.get? below) := by
  cases reference with
  | localRoot =>
    cases h
    rw [hlocal] at hbelow
    cases hbelow
    rw [htree rfl]
    rfl
  | globalRoot =>
    cases h
    rw [Dotted.split_of_not_mem hroot] at hbelow
    cases hbelow
    rfl
  | localPath rest =>
    cases h
    rw [Dotted.split_append, hlocal] at hbelow
    have hsegments : segments ++ Dotted.split rest = below := (List.cons.inj hbelow).2
    rw [← hsegments, Json.get?_append, htree rfl]
    exact ctx.lookup_localPath rest
  | globalPath rest =>
    cases h
    rw [Dotted.split_append, Dotted.split_of_not_mem hroot] at hbelow
    cases hbelow
    exact ctx.lookup_globalPath rest
  | ancestor search key rest =>
    rw [lookup_ancestor, h, Except.map, hbelow, List.drop_one, List.tail_cons]

end BindingContext

/-! ## Writing, then looking up -/

/-- A value that was set at an absolute path is read there, and the root segment stays. -/
theorem Store.readRelative_updateAbsolute {store store' : Store} {path : String} {value : Json}
    {relative : Option String}
    (hrelative : relativeToRoot path store.settings.rootSegment = .ok relative)
    (h : store.updateAbsolute path (some value) .replace = (.ok .applied, store')) :
    store'.tree.readRelative relative = some value ∧ store'.settings = store.settings := by
  unfold updateAbsolute at h
  rw [hrelative] at h
  cases relative with
  | none =>
    cases h
    exact ⟨rfl, rfl⟩
  | some path =>
    dsimp only [update, updatePath] at h
    cases hupdate : store.tree.update? (.ofText path) (some value) .replace with
    | none =>
      rw [hupdate] at h
      cases h
    | some tree =>
      rw [hupdate] at h
      cases h
      exact ⟨Json.at?_of_update? hupdate, rfl⟩

/-- **Looking up agrees with resolving.** Let the root segment have no dot, and let the local scope be
a view of the global one. A reference fails to be looked up with the error with which it fails to be
resolved. If it is resolved, the absolute path is below the root, and looking up gives what the global
tree holds at the relative path. And if a store with that root segment applies the setting of a value
at the absolute path, the reference names that value in the scopes of the new tree; where the place
of the local scope is gone from the tree, any tree may stand for it. -/
theorem lookup_agrees_with_resolve {root : String} (hroot : '.' ∉ root.toList) {tree : Json}
    {place : Option String} {localScope : Scope}
    (hview : (Scope.mk tree root).view place = some localScope) {text : String}
    {reference : Reference} (htext : Reference.parse? text = some reference) :
    let ctx : BindingContext := ⟨localScope, ⟨tree, root⟩⟩
    (∀ error, ctx.lookup reference = .error error ↔ ctx.resolvePath text = .error error) ∧
    (∀ absolute, ctx.resolvePath text = .ok absolute →
      ∃ relative, relativeToRoot absolute root = .ok relative ∧
        ctx.lookup reference = .ok (tree.readRelative relative)) ∧
    (∀ (store store' : Store) (value : Json) (absolute : String),
      store.settings.rootSegment = root → ctx.resolvePath text = .ok absolute →
      store.updateAbsolute absolute (some value) .replace = (.ok .applied, store') →
      ∀ rebuilt : Scope, rebuilt.path = localScope.path →
        (∀ there, store'.scope.view place = some there → rebuilt = there) →
        (BindingContext.mk rebuilt store'.scope).lookup reference = .ok (some value)) := by
  obtain ⟨hlocal, htree⟩ := Scope.view_eq_some hroot hview
  have hresolve : (BindingContext.mk localScope ⟨tree, root⟩).resolvePath text =
      reference.resolve localScope.path localScope.path root := by
    rw [BindingContext.resolvePath, Reference.resolveText, htext]
  dsimp only
  rw [hresolve]
  refine ⟨BindingContext.lookup_eq_error_iff reference, ?_, ?_⟩
  · intro absolute habsolute
    obtain ⟨below, hbelow, -⟩ := Reference.split_resolve hroot hlocal habsolute
    obtain ⟨relative, hrelative, rfl⟩ := relativeToRoot_of_split hbelow
    refine ⟨relative, hrelative, ?_⟩
    rw [Json.readRelative_eq]
    exact BindingContext.lookup_eq_get?_of_resolve hroot hlocal (fun _ => htree) habsolute hbelow
  · intro store store' value absolute hstore habsolute hupdate rebuilt hpath hrebuilt
    obtain ⟨below, hbelow, hstays⟩ := Reference.split_resolve hroot hlocal habsolute
    obtain ⟨relative, hrelative, rfl⟩ := relativeToRoot_of_split hbelow
    subst root
    obtain ⟨hread, hsettings⟩ := Store.readRelative_updateAbsolute hrelative hupdate
    rw [Json.readRelative_eq] at hread
    have hroot' : store'.scope.path = store.settings.rootSegment :=
      congrArg StoreSettings.rootSegment hsettings
    -- The value was set at or below the place of a local reference, so that place is there.
    have hthere : reference.startsFromGlobal = false →
        store'.scope.tree.get? (place.elim [] Dotted.split) = some rebuilt.tree := by
      intro hlocalForm
      obtain ⟨rest, hrest⟩ := hstays hlocalForm
      rw [hrest, Json.get?_append] at hread
      obtain ⟨found, hfound, -⟩ := Option.bind_eq_some_iff.mp hread
      have hfound' : store'.scope.tree.get? (place.elim [] Dotted.split) = some found := hfound
      obtain ⟨there, hthere, rfl⟩ := Scope.exists_view hfound'
      rw [hrebuilt there hthere]
      exact hfound'
    rw [← hpath] at hlocal habsolute
    rw [← hroot'] at hroot hlocal habsolute hbelow
    rw [← hread]
    exact BindingContext.lookup_eq_get?_of_resolve hroot hlocal hthere habsolute hbelow

/-- In the scope of the first row, `~>rows.0.v` is resolved to `data.rows.0.v` and looked up there. -/
theorem lookup_agrees_with_resolve_at_row :
    let tree := Json.object [("rows", .array [.object [("v", .bool true)]])]
    let row : Scope := ⟨.object [("v", .bool true)], "data.rows.0"⟩
    (Scope.mk tree "data").view (some "rows.0") = some row ∧
      ∃ relative, relativeToRoot "data.rows.0.v" "data" = .ok relative ∧
        (BindingContext.mk row ⟨tree, "data"⟩).lookup
          (.ancestor .nearest "rows" (some "0.v")) = .ok (tree.readRelative relative) := by
  intro tree row
  have hview : (Scope.mk tree "data").view (some "rows.0") = some row := by rfl
  have htext : Reference.parse? "~>rows.0.v" =
      some (.ancestor .nearest "rows" (some "0.v")) := by decide
  have hresolve : (BindingContext.mk row ⟨tree, "data"⟩).resolvePath "~>rows.0.v" =
      .ok "data.rows.0.v" := by decide
  exact ⟨hview, (lookup_agrees_with_resolve (by decide) hview htext).2.1 "data.rows.0.v" hresolve⟩

end DataBinding
