import DataBinding.Proofs.Update.Aside

/-!
# Refreshing several places

A tree is refreshed from a source by setting each of several places to what the source holds there, one
after the other, where no place covers another.

* `Json.refreshed`: the tree after several places were refreshed.
* `at?_refreshed_aside`: what is aside of all places, by induction on the places.
* `at?_refreshed_of_not_isObject`: a root that is no object.
* `at?_refreshed`, `at?_refreshed_of_none`: what is read at one of the places.
* `isEffective_at?_self`: a tree that is its own source is not changed.
-/

namespace DataBinding.Json

/-! ## Refreshing -/

/-- The tree after several places were set, one after the other, to what a source holds there. -/
def refreshed (tree source : Json) (paths : List DataPath) : Json :=
  paths.foldl (fun tree path => tree.updated path (source.at? path) .replace) tree

theorem refreshed_cons (tree source : Json) (path : DataPath) (paths : List DataPath) :
    tree.refreshed source (path :: paths) =
      (tree.updated path (source.at? path) .replace).refreshed source paths := rfl

theorem refreshed_append (tree source : Json) (front back : List DataPath) :
    tree.refreshed source (front ++ back) = (tree.refreshed source front).refreshed source back :=
  List.foldl_append

section Refreshed

variable {before tree source : Json} {place : DataPath} {paths : List DataPath}

theorem Spared.refreshed {gap : Prop} (h : Spared before tree.asRoot place gap)
    (haside : ∀ way ∈ paths, way.IsAside place)
    (haliased : ∀ way ∈ paths, ¬ before.Aliased way.segments place.segments)
    (hgap : ∀ way ∈ paths, before.IsPadding way.segments place.segments → gap) :
    Spared before (tree.refreshed source paths).asRoot place gap := by
  induction paths generalizing tree with
  | nil => exact h
  | cons way paths ih =>
    rw [List.forall_mem_cons] at haside haliased hgap
    rw [refreshed_cons]
    exact ih (h.updated haside.1 haliased.1 hgap.1 (Or.inl (Eq.refl _)) _) haside.2 haliased.2
      hgap.2

/-- A tree that was refreshed below its root is as before or an object. -/
theorem refreshed_cases (hpaths : ∀ path ∈ paths, path ≠ .root) :
    tree.refreshed source paths = tree ∨ (tree.refreshed source paths).isObject := by
  induction paths generalizing tree with
  | nil => exact Or.inl rfl
  | cons path paths ih =>
    rw [List.forall_mem_cons] at hpaths
    rw [refreshed_cons]
    rcases ih hpaths.2 with hlater | hlater
    · rw [hlater]
      exact (tree.updated_cases hpaths.1 _ _).imp_right And.right
    · exact Or.inr hlater

theorem isObject_refreshed (hobject : tree.isObject) (hpaths : ∀ path ∈ paths, path ≠ .root) :
    (tree.refreshed source paths).isObject := by
  rcases refreshed_cases hpaths with hsame | hchanged
  · rw [hsame]
    exact hobject
  · exact hchanged

/-- Aside of all places an object reads as before, apart from aliases and gaps. -/
theorem at?_refreshed_aside (hobject : tree.isObject) (haside : ∀ way ∈ paths, way.IsAside place)
    (haliased : ∀ way ∈ paths, ¬ tree.Aliased way.segments place.segments) :
    Undisturbed (tree.at? place) ((tree.refreshed source paths).at? place)
      (∃ way ∈ paths, tree.IsPadding way.segments place.segments) := by
  have hspared : Spared tree (tree.refreshed source paths).asRoot place
      (∃ way ∈ paths, tree.IsPadding way.segments place.segments) := by
    refine Spared.refreshed ?_ haside haliased fun way hway hpadding => ⟨way, hway, hpadding⟩
    rw [asRoot_of_isObject hobject]
    exact .rfl
  rw [asRoot_of_isObject (isObject_refreshed hobject fun way hway => (haside way hway).ne_root)]
    at hspared
  exact hspared.read

/-- Aside of all places, where no array is on the way, the root reads exactly as before. -/
theorem at?_asRoot_refreshed (haside : ∀ way ∈ paths, way.IsAside place)
    (harray : ¬ tree.asRoot.MeetsArray place.segments) :
    (tree.refreshed source paths).asRoot.at? place = tree.asRoot.at? place := by
  have hspared : Spared tree.asRoot (tree.refreshed source paths).asRoot place False :=
    Spared.rfl.refreshed haside (fun _ _ haliased => harray haliased.meetsArray)
      fun _ _ hpadding => harray hpadding.meetsArray
  rcases hspared.read with hsame | ⟨-, -, hfalse⟩
  · exact hsame
  · exact hfalse.elim

/-- A tree that is no object stays as it is, or is lost. -/
theorem at?_refreshed_of_not_isObject (hobject : tree.isObject = false)
    (haside : ∀ way ∈ paths, way.IsAside place) :
    tree.refreshed source paths = tree ∨
      (tree.refreshed source paths).isObject ∧ (tree.refreshed source paths).at? place = none := by
  cases paths with
  | nil => exact Or.inl rfl
  | cons path paths =>
    have hplace : place ≠ .root := (haside path List.mem_cons_self).symm.ne_root
    refine (refreshed_cases fun way hway => (haside way hway).ne_root).imp_right fun hchanged =>
      ⟨hchanged, ?_⟩
    rw [← asRoot_of_isObject hchanged, at?_asRoot_refreshed haside]
    · rw [asRoot_of_not_isObject hobject]
      obtain ⟨segments⟩ := place
      cases segments with
      | nil => exact absurd rfl hplace
      | cons segment segments => rfl
    · rw [asRoot_of_not_isObject hobject]
      exact not_meetsArray_empty place.segments

end Refreshed

/-! ## What is read at a refreshed place -/

section Read

variable {tree source : Json} {place : DataPath} {front back : List DataPath}

/-- No gap is at the end of a blocked way. -/
theorem IsBlocked.not_isPadding {path other : List String} (h : tree.IsBlocked other) :
    ¬ tree.IsPadding path other := by
  rintro ⟨front, segment, segment', back, node, -, hother, hread, items, index, position, rfl, -,
    hposition, -⟩
  obtain ⟨stop, blocked, rest, olds, hrest, hstop, hblocked⟩ := h
  rw [hother] at hrest
  obtain ⟨between, rfl, hbetween⟩ : ∃ between, front = stop ++ between ∧
      between ++ [segment'] = blocked :: rest := by
    rcases List.append_eq_append_iff.mp hrest with ⟨beyond, rfl, hlast⟩ | ⟨between, rfl, hlast⟩
    · -- The way is not blocked beyond its end.
      cases beyond with
      | nil => exact ⟨[], by simp, hlast⟩
      | cons first beyond =>
        have hnil := (List.cons.inj hlast).2
        simp at hnil
    · exact ⟨between, rfl, hlast.symm⟩
  cases between with
  | nil =>
    cases hbetween
    rw [hposition] at hblocked
    cases hblocked
  | cons first between =>
    cases hbetween
    rw [get?_append, hstop, Option.bind_some, get?, child?, hblocked] at hread
    cases hread

/-- At one segment below the root there is no array on the way. -/
theorem not_meetsArray_singleton (tree : Json) (segment : String) :
    ¬ tree.asRoot.MeetsArray [segment] := by
  intro h
  have hlength := h.one_lt_length tree.isObject_asRoot
  simp at hlength

/-- What was set below the root is read there, unless an array blocks the way. -/
theorem at?_updated_self (tree : Json) (hplace : place ≠ .root) (value : Json) :
    (tree.updated place (some value) .replace).isObject ∧
      ((∃ found, (tree.updated place (some value) .replace).at? place = some found ∧
        found == value) ∨
        (tree.updated place (some value) .replace).IsBlocked place.segments) := by
  obtain ⟨segments⟩ := place
  cases segments with
  | nil => exact absurd rfl hplace
  | cons segment segments =>
    cases hupdate : tree.update? ⟨segment :: segments⟩ (some value) .replace with
    | none =>
      rw [updated, hupdate]
      exact replace_eq_none_iff.mp hupdate
    | some result =>
      rw [updated, hupdate]
      obtain ⟨-, hresult⟩ := update?_eq_some_iff.mp hupdate
      have hobject : result.isObject := by
        rw [← hresult]
        exact isObject_write_cons tree segment segments (some value) .replace
      exact ⟨hobject, Or.inl ⟨value, at?_of_update? hupdate, BEq.rfl⟩⟩

theorem noNewArray_updated (tree : Json) (hplace : place ≠ .root) (value : Option Json)
    (mode : UpdateMode) :
    NoNewArray tree.asRoot (tree.updated place value mode).asRoot place.segments := by
  rcases tree.updated_cases hplace value mode with hsame | ⟨hwritten, hobject⟩
  · rw [hsame]
    exact .rfl
  · rw [asRoot_of_isObject hobject, hwritten]
    obtain ⟨members, hroot⟩ := tree.exists_asRoot_eq
    rw [hroot]
    exact noNewArray_write hplace value mode

/-- A place that the source has is refreshed to what is there, unless an array blocks the way, which
takes two segments. -/
theorem at?_refreshed {value : Json} (hvalue : source.at? place = some value)
    (hplace : place ≠ .root) (haside : ∀ way ∈ front ++ back, way.IsAside place)
    (haliased : ∀ way ∈ front ++ back, ¬ tree.asRoot.Aliased way.segments place.segments) :
    (tree.refreshed source (front ++ place :: back)).isObject ∧
      ((∃ found, (tree.refreshed source (front ++ place :: back)).at? place = some found ∧
        found == value) ∨
        (1 < place.segments.length ∧
          (tree.refreshed source (front ++ place :: back)).at? place = none)) := by
  rw [List.forall_mem_append] at haside haliased
  have hfront : Spared tree.asRoot (tree.refreshed source front).asRoot place True :=
    Spared.rfl.refreshed haside.1 haliased.1 fun _ _ _ => trivial
  rw [refreshed_append, refreshed_cons, hvalue]
  generalize tree.refreshed source front = start at hfront
  have harrays := hfront.noNewArray.trans (noNewArray_updated start hplace (some value) .replace)
  obtain ⟨hobject, hread⟩ := at?_updated_self start hplace value
  generalize start.updated place (some value) .replace = written at harrays hobject hread
  rw [asRoot_of_isObject hobject] at harrays
  have hlater : Undisturbed (written.at? place) ((written.refreshed source back).at? place)
      (∃ way ∈ back, written.IsPadding way.segments place.segments) :=
    at?_refreshed_aside hobject haside.2 fun way hway => harrays.not_aliased (haliased.2 way hway)
  refine ⟨isObject_refreshed hobject fun way hway => (haside.2 way hway).ne_root, ?_⟩
  rcases hread with ⟨found, hfound, hsame⟩ | hblocked
  · rcases hlater with hkept | ⟨hnone, -⟩
    · exact Or.inl ⟨found, hkept.trans hfound, hsame⟩
    · cases hnone.symm.trans hfound
  · refine Or.inr ⟨?_, ?_⟩
    · exact hblocked.meetsArray.one_lt_length hobject
    · rcases hlater with hkept | ⟨-, -, way, -, hpadding⟩
      · exact hkept.trans hblocked.at?_eq_none
      · exact absurd hpadding hblocked.not_isPadding

theorem at?_updated_delete (tree : Json) (segment : String) :
    (tree.updated ⟨[segment]⟩ none .replace).asRoot.at? ⟨[segment]⟩ = none := by
  rw [at?, get?_singleton]
  cases tree with
  | object members =>
    have heffective : (Json.object members).isEffective ⟨[segment]⟩ none .replace =
        (members.lookup segment).isSome := rfl
    cases hlookup : members.lookup segment with
    | none =>
      rw [hlookup] at heffective
      rw [updated_of_not_isEffective heffective]
      exact hlookup
    | some value =>
      rw [hlookup] at heffective
      rw [updated_of_isEffective heffective]
      change (eraseMember segment members).lookup segment = none
      rw [lookup_eraseMember, if_pos rfl]
  | _ =>
    rw [updated_of_not_isEffective (isEffective_of_not_isObject rfl segment [] none .replace)]
    rfl

/-- A member of the root that the source does not have is missing after the refresh. -/
theorem at?_refreshed_of_none {segment : String} (hvalue : source.at? ⟨[segment]⟩ = none)
    (haside : ∀ way ∈ back, way.IsAside ⟨[segment]⟩) :
    (tree.refreshed source (front ++ ⟨[segment]⟩ :: back)).asRoot.at? ⟨[segment]⟩ = none := by
  rw [refreshed_append, refreshed_cons, hvalue,
    at?_asRoot_refreshed haside (not_meetsArray_singleton _ segment)]
  exact at?_updated_delete (tree.refreshed source front) segment

end Read

/-! ## A tree as its own source -/

theorem isEffective_delete_of_none {container : Json} {segment : String} {segments : List String}
    (hcontainer : container.isComposite) (h : container.get? (segment :: segments) = none) :
    (Probe.node container).isEffective none .replace segment segments = false := by
  induction segments generalizing container segment with
  | nil =>
    rw [get?_singleton] at h
    cases container with
    | object members =>
      have hlookup : members.lookup segment = none := h
      simp [isMemberEffective, hlookup]
    | array items =>
      cases hindex : Text.arrayIndex? segment with
      | none => simp [hindex]
      | some index =>
        rw [child?, hindex, Option.bind_some] at h
        simp [hindex, isElementEffective, h]
    | _ => cases hcontainer
  | cons next segments ih =>
    cases haccepts : container.accepts segment with
    | false => exact isEffective_of_not_accepts hcontainer haccepts none .replace _
    | true =>
      rw [isEffective_cons hcontainer haccepts]
      rcases ofChild_cases (container.child? segment) with
        ⟨child, hchild, hcomposite, hprobe, -⟩ | ⟨hprobe, -, -⟩
      · rw [hprobe]
        refine ih hcomposite ?_
        rwa [get?, hchild, Option.bind_some] at h
      · rw [hprobe, isEffective_fresh]
        rfl

/-- Setting a place to what is there has no effect. -/
theorem isEffective_at?_self {tree : Json} {path : DataPath} (h : tree.isObject ∨ path = .root) :
    tree.isEffective path (tree.at? path) .replace = false := by
  obtain ⟨segments⟩ := path
  cases segments with
  | nil => simp [isEffective, at?, get?]
  | cons segment segments =>
    have hobject : tree.isObject := by simpa [DataPath.root] using h
    cases hread : tree.at? ⟨segment :: segments⟩ with
    | some value =>
      rw [← update?_eq_none_iff]
      exact replace_eq_none_iff.mpr ⟨hobject, Or.inl ⟨value, hread, BEq.rfl⟩⟩
    | none =>
      cases tree with
      | object members =>
        rw [isEffective_object]
        exact isEffective_delete_of_none rfl hread
      | _ => cases hobject

end DataBinding.Json
