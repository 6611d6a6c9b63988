import DataBinding.Proofs.Update.Effect
import DataBinding.Proofs.Update.Frame
import DataBinding.Proofs.Update.Subtree

/-!
# Several updates aside of a place

A single update leaves alone what is aside of its path, apart from aliases and gaps in the arrays that
it meets. The arrays that a later update meets are not those of the tree at the start, but none of them
is new: an array that is on the way to a place afterwards was there before. So aliases and gaps can be
looked for in the tree at the start once and for all.

* `DataPath.IsAside`: neither path covers the other.
* `Json.updated_cases`: what an update below the root makes of a root that is no object.
* `Json.NoNewArray`, `exists_array_of_get?_writeBelow`: the arrays on the way to a place.
* `Json.Spared`, `Spared.updated`: a place that all updates so far were aside of, and one more.
-/

namespace DataBinding

/-! ## Paths aside of each other -/

namespace DataPath

/-- Neither path covers the other. -/
def IsAside (p q : DataPath) : Prop := ¬ p.covers q ∧ ¬ q.covers p

instance (p q : DataPath) : Decidable (p.IsAside q) := inferInstanceAs (Decidable (_ ∧ _))

theorem IsAside.symm {p q : DataPath} (h : p.IsAside q) : q.IsAside p := ⟨h.2, h.1⟩

theorem covers_iff {p q : DataPath} : p.covers q ↔ ∃ rest, q.segments = p.segments ++ rest := by
  rw [covers, List.isPrefixOf_iff_prefix]
  exact exists_congr fun rest => eq_comm

theorem isRoot_iff {p : DataPath} : p.isRoot ↔ p = root := by
  obtain ⟨segments⟩ := p
  simp [isRoot, root]

theorem segments_ne_nil {p : DataPath} (h : p ≠ root) : p.segments ≠ [] :=
  fun hnil => h (congrArg mk hnil)

theorem root_covers (p : DataPath) : root.covers p := covers_iff.mpr ⟨p.segments, rfl⟩

theorem IsAside.ne_root {p q : DataPath} (h : p.IsAside q) : p ≠ root := by
  rintro rfl
  exact h.1 (root_covers q)

theorem IsAside.ne {p q : DataPath} (h : p.IsAside q) : p ≠ q := by
  rintro rfl
  exact h.1 (covers_iff.mpr ⟨[], (List.append_nil _).symm⟩)

theorem not_covers_of_parting {p q : DataPath} {front back back' : List String}
    {segment segment' : String} (hp : p.segments = front ++ segment :: back)
    (hq : q.segments = front ++ segment' :: back') (hne : segment ≠ segment') :
    ¬ p.covers q := by
  intro hcovers
  obtain ⟨rest, hrest⟩ := covers_iff.mp hcovers
  rw [hp, hq, List.append_assoc, List.append_cancel_left_eq, List.cons_append] at hrest
  exact hne (List.cons.inj hrest).1.symm

/-- Paths that part are aside of each other. -/
theorem isAside_of_parting {p q : DataPath} {front back back' : List String}
    {segment segment' : String} (hp : p.segments = front ++ segment :: back)
    (hq : q.segments = front ++ segment' :: back') (hne : segment ≠ segment') : p.IsAside q :=
  ⟨not_covers_of_parting hp hq hne, not_covers_of_parting hq hp hne.symm⟩

/-- Of two paths aside of each other not both cover a third one. -/
theorem IsAside.not_covers {p q r : DataPath} (h : p.IsAside q) (hq : q.covers r) :
    ¬ p.covers r := by
  intro hp
  simp only [IsAside, covers, List.isPrefixOf_iff_prefix] at h hp hq
  rcases List.prefix_or_prefix_of_prefix hp hq with hprefix | hprefix
  · exact h.1 hprefix
  · exact h.2 hprefix

end DataPath

namespace Json

/-! ## The root -/

theorem exists_asRoot_eq (tree : Json) : ∃ members, tree.asRoot = .object members := by
  cases tree <;> exact ⟨_, rfl⟩

theorem isObject_asRoot (tree : Json) : tree.asRoot.isObject := by
  cases tree <;> rfl

theorem asRoot_of_isObject {tree : Json} (h : tree.isObject) : tree.asRoot = tree := by
  cases tree with
  | object members => rfl
  | _ => cases h

theorem asRoot_of_not_isObject {tree : Json} (h : tree.isObject = false) :
    tree.asRoot = .object [] := by
  cases tree with
  | object members => cases h
  | _ => rfl

/-- An update below the root keeps the tree, or leaves an object that was written into its root. -/
theorem updated_cases (tree : Json) {path : DataPath} (hpath : path ≠ .root)
    (value : Option Json) (mode : UpdateMode) :
    tree.updated path value mode = tree ∨
      tree.updated path value mode = tree.asRoot.write path value mode ∧
        (tree.updated path value mode).isObject := by
  obtain ⟨segments⟩ := path
  cases segments with
  | nil => exact absurd rfl hpath
  | cons segment segments =>
    cases heffective : tree.isEffective ⟨segment :: segments⟩ value mode with
    | false => exact Or.inl (updated_of_not_isEffective heffective)
    | true =>
      rw [updated_of_isEffective heffective]
      refine Or.inr ⟨?_, isObject_write_cons tree segment segments value mode⟩
      rw [write_cons, write_cons]
      cases tree <;> rfl

/-! ## Arrays on the way -/

/-- An array is on the way to a place. -/
def MeetsArray (tree : Json) (path : List String) : Prop :=
  ∃ front segment back items, path = front ++ segment :: back ∧
    tree.get? front = some (.array items)

section Meets

variable {tree : Json} {path other : List String}

theorem IsBlocked.meetsArray (h : tree.IsBlocked path) : tree.MeetsArray path := by
  obtain ⟨front, segment, back, items, hpath, hread, -⟩ := h
  exact ⟨front, segment, back, items, hpath, hread⟩

theorem Aliased.meetsArray (h : tree.Aliased path other) : tree.MeetsArray other := by
  obtain ⟨front, _, segment, _, back, node, -, hother, -, hread, items, -, rfl, -⟩ := h
  exact ⟨front, segment, back, items, hother, hread⟩

theorem IsPadding.meetsArray (h : tree.IsPadding path other) : tree.MeetsArray other := by
  obtain ⟨front, _, segment, _, node, -, hother, hread, items, -, -, rfl, -⟩ := h
  exact ⟨front, segment, [], items, hother, hread⟩

theorem MeetsArray.one_lt_length (h : tree.MeetsArray path) (hobject : tree.isObject) :
    1 < path.length := by
  obtain ⟨front, segment, back, items, rfl, hread⟩ := h
  cases front with
  | nil =>
    cases Option.some.inj hread
    cases hobject
  | cons first front =>
    simp only [List.length_append, List.length_cons]
    omega

theorem not_meetsArray_empty (path : List String) : ¬ (Json.object []).MeetsArray path := by
  rintro ⟨front, segment, back, items, -, hread⟩
  cases front <;> cases hread

end Meets

/-- Every array on the way to a place was there before. -/
def NoNewArray (before after : Json) (path : List String) : Prop :=
  ∀ front segment back items, path = front ++ segment :: back →
    after.get? front = some (.array items) → ∃ olds, before.get? front = some (.array olds)

section Arrays

variable {first second third : Json} {path other : List String}

theorem NoNewArray.rfl : NoNewArray first first path := fun _ _ _ items _ hread => ⟨items, hread⟩

theorem NoNewArray.trans (h : NoNewArray first second path) (h' : NoNewArray second third path) :
    NoNewArray first third path := by
  intro front segment back items hpath hread
  obtain ⟨olds, holds⟩ := h' front segment back items hpath hread
  exact h front segment back olds hpath holds

/-- Without new arrays there are no new aliases. -/
theorem NoNewArray.not_aliased (h : NoNewArray first second other)
    (haliased : ¬ first.Aliased path other) : ¬ second.Aliased path other := by
  rintro ⟨front, segment, segment', back, back', node, hpath, hother, hne, hread, items, index,
    rfl, hindex, hplace⟩
  obtain ⟨olds, holds⟩ := h front segment' back' items hother hread
  exact haliased ⟨front, segment, segment', back, back', .array olds, hpath, hother, hne, holds,
    olds, index, Eq.refl _, hindex, hplace⟩

/-- A path that is an alias of the way to a place is an alias of the place. -/
theorem Aliased.append {tree : Json} (h : tree.Aliased path other) (rest : List String) :
    tree.Aliased path (other ++ rest) := by
  obtain ⟨front, segment, segment', back, back', node, hpath, rfl, hne, hread, hshares⟩ := h
  refine ⟨front, segment, segment', back, back' ++ rest, node, hpath, ?_, hne, hread, hshares⟩
  rw [List.append_assoc, List.cons_append]

/-- A write makes an array out of an array only. -/
theorem exists_array_of_writeBelow {value : Option Json} {mode : UpdateMode} {container : Json}
    {segment : String} {rest : List String} {items : List Json}
    (h : writeBelow value mode container segment rest = .array items) :
    ∃ olds, container = .array olds := by
  have hcomposite : container.isComposite := by
    rw [← isComposite_writeBelow value mode container segment rest, h]
    rfl
  cases container with
  | array olds => exact ⟨olds, rfl⟩
  | object members =>
    obtain ⟨changed, hchanged, -⟩ :=
      get?_writeBelow_front value mode (List.nil_append (segment :: rest)).symm
        (rfl : (Json.object members).get? [] = some (.object members))
    rw [h] at hchanged
    cases hchanged
  | _ => cases hcomposite

/-- A write brings no new array to its own way. -/
theorem exists_array_of_get?_writeBelow {value : Option Json} {mode : UpdateMode}
    {container : Json} {start segment : String} {rest front back : List String}
    {items : List Json} (hpath : start :: rest = front ++ segment :: back)
    (h : (writeBelow value mode container start rest).get? front = some (.array items)) :
    ∃ olds, container.get? front = some (.array olds) := by
  induction front generalizing container start rest with
  | nil =>
    obtain ⟨olds, rfl⟩ := exists_array_of_writeBelow (Option.some.inj h)
    exact ⟨olds, rfl⟩
  | cons step front ih =>
    obtain ⟨rfl, hrest⟩ := List.cons.inj hpath
    obtain ⟨next, segments, rfl⟩ := List.exists_cons_of_ne_nil (l := rest) (by simp [hrest])
    cases haccepts : container.accepts start with
    | false =>
      rw [writeBelow_cons_of_not_accepts haccepts] at h
      exact ⟨items, h⟩
    | true =>
      rw [get?_writeBelow_cons haccepts] at h
      obtain ⟨olds, holds⟩ := ih hrest h
      exact ⟨olds, get?_asContainer_array holds⟩

variable {members : List (String × Json)}

theorem noNewArray_write {way : DataPath} (hway : way ≠ .root) (value : Option Json)
    (mode : UpdateMode) :
    NoNewArray (.object members) ((Json.object members).write way value mode) way.segments := by
  intro front segment back items hpath hread
  obtain ⟨segments⟩ := way
  cases segments with
  | nil => exact absurd rfl hway
  | cons start rest => exact exists_array_of_get?_writeBelow hpath hread

/-- A write brings no new array to a way aside of its own. -/
theorem noNewArray_write_aside {way aside : DataPath} (haside : way.IsAside aside)
    (haliased : ¬ (Json.object members).Aliased way.segments aside.segments)
    {mode : UpdateMode} (hmode : mode = .replace ∨ mode = .add) (value : Option Json) :
    NoNewArray (.object members) ((Json.object members).write way value mode) aside.segments := by
  intro front segment back items hpath hread
  have hfront : (⟨front⟩ : DataPath).covers aside := DataPath.covers_iff.mpr ⟨_, hpath⟩
  have hcovers : ¬ way.covers ⟨front⟩ := by
    rw [DataPath.covers_iff]
    rintro ⟨rest, hrest⟩
    refine haside.1 (DataPath.covers_iff.mpr ⟨rest ++ segment :: back, ?_⟩)
    rw [hpath, ← List.append_assoc, ← hrest]
  by_cases hcovered : (⟨front⟩ : DataPath).covers way
  · -- The write goes through the array.
    obtain ⟨rest, hrest⟩ := DataPath.covers_iff.mp hcovered
    cases rest with
    | nil => exact absurd (DataPath.covers_iff.mpr ⟨[], by simp [hrest]⟩) hcovers
    | cons next rest =>
      exact noNewArray_write haside.ne_root value mode front next rest items hrest hread
  · have haliased' : ¬ (Json.object members).Aliased way.segments front := by
      intro h
      rw [hpath] at haliased
      exact haliased (h.append _)
    rcases at?_write_aside hmode members value hcovers hcovered haliased' with
      hsame | ⟨-, hnull, -⟩
    · exact ⟨items, hsame.symm.trans hread⟩
    · cases hnull.symm.trans hread

end Arrays

/-! ## What is spared -/

/-- A place reads as before, apart from `null` in a gap, and no array on the way there is new. -/
structure Spared (before after : Json) (place : DataPath) (gap : Prop) : Prop where
  read : Undisturbed (before.at? place) (after.at? place) gap
  noNewArray : NoNewArray before after place.segments

namespace Spared

variable {before tree : Json} {place way : DataPath} {gap : Prop}

theorem rfl : Spared before before place gap := ⟨Or.inl (Eq.refl _), .rfl⟩

/-- A gap that is there by now was there before. -/
theorem isPadding (h : Spared before tree place gap)
    (hpadding : tree.IsPadding way.segments place.segments) :
    before.IsPadding way.segments place.segments := by
  obtain ⟨front, segment, segment', back, node, hway, hplace, hread, items, index, position, rfl,
    hindex, hposition, hbeyond, hlt⟩ := hpadding
  obtain ⟨olds, holds⟩ := h.noNewArray front segment' [] items hplace hread
  have hnow : tree.at? place = none := by
    rw [at?, hplace, get?_append, hread, Option.bind_some, get?_singleton, child?, hposition]
    exact List.getElem?_eq_none hbeyond
  have hold : before.at? place = none := by
    rcases h.read with hsame | ⟨hnone, -⟩
    · exact hsame.symm.trans hnow
    · exact hnone
  rw [at?, hplace, get?_append, holds, Option.bind_some, get?_singleton, child?, hposition] at hold
  have hbeyond' : olds.length ≤ position := List.getElem?_eq_none_iff.mp hold
  exact ⟨front, segment, segment', back, .array olds, hway, hplace, holds, olds, index, position,
    Eq.refl _, hindex, hposition, hbeyond', hlt⟩

/-- One more update aside of the place spares it. -/
theorem updated (h : Spared before tree.asRoot place gap) (haside : way.IsAside place)
    (haliased : ¬ before.Aliased way.segments place.segments)
    (hgap : before.IsPadding way.segments place.segments → gap) {mode : UpdateMode}
    (hmode : mode = .replace ∨ mode = .add) (value : Option Json) :
    Spared before (tree.updated way value mode).asRoot place gap := by
  rcases tree.updated_cases haside.ne_root value mode with hsame | ⟨hwritten, hobject⟩
  · rwa [hsame]
  · rw [asRoot_of_isObject hobject, hwritten]
    have haliased' := h.noNewArray.not_aliased haliased
    obtain ⟨members, hroot⟩ := tree.exists_asRoot_eq
    rw [hroot] at h haliased' ⊢
    refine ⟨?_, h.noNewArray.trans (noNewArray_write_aside haside haliased' hmode value)⟩
    rcases at?_write_aside hmode members value haside.1 haside.2 haliased' with
      hsame | ⟨hnone, hnull, hpadding⟩
    · rw [hsame]
      exact h.read
    · rcases h.read with hold | ⟨-, hnow, -⟩
      · exact Or.inr ⟨hold.symm.trans hnone, hnull, hgap (h.isPadding hpadding)⟩
      · cases hnone.symm.trans hnow

end Spared

end Json

end DataBinding
