import DataBinding.Proofs.Update.Effect
import DataBinding.Proofs.Update.InPlace

/-!
# Appending, and removing what was appended

Adding a value at a path appends it to the list there. Where nothing is there, it makes a list of the one
value, with all that is missing on the way. Where a list is there, this list is changed in its place, and
so the removal of the element after its old end gives the tree back as it was.

* `Json.appended`: what adding a value makes of the one in its place.
* `update?_add_of_list`, `update?_remove_of_list`: appending to a list that is there, and removing one of
  its elements.
* `Json.addAll?`, `addAll?_of_list`: values added one after the other, each with an effect.
* `Json.add_appends_undone_by_remove`: one addition, a run of them, and their removal.
-/

namespace DataBinding.Json

/-! ## One addition -/

/-- What adding a value makes of the one in its place. -/
def appended (value : Json) (found : Option Json) : Json :=
  (found.getD (.array [])).push value

theorem putsChild_add (value : Json) : PutsChild (some value) .add (appended value) :=
  fun _ _ => rfl

theorem takesChild_add (value : Json) :
    TakesChild (some value) .add (isAddEffective · (some value)) where
  fresh := rfl
  absent := rfl
  child haccepts := isEffective_add_nil haccepts (some value)

theorem isAddEffective_array (items : List Json) (value : Json) :
    isAddEffective (some (.array items)) (some value) = !(Json.array items == value) := by
  simp [isAddEffective, isArray]

theorem isAddEffective_of_not_isArray {current : Json} (h : current.isArray = false)
    (value : Json) : isAddEffective (some current) (some value) = false := by
  simp [isAddEffective, h]

section Add

variable {tree : Json} {path : DataPath} {items : List Json}

/-- Below the root of an object, on a path that is not blocked, only the value in place decides. -/
theorem update?_add (hobject : tree.isObject) (hpath : path ≠ .root)
    (hfree : ¬ tree.IsBlocked path.segments) (value : Json) :
    tree.update? path (some value) .add =
      if isAddEffective (tree.at? path) (some value) then some (tree.write path (some value) .add)
      else none := by
  obtain ⟨members, rfl⟩ := exists_of_isObject hobject
  obtain ⟨_ | ⟨segment, segments⟩⟩ := path
  · exact absurd rfl hpath
  · have heffective :
        (Json.object members).isEffective ⟨segment :: segments⟩ (some value) .add =
          isAddEffective ((Json.object members).get? (segment :: segments)) (some value) := by
      rw [Bool.eq_iff_iff, isEffective_object, isEffective_iff_of_takesChild (takesChild_add value) rfl]
      exact and_iff_right hfree
    rw [update?, heffective]
    rfl

theorem at?_write_add (hobject : tree.isObject) (hpath : path ≠ .root)
    (hfree : ¬ tree.IsBlocked path.segments) (value : Json) :
    (tree.write path (some value) .add).at? path = some (appended value (tree.at? path)) := by
  obtain ⟨members, rfl⟩ := exists_of_isObject hobject
  obtain ⟨_ | ⟨segment, segments⟩⟩ := path
  · exact absurd rfl hpath
  · exact get?_writeBelow_made (putsChild_add value) rfl hfree

/-- A list that is there is changed in its place, unless it equals the value. -/
theorem update?_add_of_list (hobject : tree.isObject) (hpath : path ≠ .root)
    (hlist : tree.at? path = some (.array items)) (value : Json) :
    tree.update? path (some value) .add =
      if Json.array items == value then none
      else some (tree.modifyAt path.segments fun _ => .array (items ++ [value])) := by
  rw [update?_add hobject hpath (not_isBlocked_of_at? hlist), hlist, isAddEffective_array]
  obtain ⟨members, rfl⟩ := exists_of_isObject hobject
  obtain ⟨_ | ⟨segment, segments⟩⟩ := path
  · exact absurd rfl hpath
  · rw [write_cons, asRoot, writeBelow_eq_modifyAt_self (putsChild_add value) hlist]
    cases Json.array items == value <;> rfl

/-- Removing an element of a list that is there closes the gap. -/
theorem update?_remove_of_list (hobject : tree.isObject) {rest : List Json} {value : Json}
    (hlist : tree.at? path = some (.array (items ++ value :: rest))) {last : String}
    (hlast : Text.arrayIndex? last = some items.length) (argument : Option Json) :
    tree.update? ⟨path.segments ++ [last]⟩ argument .remove =
      some (tree.modifyAt path.segments fun _ => .array (items ++ rest)) := by
  have heffective : (Probe.node (.array (items ++ value :: rest))).isEffective argument .remove
      last [] := by
    simp [isElementEffective, hlast]
  have hremoved : writeBelow argument .remove (.array (items ++ value :: rest)) last [] =
      .array (items ++ rest) := by
    simp [writeBelow, updateChild, editItems, hlast, List.eraseIdx_append_of_length_le]
  rw [update?_of_part hobject hlist rfl rfl, if_pos heffective, hremoved]

end Add

/-! ## Runs -/

/-- Values added one after the other, each of them with an effect. -/
def addAll? (tree : Json) (path : DataPath) (values : List Json) : Option Json :=
  values.foldlM (fun tree value => tree.update? path (some value) .add) tree

/-- As many removals one after the other, each of them with an effect. -/
def removeAll? (tree : Json) (path : DataPath) (argument : Option Json) : Nat → Option Json
  | 0 => some tree
  | count + 1 => (tree.update? path argument .remove).bind (removeAll? · path argument count)

section Run

variable {tree : Json} {path : DataPath} {items : List Json}

theorem at?_modifyAt_array (hlist : tree.at? path = some (.array items)) (changed : List Json) :
    (tree.modifyAt path.segments fun _ => .array changed).at? path = some (.array changed) :=
  at?_modifyAt_of_at? hlist (.array changed)

/-- Putting the old list back gives the tree back. -/
theorem modifyAt_array_eq_self (hlist : tree.at? path = some (.array items))
    (change : Json → Json) :
    (tree.modifyAt path.segments change).modifyAt path.segments (fun _ => .array items) = tree := by
  rw [modifyAt_modifyAt]
  refine modifyAt_eq_self fun found hfound => ?_
  cases hlist.symm.trans hfound
  rfl

theorem addAll?_of_list (hobject : tree.isObject) (hpath : path ≠ .root)
    (hlist : tree.at? path = some (.array items)) {values : List Json}
    (hnew : ∀ front value back, values = front ++ value :: back →
      ¬ Json.array (items ++ front) == value) :
    tree.addAll? path values =
      some (tree.modifyAt path.segments fun _ => .array (items ++ values)) := by
  induction values generalizing tree items with
  | nil =>
    rw [List.append_nil, modifyAt_eq_self fun found hfound => Option.some.inj (hlist.symm.trans hfound)]
    rfl
  | cons value values ih =>
    have hhead : ¬ Json.array items == value := by
      simpa using hnew [] value values rfl
    rw [addAll?, List.foldlM_cons, update?_add_of_list hobject hpath hlist, if_neg hhead]
    change addAll? _ path values = _
    rw [ih (isObject_modifyAt hobject (DataPath.segments_ne_nil hpath)) (at?_modifyAt_array hlist _),
      modifyAt_modifyAt, List.append_assoc]
    · rfl
    · intro front next back hvalues
      rw [List.append_assoc]
      exact hnew (value :: front) next back (congrArg (value :: ·) hvalues)

/-- The first value makes the list, and from then on there is one. -/
theorem addAll?_of_absent (hobject : tree.isObject) (hpath : path ≠ .root)
    (hfree : ¬ tree.IsBlocked path.segments) (habsent : tree.at? path = none) {values : List Json}
    (hnew : ∀ front value back, values = front ++ value :: back → front ≠ [] →
      ¬ Json.array front == value) :
    ∃ result, tree.addAll? path values = some result ∧
      (result.at? path).getD (.array []) = .array values := by
  cases values with
  | nil => exact ⟨tree, rfl, by rw [habsent, Option.getD_none]⟩
  | cons first rest =>
    have hread := at?_write_add hobject hpath hfree first
    rw [habsent] at hread
    have hmade : tree.update? path (some first) .add = some (tree.write path (some first) .add) := by
      rw [update?_add hobject hpath hfree, habsent]
      rfl
    have hkept := isObject_of_update? hpath hmade
    have hlater : ∀ front value back, rest = front ++ value :: back →
        ¬ Json.array ([first] ++ front) == value := fun front value back hvalues =>
      hnew (first :: front) value back (congrArg (first :: ·) hvalues) (List.cons_ne_nil first front)
    have hrest := addAll?_of_list hkept hpath hread hlater
    refine ⟨(tree.write path (some first) .add).modifyAt path.segments
      fun _ => .array (first :: rest), ?_, ?_⟩
    · rw [addAll?, List.foldlM_cons, hmade]
      exact hrest
    · rw [at?_modifyAt_array hread, Option.getD_some]

theorem removeAll?_of_list (hobject : tree.isObject) (hpath : path ≠ .root) {values : List Json}
    (hlist : tree.at? path = some (.array (items ++ values))) {last : String}
    (hlast : Text.arrayIndex? last = some items.length) (argument : Option Json) :
    tree.removeAll? ⟨path.segments ++ [last]⟩ argument values.length =
      some (tree.modifyAt path.segments fun _ => .array items) := by
  induction values generalizing tree with
  | nil =>
    rw [List.append_nil] at hlist
    rw [modifyAt_eq_self fun found hfound => Option.some.inj (hlist.symm.trans hfound)]
    rfl
  | cons value values ih =>
    rw [List.length_cons, removeAll?, update?_remove_of_list hobject hlist hlast, Option.bind_some,
      ih (isObject_modifyAt hobject (DataPath.segments_ne_nil hpath)) (at?_modifyAt_array hlist _),
      modifyAt_modifyAt]
    rfl

end Run

/-! ## What adding does -/

/-- What adding a value at a path does to a tree, by what is at the path. -/
structure AddsAt (tree : Json) (path : DataPath) (value : Json) : Prop where
  /-- Where nothing is, there is a list of the value afterwards. -/
  absent : tree.at? path = none → ∃ result, tree.update? path (some value) .add = some result ∧
    result.at? path = some (.array [value])
  /-- A list that is not equal to the value has the value at its end afterwards, and without the element
  after its old end the tree is as it was. -/
  list : ∀ items, tree.at? path = some (.array items) → ¬ Json.array items == value →
    ∃ result, tree.update? path (some value) .add = some result ∧
      result.at? path = some (.array (items ++ [value])) ∧
      ∀ (last : String) (argument : Option Json), Text.arrayIndex? last = some items.length →
        result.update? ⟨path.segments ++ [last]⟩ argument .remove = some tree
  /-- A list that equals the value, and any other value, `null` too, is left as it is. -/
  refused : ∀ current, tree.at? path = some current → current == value ∨ current.isArray = false →
    tree.update? path (some value) .add = none

section Law

variable {tree : Json} {path : DataPath}

theorem addsAt (hobject : tree.isObject) (hpath : path ≠ .root)
    (hfree : ¬ tree.IsBlocked path.segments) (value : Json) : tree.AddsAt path value where
  absent habsent := by
    have hread := at?_write_add hobject hpath hfree value
    rw [habsent] at hread
    exact ⟨_, by rw [update?_add hobject hpath hfree, habsent]; rfl, hread⟩
  list items hlist hne := by
    refine ⟨_, by rw [update?_add_of_list hobject hpath hlist, if_neg hne],
      at?_modifyAt_array hlist _, fun last argument hlast => ?_⟩
    rw [update?_remove_of_list (isObject_modifyAt hobject (DataPath.segments_ne_nil hpath))
      (at?_modifyAt_array hlist _) hlast, List.append_nil, modifyAt_array_eq_self hlist]
  refused current hcurrent hrefused := by
    rw [update?_add hobject hpath hfree, hcurrent]
    rcases hrefused with hequal | hscalar
    · simp [isAddEffective, hequal]
    · simp [isAddEffective_of_not_isArray hscalar]

/-- **Adding appends, and removing undoes it.** Let the tree be an object, and the path one below its root
that no array on the way blocks. Adding one value does what `AddsAt` says. Values that are added one
after the other, none of them equal to the list at its turn, are at the end of the list afterwards, in
their order and after all that was there before; the first one of them meets no list if nothing was there.
If a list was there, as many removals of the element after its old end give the tree back as it was. -/
theorem add_appends_undone_by_remove (hobject : tree.isObject) (hpath : path ≠ .root)
    (hfree : ¬ tree.IsBlocked path.segments) :
    (∀ value, tree.AddsAt path value) ∧
    ∀ items values,
      tree.at? path = some (.array items) ∨ tree.at? path = none ∧ items = [] →
      (∀ front value back, values = front ++ value :: back →
        ¬ Json.array (items ++ front) == value ∨ tree.at? path = none ∧ front = []) →
      ∃ result, tree.addAll? path values = some result ∧
        (result.at? path).getD (.array []) = .array (items ++ values) ∧
        (tree.at? path = some (.array items) → ∀ (last : String) (argument : Option Json),
          Text.arrayIndex? last = some items.length →
          result.removeAll? ⟨path.segments ++ [last]⟩ argument values.length = some tree) := by
  refine ⟨addsAt hobject hpath hfree, fun items values hstart hnew => ?_⟩
  rcases hstart with hlist | ⟨habsent, rfl⟩
  · have hnew' : ∀ front value back, values = front ++ value :: back →
        ¬ Json.array (items ++ front) == value := by
      intro front value back hvalues
      refine (hnew front value back hvalues).resolve_right fun h => ?_
      cases hlist.symm.trans h.1
    refine ⟨_, addAll?_of_list hobject hpath hlist hnew', ?_, fun _ last argument hlast => ?_⟩
    · rw [at?_modifyAt_array hlist, Option.getD_some]
    · rw [removeAll?_of_list (isObject_modifyAt hobject (DataPath.segments_ne_nil hpath)) hpath
        (at?_modifyAt_array hlist _) hlast, modifyAt_array_eq_self hlist]
  · have hnew' : ∀ front value back, values = front ++ value :: back → front ≠ [] →
        ¬ Json.array front == value :=
      fun front value back hvalues hfront =>
        (hnew front value back hvalues).resolve_right fun h => hfront h.2
    obtain ⟨result, hresult, hread⟩ := addAll?_of_absent hobject hpath hfree habsent hnew'
    refine ⟨result, hresult, hread, fun hlist => ?_⟩
    cases habsent.symm.trans hlist

/-- Two values are appended to a list in a list, the second one an empty list, and two removals undo it. -/
theorem add_appends_undone_by_remove_in_array :
    let tree := Json.object [("rows", .array [.array [.null]]), ("title", .bool true)]
    let rows : DataPath := ⟨["rows", "0"]⟩
    tree.at? rows = some (.array [.null]) ∧ ∃ grown,
      tree.addAll? rows [.bool true, .array []] = some grown ∧
      (grown.at? rows).getD (.array []) = .array [.null, .bool true, .array []] ∧
      grown.removeAll? ⟨["rows", "0", "1"]⟩ none 2 = some tree := by
  intro tree rows
  have hlist : tree.at? rows = some (.array [.null]) := rfl
  have hobject : tree.isObject := rfl
  obtain ⟨-, hruns⟩ :=
    add_appends_undone_by_remove hobject (by decide) (not_isBlocked_of_at? hlist)
  obtain ⟨grown, hgrown, hread, hundone⟩ := hruns [.null] [.bool true, .array []] (Or.inl hlist) (by
    intro front value back hvalues
    left
    rcases front with _ | ⟨first, _ | ⟨second, rest⟩⟩
    · cases hvalues
      decide
    · cases hvalues
      decide
    · simp at hvalues)
  exact ⟨hlist, grown, hgrown, hread, hundone hlist "1" none (by decide)⟩

end Law

end DataBinding.Json
