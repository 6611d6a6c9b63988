import DataBinding.Proofs.Update.Append

/-!
# Taking one thing out

Removing an element closes the gap that it leaves. Deleting takes a member out of its object, while of an
element of an array it leaves `null`. Both go down through what is there and make nothing on the way, so
that they have an effect only where there is something to take out, and change only the array or object
that it is taken from.

* `Json.update?_push_eq_some_iff`: an update that makes nothing where nothing is, by the array or object
  above the end of its path.
* `Json.RemovesElement`, `DeletesMember`, `ClearsElement`: the three ways of taking something out.
* `update?_remove_iff`, `update?_delete_iff`: when removing and deleting have an effect, and which.
* `update?_delete_updated`, `exists_update?_delete_of_absent`: deleting twice, and deleting what was set.
* `Json.takes_out_one_thing`: all of it together.
-/

namespace DataBinding.Json

/-! ## Members and elements -/

/-- A member that was not there is set at the end, and deleting it leaves the others in their order. -/
theorem eraseMember_insertMember {name : String} {members : List (String × Json)}
    (h : members.lookup name = none) (value : Json) :
    eraseMember name (insertMember name value members) = members := by
  have hothers : members.filter (fun member => member.1 ≠ name) = members := by
    refine List.filter_eq_self.mpr fun member hmember => ?_
    have hne : name ≠ member.1 := by simpa using List.lookup_eq_none_iff.mp h member hmember
    simpa using hne.symm
  rw [insertMember_of_absent h, eraseMember, List.filter_append, hothers]
  simp

theorem exists_eq_append_of_lt {items : List Json} {index : Nat} (h : index < items.length) :
    ∃ before item after, items = before ++ item :: after ∧ index = before.length := by
  refine ⟨items.take index, items[index], items.drop (index + 1), ?_, ?_⟩
  · rw [← List.drop_eq_getElem_cons h, List.take_append_drop]
  · rw [List.length_take, Nat.min_eq_left (Nat.le_of_lt h)]

/-! ## Below an array or object that is there -/

section Part

variable {tree inner result : Json} {path : DataPath} {last : String} {argument : Option Json}
  {mode : UpdateMode}

/-- What is updated at the end of a path is the array or object above it. -/
theorem update?_push_of_part (hobject : tree.isObject) (hread : tree.at? path = some inner)
    (hinner : inner.isComposite) (last : String) (argument : Option Json) (mode : UpdateMode) :
    tree.update? (path.push last) argument mode =
      if (Probe.node inner).isEffective argument mode last [] then
        some (tree.modifyAt path.segments fun _ => inner.updateChild last argument mode)
      else none :=
  update?_of_part hobject hread hinner rfl argument mode

/-- An update that makes nothing where nothing is has an effect if there is an array or object on which
it has one, and changes this one in its place. -/
theorem update?_push_eq_some_iff (hfresh : isFreshEffective argument mode = false) :
    tree.update? (path.push last) argument mode = some result ↔
      tree.isObject ∧ ∃ inner, tree.at? path = some inner ∧ inner.isComposite ∧
        (Probe.node inner).isEffective argument mode last [] ∧
        result = tree.modifyAt path.segments fun _ => inner.updateChild last argument mode := by
  constructor
  · intro h
    have heffective := (update?_eq_some_iff.mp h).1
    obtain ⟨first, rest, hpath⟩ : ∃ first rest, path.segments ++ [last] = first :: rest :=
      List.exists_cons_of_ne_nil (by simp)
    rw [DataPath.push, hpath] at heffective
    cases hobject : tree.isObject with
    | false =>
      rw [isEffective_of_not_isObject hobject, hfresh] at heffective
      cases heffective
    | true =>
      obtain ⟨members, rfl⟩ := exists_of_isObject hobject
      rw [isEffective_object] at heffective
      obtain ⟨inner, hread, hinner, hpart⟩ :=
        exists_part_of_isEffective hfresh rfl hpath.symm heffective
      rw [update?_push_of_part rfl hread hinner, if_pos hpart] at h
      exact ⟨rfl, inner, hread, hinner, hpart, (Option.some.inj h).symm⟩
  · rintro ⟨hobject, inner, hread, hinner, hpart, rfl⟩
    rw [update?_push_of_part hobject hread hinner, if_pos hpart]

end Part

/-! ## The three ways -/

/-- The element that the segment denotes is taken out of the array at the path, and the later ones move
up by one. -/
def RemovesElement (tree : Json) (path : DataPath) (last : String) (result : Json) : Prop :=
  ∃ before item after, tree.at? path = some (.array (before ++ item :: after)) ∧
    Text.arrayIndex? last = some before.length ∧
    result = tree.modifyAt path.segments fun _ => .array (before ++ after)

/-- The object at the path has a member of the name and loses it, and the others keep their order. -/
def DeletesMember (tree : Json) (path : DataPath) (name : String) (result : Json) : Prop :=
  ∃ members, tree.at? path = some (.object members) ∧ (members.lookup name).isSome ∧
    result = tree.modifyAt path.segments fun _ =>
      .object (members.filter fun member => member.1 ≠ name)

/-- The element that the segment denotes was not `null` and is `null` afterwards, in an array as long as
before. -/
def ClearsElement (tree : Json) (path : DataPath) (last : String) (result : Json) : Prop :=
  ∃ before item after, tree.at? path = some (.array (before ++ item :: after)) ∧
    Text.arrayIndex? last = some before.length ∧ item ≠ .null ∧
    result = tree.modifyAt path.segments fun _ => .array (before ++ .null :: after)

section Ways

variable {tree result : Json} {path : DataPath} {last : String}

/-- Removing has an effect at an element of an array only. -/
theorem update?_remove_iff {argument : Option Json} :
    tree.update? (path.push last) argument .remove = some result ↔
      tree.isObject ∧ tree.RemovesElement path last result := by
  constructor
  · intro h
    obtain ⟨hobject, inner, hread, hinner, hpart, rfl⟩ := (update?_push_eq_some_iff rfl).mp h
    refine ⟨hobject, ?_⟩
    cases inner with
    | object members => cases hpart
    | array items =>
      obtain ⟨index, hindex⟩ := Option.isSome_iff_exists.mp (accepts_of_isEffective hinner hpart)
      have hlt : index < items.length := by
        simpa [hindex, isElementEffective] using hpart
      obtain ⟨before, item, after, rfl, rfl⟩ := exists_eq_append_of_lt hlt
      refine ⟨before, item, after, hread, hindex, ?_⟩
      simp [updateChild, editItems, hindex, List.eraseIdx_append_of_length_le]
    | _ => cases hinner
  · rintro ⟨hobject, before, item, after, hread, hindex, rfl⟩
    exact update?_remove_of_list hobject hread hindex argument

/-- Deleting has an effect at a member, and at an element that is not `null`. -/
theorem update?_delete_iff :
    tree.update? (path.push last) none .replace = some result ↔
      tree.isObject ∧ (tree.DeletesMember path last result ∨ tree.ClearsElement path last result) := by
  rw [update?_push_eq_some_iff rfl]
  refine and_congr_right fun hobject => ?_
  constructor
  · rintro ⟨inner, hread, hinner, hpart, rfl⟩
    cases inner with
    | object members => exact Or.inl ⟨members, hread, hpart, rfl⟩
    | array items =>
      obtain ⟨index, hindex⟩ := Option.isSome_iff_exists.mp (accepts_of_isEffective hinner hpart)
      have hthere : items[index]?.any (!·.isNull) := by
        simpa [hindex, isElementEffective] using hpart
      have hlt : index < items.length := by
        refine Nat.lt_of_not_le fun hbeyond => ?_
        rw [List.getElem?_eq_none hbeyond] at hthere
        cases hthere
      obtain ⟨before, item, after, rfl, rfl⟩ := exists_eq_append_of_lt hlt
      refine Or.inr ⟨before, item, after, hread, hindex, ?_, ?_⟩
      · rintro rfl
        simp [isNull] at hthere
      · simp [updateChild, deleteChild, editItems, hindex, setElement]
    | _ => cases hinner
  · rintro (⟨members, hread, hthere, rfl⟩ | ⟨before, item, after, hread, hindex, hitem, rfl⟩)
    · exact ⟨_, hread, rfl, hthere, rfl⟩
    · have hnull : item.isNull = false := by
        cases item <;> first | rfl | exact absurd rfl hitem
      refine ⟨_, hread, rfl, ?_, ?_⟩
      · simp [hindex, isElementEffective, hnull]
      · simp [updateChild, deleteChild, editItems, hindex, setElement]

/-- What was deleted is not there to be deleted again. -/
theorem update?_delete_updated (tree : Json) (path : DataPath) (last : String) :
    (tree.updated (path.push last) none .replace).update? (path.push last) none .replace = none := by
  cases hfirst : tree.update? (path.push last) none .replace with
  | none =>
    rw [updated, hfirst]
    exact hfirst
  | some result =>
    rw [updated, hfirst, Option.getD_some, Option.eq_none_iff_forall_ne_some]
    intro later hlater
    obtain ⟨-, hfirst⟩ := update?_delete_iff.mp hfirst
    obtain ⟨-, hlater⟩ := update?_delete_iff.mp hlater
    rcases hfirst with ⟨members, hread, -, rfl⟩ | ⟨before, item, after, hread, hindex, -, rfl⟩
    · have hleft := at?_modifyAt_of_at? hread (.object (members.filter fun member => member.1 ≠ last))
      rcases hlater with ⟨others, hothers, hthere, -⟩ | ⟨_, _, _, harray, -⟩
      · cases hleft.symm.trans hothers
        rw [show members.filter _ = eraseMember last members from rfl, lookup_eraseMember,
          if_pos rfl] at hthere
        cases hthere
      · cases hleft.symm.trans harray
    · have hleft := at?_modifyAt_of_at? hread (.array (before ++ .null :: after))
      rcases hlater with ⟨_, hobject, -⟩ | ⟨before', item', after', hread', hindex', hitem', -⟩
      · cases hleft.symm.trans hobject
      · have hlength : before.length = before'.length :=
          Option.some.inj (hindex.symm.trans hindex')
        have hitems : before ++ .null :: after = before' ++ item' :: after' :=
          Json.array.inj (Option.some.inj (hleft.symm.trans hread'))
        obtain ⟨-, hrest⟩ := List.append_inj hitems hlength
        exact hitem' (List.cons.inj hrest).1.symm

/-- Setting a member that is not there and deleting it gives the tree back. -/
theorem exists_update?_delete_of_absent {members : List (String × Json)} (hobject : tree.isObject)
    (hread : tree.at? path = some (.object members)) (habsent : members.lookup last = none)
    (value : Json) :
    ∃ grown, tree.update? (path.push last) (some value) .replace = some grown ∧
      grown.update? (path.push last) none .replace = some tree := by
  have hprobe : (Probe.node (.object members)).isEffective (some value) .replace last [] := by
    rw [isEffective_replace_nil rfl, child?, habsent]
    rfl
  have hset : tree.update? (path.push last) (some value) .replace =
      some (tree.modifyAt path.segments fun _ => .object (insertMember last value members)) := by
    rw [update?_push_of_part hobject hread rfl, if_pos hprobe]
    rfl
  have hgrown := isObject_of_update? (by simp [DataPath.push, DataPath.root]) hset
  refine ⟨_, hset, update?_delete_iff.mpr ⟨hgrown, Or.inl ⟨_, at?_modifyAt_of_at? hread _, ?_, ?_⟩⟩⟩
  · rw [lookup_insertMember, if_pos rfl]
    rfl
  · rw [modifyAt_modifyAt, modifyAt_eq_self]
    intro found hfound
    cases hread.symm.trans hfound
    exact congrArg Json.object (eraseMember_insertMember habsent value)

/-- **Deleting and removing take out one thing.** At a segment below a path, removing has an effect if and
only if the tree is an object, the path reads as an array and the segment denotes one of its elements; this
element is gone afterwards, and nothing else is changed. Deleting has an effect if and only if the tree is
an object, and the path reads as an object that has a member of this name, which is gone afterwards, or as
an array whose element there is not `null`, which it is afterwards. Deleting again has no effect. And
setting a member that is not there and then deleting it gives back the tree as it was, with all members in
their order. -/
theorem takes_out_one_thing (tree : Json) (path : DataPath) (last : String) :
    (∀ argument result, tree.update? (path.push last) argument .remove = some result ↔
      tree.isObject ∧ tree.RemovesElement path last result) ∧
    (∀ result, tree.update? (path.push last) none .replace = some result ↔
      tree.isObject ∧ (tree.DeletesMember path last result ∨ tree.ClearsElement path last result)) ∧
    (tree.updated (path.push last) none .replace).update? (path.push last) none .replace = none ∧
    ∀ members value, tree.isObject → tree.at? path = some (.object members) →
      members.lookup last = none →
      ∃ grown, tree.update? (path.push last) (some value) .replace = some grown ∧
        grown.update? (path.push last) none .replace = some tree :=
  ⟨fun _ _ => update?_remove_iff, fun _ => update?_delete_iff, update?_delete_updated tree path last,
    fun _ value hobject hread habsent => exists_update?_delete_of_absent hobject hread habsent value⟩

/-- In an object that is an element of an array, a member is set and deleted again. -/
theorem takes_out_one_thing_in_row :
    let tree := Json.object
      [("rows", .array [.null, .object [("name", .bool true), ("note", .null)]]), ("title", .null)]
    let row : DataPath := ⟨["rows", "1"]⟩
    tree.isObject ∧ tree.at? row = some (.object [("name", .bool true), ("note", .null)]) ∧
    ∃ grown, tree.update? (row.push "age") (some (.bool false)) .replace = some grown ∧
      grown.update? (row.push "age") none .replace = some tree := by
  intro tree row
  have hread : tree.at? row = some (.object [("name", .bool true), ("note", .null)]) := rfl
  obtain ⟨-, -, -, hset⟩ := takes_out_one_thing tree row "age"
  exact ⟨rfl, hread, hset _ (.bool false) rfl hread (by decide)⟩

end Ways

end DataBinding.Json
