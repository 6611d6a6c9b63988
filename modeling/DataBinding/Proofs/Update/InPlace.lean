import DataBinding.Proofs.Update.Aside

/-!
# Changes in place

An update below an array or object that is there changes this array or object and nothing else: the way
to it is put together again as it was, with the same members in the same order. This can be said without
the rules of a descent, by a function that changes the value at a path and leaves all others alone.

* `Json.modifyAt`: the tree with the value at a path changed.
* `modifyAt_modifyAt`, `modifyAt_eq_self`: changes at one path are composed, and what leaves the value
  there as it is leaves the tree as it is. By these two an update is undone by another one.
* `get?_modifyAt`, `get?_modifyAt_aside`: what is read at the path, and aside of it.
* `update?_of_part`: an update below an array or object that is there.
-/

namespace DataBinding.Json

/-! ## One child -/

/-- Changes the first member of a name, in its place. -/
def modifyMember (name : String) (change : Json → Json) :
    List (String × Json) → List (String × Json)
  | [] => []
  | (other, value) :: members =>
    if other = name then (other, change value) :: members
    else (other, value) :: modifyMember name change members

/-- Changes the child that a segment addresses, if there is one. -/
def modifyChild (container : Json) (segment : String) (change : Json → Json) : Json :=
  match container with
  | .object members => .object (modifyMember segment change members)
  | other => other.editItems segment fun items index => items.modify index change

section Member

variable (name : String) (members : List (String × Json)) (change : Json → Json)

theorem lookup_modifyMember (key : String) :
    (modifyMember name change members).lookup key =
      if key = name then (members.lookup name).map change else members.lookup key := by
  induction members with
  | nil => simp [modifyMember]
  | cons member members ih =>
    obtain ⟨other, value⟩ := member
    rw [modifyMember]
    by_cases hname : other = name
    · subst other
      rw [if_pos rfl, lookup_cons_eq_ite, lookup_cons_eq_ite, lookup_cons_eq_ite, if_pos rfl]
      split <;> rfl
    · rw [if_neg hname, lookup_cons_eq_ite, lookup_cons_eq_ite, lookup_cons_eq_ite, ih,
        if_neg (Ne.symm hname)]
      by_cases hkey : key = other
      · subst key
        rw [if_pos rfl, if_pos rfl, if_neg hname]
      · rw [if_neg hkey, if_neg hkey]

theorem modifyMember_modifyMember (later : Json → Json) :
    modifyMember name later (modifyMember name change members) =
      modifyMember name (later ∘ change) members := by
  induction members with
  | nil => rfl
  | cons member members ih =>
    obtain ⟨other, value⟩ := member
    by_cases hname : other = name
    · simp [modifyMember, hname]
    · simp [modifyMember, hname, ih]

variable {name members change}

theorem modifyMember_congr {change' : Json → Json}
    (h : ∀ value, members.lookup name = some value → change value = change' value) :
    modifyMember name change members = modifyMember name change' members := by
  induction members with
  | nil => rfl
  | cons member members ih =>
    obtain ⟨other, value⟩ := member
    simp only [lookup_cons_eq_ite] at h
    by_cases hname : other = name
    · rw [modifyMember, modifyMember, if_pos hname, if_pos hname]
      rw [if_pos (Eq.symm hname)] at h
      rw [h value rfl]
    · rw [modifyMember, modifyMember, if_neg hname, if_neg hname]
      rw [if_neg (Ne.symm hname)] at h
      rw [ih h]

theorem modifyMember_id (name : String) (members : List (String × Json)) :
    modifyMember name id members = members := by
  induction members with
  | nil => rfl
  | cons member members ih =>
    obtain ⟨other, value⟩ := member
    rw [modifyMember, ih]
    split <;> rfl

/-- Setting a member that is there is a change in its place. -/
theorem insertMember_eq_modifyMember {old : Json} (h : members.lookup name = some old)
    (value : Json) :
    insertMember name value members = modifyMember name (fun _ => value) members := by
  induction members with
  | nil => cases h
  | cons member members ih =>
    obtain ⟨other, current⟩ := member
    rw [lookup_cons_eq_ite] at h
    rw [insertMember, modifyMember]
    by_cases hname : other = name
    · rw [if_pos hname, if_pos hname, hname]
    · rw [if_neg (Ne.symm hname)] at h
      rw [if_neg hname, if_neg hname, ih h]

/-- Setting a member to what it is changes nothing. -/
theorem insertMember_of_lookup {value : Json} (h : members.lookup name = some value) :
    insertMember name value members = members := by
  rw [insertMember_eq_modifyMember h]
  refine (modifyMember_congr fun found hfound => ?_).trans (modifyMember_id name members)
  exact Option.some.inj (h.symm.trans hfound)

end Member

section Child

variable {container : Json} {segment other : String} {change later : Json → Json}

theorem modifyChild_object (members : List (String × Json)) (segment : String)
    (change : Json → Json) :
    (Json.object members).modifyChild segment change =
      .object (modifyMember segment change members) := rfl

theorem modifyChild_array {items : List Json} {index : Nat}
    (h : Text.arrayIndex? segment = some index) (change : Json → Json) :
    (Json.array items).modifyChild segment change = .array (items.modify index change) := by
  simp only [modifyChild, editItems, h]

/-- Where a segment addresses no child, nothing is changed. -/
theorem modifyChild_of_not_accepts (h : container.accepts segment = false)
    (change : Json → Json) : container.modifyChild segment change = container := by
  cases container with
  | object members => cases h
  | array items =>
    have hindex : Text.arrayIndex? segment = none := by simpa [accepts] using h
    simp only [modifyChild, editItems, hindex]
  | _ => rfl

theorem child?_modifyChild (container : Json) (segment : String) (change : Json → Json) :
    (container.modifyChild segment change).child? segment =
      (container.child? segment).map change := by
  cases haccepts : container.accepts segment with
  | false =>
    rw [modifyChild_of_not_accepts haccepts, child?_of_not_accepts haccepts]
    rfl
  | true =>
    cases container with
    | object members =>
      rw [modifyChild_object, child?, lookup_modifyMember, if_pos rfl]
      rfl
    | array items =>
      obtain ⟨index, hindex⟩ := Option.isSome_iff_exists.mp haccepts
      rw [modifyChild_array hindex, child?, child?, hindex, Option.bind_some, Option.bind_some,
        List.getElem?_modify_eq]
      rfl
    | _ => cases haccepts

/-- Every other child is as before. -/
theorem child?_modifyChild_aside (hne : other ≠ segment)
    (hshare : ¬ container.SharesElement segment other) (change : Json → Json) :
    (container.modifyChild segment change).child? other = container.child? other := by
  cases haccepts : container.accepts segment with
  | false => rw [modifyChild_of_not_accepts haccepts]
  | true =>
    cases container with
    | object members => rw [modifyChild_object, child?, lookup_modifyMember, if_neg hne, child?]
    | array items =>
      obtain ⟨index, hindex⟩ := Option.isSome_iff_exists.mp haccepts
      rw [modifyChild_array hindex, child?, child?]
      cases hplace : Text.arrayIndex? other with
      | none => rfl
      | some place =>
        have hplaces : index ≠ place := by
          rintro rfl
          exact hshare ⟨items, index, rfl, hindex, hplace⟩
        rw [Option.bind_some, Option.bind_some, List.getElem?_modify_ne change items hplaces]
    | _ => cases haccepts

theorem modifyChild_modifyChild (container : Json) (segment : String)
    (change later : Json → Json) :
    (container.modifyChild segment change).modifyChild segment later =
      container.modifyChild segment (later ∘ change) := by
  cases haccepts : container.accepts segment with
  | false =>
    rw [modifyChild_of_not_accepts haccepts, modifyChild_of_not_accepts haccepts,
      modifyChild_of_not_accepts haccepts]
  | true =>
    cases container with
    | object members =>
      rw [modifyChild_object, modifyChild_object, modifyMember_modifyMember, modifyChild_object]
    | array items =>
      obtain ⟨index, hindex⟩ := Option.isSome_iff_exists.mp haccepts
      rw [modifyChild_array hindex, modifyChild_array hindex, modifyChild_array hindex,
        List.modify_modify_eq]
    | _ => cases haccepts

theorem modifyChild_congr
    (h : ∀ child, container.child? segment = some child → change child = later child) :
    container.modifyChild segment change = container.modifyChild segment later := by
  cases haccepts : container.accepts segment with
  | false => rw [modifyChild_of_not_accepts haccepts, modifyChild_of_not_accepts haccepts]
  | true =>
    cases container with
    | object members => exact congrArg Json.object (modifyMember_congr h)
    | array items =>
      obtain ⟨index, hindex⟩ := Option.isSome_iff_exists.mp haccepts
      rw [child?, hindex, Option.bind_some] at h
      rw [modifyChild_array hindex, modifyChild_array hindex]
      refine congrArg Json.array (List.ext_getElem? fun place => ?_)
      rw [List.getElem?_modify, List.getElem?_modify]
      by_cases hplace : index = place
      · subst place
        cases hitem : items[index]? with
        | none => rfl
        | some item => simp [h item hitem]
      · simp [hplace]
    | _ => cases haccepts

theorem modifyChild_id (container : Json) (segment : String) :
    container.modifyChild segment id = container := by
  cases container with
  | object members => exact congrArg Json.object (modifyMember_id segment members)
  | array items =>
    cases hindex : Text.arrayIndex? segment with
    | none => exact modifyChild_of_not_accepts (by simp [accepts, hindex]) id
    | some index => rw [modifyChild_array hindex, List.modify_id]
  | _ => rfl

/-- Setting a child that is there is a change in its place. -/
theorem setChild_eq_modifyChild {child : Json} (h : container.child? segment = some child)
    (value : Json) :
    container.setChild segment value = container.modifyChild segment fun _ => value := by
  cases container with
  | object members => exact congrArg Json.object (insertMember_eq_modifyMember h value)
  | array items =>
    obtain ⟨index, hindex, hitem⟩ := Option.bind_eq_some_iff.mp h
    have hlt : index < items.length := (List.getElem?_eq_some_iff.mp hitem).1
    rw [setChild_array hindex, modifyChild_array hindex, setElement, if_pos hlt,
      List.modify_eq_set]
  | _ => cases h

end Child

/-! ## Along a path -/

/-- The tree with the value at a path changed, if there is one. -/
def modifyAt (tree : Json) (path : List String) (change : Json → Json) : Json :=
  match path with
  | [] => change tree
  | segment :: segments => tree.modifyChild segment (modifyAt · segments change)

section Path

variable (tree : Json) (path : List String) (change : Json → Json)

theorem get?_modifyAt : (tree.modifyAt path change).get? path = (tree.get? path).map change := by
  induction path generalizing tree with
  | nil => rfl
  | cons segment segments ih =>
    rw [modifyAt, get?, get?, child?_modifyChild]
    cases tree.child? segment with
    | none => rfl
    | some child => exact ih child

theorem modifyAt_modifyAt (later : Json → Json) :
    (tree.modifyAt path change).modifyAt path later = tree.modifyAt path (later ∘ change) := by
  induction path generalizing tree with
  | nil => rfl
  | cons segment segments ih =>
    rw [modifyAt, modifyAt, modifyAt, modifyChild_modifyChild]
    exact congrArg _ (funext ih)

theorem modifyAt_id : tree.modifyAt path id = tree := by
  induction path generalizing tree with
  | nil => rfl
  | cons segment segments ih =>
    rw [modifyAt, funext ih]
    exact modifyChild_id tree segment

theorem modifyAt_append (front back : List String) :
    tree.modifyAt (front ++ back) change = tree.modifyAt front (modifyAt · back change) := by
  induction front generalizing tree with
  | nil => rfl
  | cons segment segments ih => exact congrArg _ (funext ih)

variable {tree path change}

theorem modifyAt_congr {change' : Json → Json}
    (h : ∀ value, tree.get? path = some value → change value = change' value) :
    tree.modifyAt path change = tree.modifyAt path change' := by
  induction path generalizing tree with
  | nil => exact h tree rfl
  | cons segment segments ih =>
    refine modifyChild_congr fun child hchild => ih fun value hvalue => h value ?_
    rw [get?, hchild]
    exact hvalue

/-- A change that leaves the value at the path as it is leaves the tree as it is. -/
theorem modifyAt_eq_self (h : ∀ value, tree.get? path = some value → change value = value) :
    tree.modifyAt path change = tree :=
  (modifyAt_congr h).trans (modifyAt_id tree path)

/-- What is put in the place of a value is read there. -/
theorem at?_modifyAt_of_at? {path : DataPath} {found : Json} (h : tree.at? path = some found)
    (changed : Json) : (tree.modifyAt path.segments fun _ => changed).at? path = some changed := by
  change (tree.modifyAt path.segments fun _ => changed).get? path.segments = some changed
  rw [get?_modifyAt]
  exact congrArg (Option.map fun _ => changed) h

/-- Where another path parts from the path of a change, it reads as before. -/
theorem get?_modifyAt_aside {front back back' : List String} {segment segment' : String}
    (hne : segment' ≠ segment)
    (hshare : ∀ node, tree.get? front = some node → ¬ node.SharesElement segment segment') :
    (tree.modifyAt (front ++ segment :: back) change).get? (front ++ segment' :: back') =
      tree.get? (front ++ segment' :: back') := by
  rw [modifyAt_append, get?_append, get?_modifyAt, get?_append]
  cases hnode : tree.get? front with
  | none => rfl
  | some node =>
    rw [Option.map_some, Option.bind_some, Option.bind_some, modifyAt, get?, get?,
      child?_modifyChild_aside hne (hshare node hnode)]

/-- Reading aside of the path of a change. -/
theorem at?_modifyAt_aside {other : DataPath} (haside : DataPath.IsAside ⟨path⟩ other)
    (haliased : ¬ tree.Aliased path other.segments) :
    (tree.modifyAt path change).at? other = tree.at? other := by
  obtain ⟨others⟩ := other
  simp only [DataPath.IsAside, DataPath.covers, List.isPrefixOf_iff_prefix] at haside
  obtain ⟨front, segment, segment', back, back', rfl, rfl, hne⟩ :=
    exists_parting haside.1 haside.2
  exact get?_modifyAt_aside hne fun node hnode hshares =>
    haliased ⟨front, segment, segment', back, back', node, rfl, rfl, hne, hnode, hshares⟩

/-- A change below its root keeps an object an object. -/
theorem isObject_modifyAt (hobject : tree.isObject) (hpath : path ≠ []) :
    (tree.modifyAt path change).isObject := by
  obtain ⟨members, rfl⟩ := exists_of_isObject hobject
  obtain ⟨segment, segments, rfl⟩ := List.exists_cons_of_ne_nil hpath
  rfl

end Path

/-! ## Updates -/

section Update

variable {container inner : Json} {first segment : String} {rest front back : List String}

/-- An update below an array or object that is there is a change of it. -/
theorem writeBelow_eq_modifyAt (hread : container.get? front = some inner)
    (hinner : inner.isComposite) (hpath : first :: rest = front ++ segment :: back)
    (value : Option Json) (mode : UpdateMode) :
    writeBelow value mode container first rest =
      container.modifyAt front fun found => writeBelow value mode found segment back := by
  induction front generalizing container first rest with
  | nil =>
    cases hpath
    rfl
  | cons step front ih =>
    obtain ⟨rfl, hrest⟩ := List.cons.inj hpath
    obtain ⟨next, segments, rfl⟩ := List.exists_cons_of_ne_nil (l := rest) (by simp [hrest])
    obtain ⟨child, hchild, hbelow⟩ := Option.bind_eq_some_iff.mp hread
    have hcomposite := isComposite_of_get? hbelow hinner
    rw [writeBelow, hchild, asContainer_some hcomposite, setChild_eq_modifyChild hchild, modifyAt]
    refine modifyChild_congr fun found hfound => ?_
    rw [hchild] at hfound
    cases hfound
    exact ih hbelow hrest

/-- An update below an array or object that is there has an effect if it has one on that part alone, and
then the part is changed in its place. -/
theorem update?_of_part {tree : Json} (hobject : tree.isObject) (hread : tree.get? front = some inner)
    (hinner : inner.isComposite) {path : DataPath} (hpath : path.segments = front ++ segment :: back)
    (value : Option Json) (mode : UpdateMode) :
    tree.update? path value mode =
      if (Probe.node inner).isEffective value mode segment back then
        some (tree.modifyAt front fun _ => writeBelow value mode inner segment back)
      else none := by
  obtain ⟨members, rfl⟩ := exists_of_isObject hobject
  obtain ⟨segments⟩ := path
  obtain ⟨first, rest, rfl⟩ := List.exists_cons_of_ne_nil (l := segments) (by
    rintro rfl
    simp at hpath)
  have hwrite : (Json.object members).write ⟨first :: rest⟩ value mode =
      (Json.object members).modifyAt front fun _ => writeBelow value mode inner segment back := by
    rw [write_cons, asRoot, writeBelow_eq_modifyAt hread hinner hpath]
    refine modifyAt_congr fun found hfound => ?_
    rw [hread] at hfound
    cases hfound
    rfl
  rw [update?, isEffective_object, isEffective_append hread hinner hpath, hwrite]

/-- A write that puts a child made of the one in its place, at a path that is there. -/
theorem writeBelow_eq_modifyAt_self {value : Option Json} {mode : UpdateMode}
    {make : Option Json → Json} (hputs : PutsChild value mode make)
    {segments : List String} {found : Json}
    (hread : container.get? (segment :: segments) = some found) :
    writeBelow value mode container segment segments =
      container.modifyAt (segment :: segments) fun _ => make (some found) := by
  induction segments generalizing container segment with
  | nil =>
    rw [get?_singleton] at hread
    rw [writeBelow, hputs, hread, setChild_eq_modifyChild hread]
    rfl
  | cons next segments ih =>
    obtain ⟨child, hchild, hbelow⟩ := Option.bind_eq_some_iff.mp hread
    have hcomposite : child.isComposite := by
      cases hvalue : child.isComposite with
      | true => rfl
      | false =>
        rw [get?_cons_of_not_isComposite hvalue] at hbelow
        cases hbelow
    rw [writeBelow, hchild, asContainer_some hcomposite, ih hbelow, setChild_eq_modifyChild hchild,
      modifyAt]
    refine modifyChild_congr fun other hother => ?_
    rw [hchild] at hother
    cases hother
    rfl

end Update

end DataBinding.Json
