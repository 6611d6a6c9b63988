import DataBinding.Proofs.Update.Congruence
import DataBinding.Proofs.Update.Lens
import DataBinding.Proofs.Update.Subtree

/-!
# Setting and deleting as an edit of children

The probe and the write go down a path apart from each other. For the mode `replace` the two together
are one recursion: at every container of the way one child is edited, by a function from what is there
to what is to be there. Deleting differs from setting in that it does not make a container on the way.

* `Json.editChild`: a container after one child was edited. An element that is taken away leaves
  `null` (`getElem?_editElement`).
* `Json.replaceAt`: setting or deleting at a path, as an edit of what is at its start.
* `some_updated_beq`: it gives the tree that an update leaves, whether it had an effect or not.
* `at?_updated_none`: a place reads as nothing once it was deleted, or as `null`.
-/

namespace DataBinding.Json

/-! ## One child -/

/-- A container after `edit` was applied to the child at a segment. -/
def editChild (container : Json) (segment : String) (edit : Option Json → Option Json) : Json :=
  match edit (container.child? segment) with
  | some child => container.setChild segment child
  | none =>
    if (container.child? segment).isSome then container.deleteChild segment else container

section Edit

variable {container : Json} {segment : String} {edit : Option Json → Option Json}

theorem editChild_of_some {child : Json} (h : edit (container.child? segment) = some child) :
    container.editChild segment edit = container.setChild segment child := by
  rw [editChild, h]

/-- A child that is missing and stays so leaves the container alone. -/
theorem editChild_of_none (hchild : container.child? segment = none) (h : edit none = none) :
    container.editChild segment edit = container := by
  rw [editChild, hchild, h]
  rfl

theorem deleteChild_of_not_accepts (h : container.accepts segment = false) :
    container.deleteChild segment = container := by
  cases container with
  | object members => cases h
  | _ => exact setChild_of_not_accepts h .null

theorem editChild_of_not_accepts (h : container.accepts segment = false)
    (edit : Option Json → Option Json) : container.editChild segment edit = container := by
  unfold editChild
  split
  · exact setChild_of_not_accepts h _
  · rw [deleteChild_of_not_accepts h, ite_self]

theorem isComposite_deleteChild (container : Json) (segment : String) :
    (container.deleteChild segment).isComposite = container.isComposite :=
  isComposite_updateChild container segment none .replace

theorem isComposite_editChild (container : Json) (segment : String)
    (edit : Option Json → Option Json) :
    (container.editChild segment edit).isComposite = container.isComposite := by
  unfold editChild
  split
  · exact isComposite_setChild container segment _
  · split
    · exact isComposite_deleteChild container segment
    · rfl

/-- An object after an edit: the name reads as the edit says, and all others as before. -/
theorem editChild_object (members : List (String × Json)) (segment : String)
    (edit : Option Json → Option Json) :
    ∃ changed, (Json.object members).editChild segment edit = .object changed ∧
      ∀ name, changed.lookup name =
        if name = segment then edit (members.lookup segment) else members.lookup name := by
  unfold editChild
  rw [child?]
  cases hedit : edit (members.lookup segment) with
  | some child => exact ⟨_, rfl, lookup_insertMember segment child members⟩
  | none =>
    cases hlookup : members.lookup segment with
    | some value => exact ⟨_, rfl, lookup_eraseMember segment members⟩
    | none =>
      refine ⟨members, rfl, fun name => ?_⟩
      split
      · rename_i hname
        rw [hname, hlookup]
      · rfl

/-- What is read at the places of an array after the element at `index` was edited. -/
def editElement (read : Nat → Option Json) (index : Nat) (edit : Option Json → Option Json)
    (place : Nat) : Option Json :=
  if place = index then (edit (read index)).or ((read index).map fun _ => .null)
  else if place < index ∧ (edit (read index)).isSome then some ((read place).getD .null)
  else read place

theorem getElem?_setElement_eq (items : List Json) (index : Nat) (value : Json) (place : Nat) :
    (setElement items index value)[place]? =
      if place = index then some value
      else if place < index then some (items[place]?.getD .null)
      else items[place]? := by
  rw [getElem?_setElement]
  split
  · rfl
  · by_cases hinside : place < items.length
    · rw [if_neg (by omega), List.getElem?_eq_getElem hinside, Option.getD_some, ite_self]
    · rw [List.getElem?_eq_none (by omega), Option.getD_none]
      simp only [show items.length ≤ place by omega, true_and]

/-- An array after an edit. An element that is taken away leaves `null`, and one that comes beyond the
end brings `null` into the gap before it. -/
theorem editChild_array (items : List Json) {index : Nat}
    (hindex : Text.arrayIndex? segment = some index) (edit : Option Json → Option Json) :
    ∃ changed, (Json.array items).editChild segment edit = .array changed ∧
      ∀ place : Nat, changed[place]? = editElement (items[·]?) index edit place := by
  have hchild : (Json.array items).child? segment = items[index]? := by
    rw [child?, hindex, Option.bind_some]
  unfold editChild editElement
  rw [hchild]
  cases hedit : edit items[index]? with
  | some child =>
    refine ⟨_, setChild_array hindex child, fun place => ?_⟩
    rw [getElem?_setElement_eq]
    simp
  | none =>
    cases hitem : items[index]? with
    | some item =>
      refine ⟨_, setChild_array hindex .null, fun place => ?_⟩
      have hlength : index < items.length := (List.getElem?_eq_some_iff.mp hitem).1
      have hgap : ¬ (items.length ≤ place ∧ place < index) := by omega
      rw [getElem?_setElement, if_neg hgap]
      simp [hitem]
    | none =>
      refine ⟨items, rfl, fun place => ?_⟩
      by_cases hplace : place = index
      · subst place
        simp [hitem]
      · simp [hplace]

end Edit

/-! ## Along a path -/

/-- Setting or deleting at a path, as an edit of what is at its start. Setting makes containers of what
is none on the way, deleting leaves it alone. -/
def replaceAt (value : Option Json) : List String → Option Json → Option Json
  | [], _ => value
  | segment :: segments, found =>
    if value.isNone && !found.any isComposite then found
    else some ((asContainer found).editChild segment (replaceAt value segments))

section ReplaceAt

variable {value : Option Json} {container : Json} {segment : String} {segments : List String}

theorem replaceAt_container (hcontainer : container.isComposite) (value : Option Json)
    (segment : String) (segments : List String) :
    replaceAt value (segment :: segments) (some container) =
      some (container.editChild segment (replaceAt value segments)) := by
  simp [replaceAt, hcontainer, asContainer_some hcontainer]

theorem replaceAt_some (value : Json) (segment : String) (segments : List String)
    (found : Option Json) :
    replaceAt (some value) (segment :: segments) found =
      some ((asContainer found).editChild segment (replaceAt (some value) segments)) := rfl

/-- Deleting does not make a container. -/
theorem replaceAt_none {found : Option Json} (h : found.any isComposite = false)
    (segment : String) (segments : List String) :
    replaceAt none (segment :: segments) found = found := by
  simp [replaceAt, h]

theorem any_isComposite_eq_false {found : Option Json}
    (h : ∀ child, found = some child → child.isComposite = false) :
    found.any isComposite = false := by
  cases found with
  | none => rfl
  | some child => exact h child rfl

/-- Nothing is deleted where nothing is. -/
theorem replaceAt_none_none (segments : List String) : replaceAt none segments none = none := by
  cases segments <;> rfl

theorem replaceAt_none_empty (segment : String) (segments : List String) :
    replaceAt none (segment :: segments) (some (.object [])) = some (.object []) := by
  rw [replaceAt_container rfl, editChild_of_none rfl (replaceAt_none_none segments)]

/-- What there is on the way stays something. -/
theorem isSome_replaceAt_cons (value : Option Json) (segment : String) (segments : List String)
    (child : Json) : (replaceAt value (segment :: segments) (some child)).isSome := by
  rw [replaceAt]
  split <;> rfl

/-! ## The edit is the update -/

theorem editChild_const_beq (haccepts : container.accepts segment) (value : Option Json) :
    container.editChild segment (fun _ => value) ==
      if (Probe.node container).isEffective value .replace segment [] then
        container.updateChild segment value .replace
      else container := by
  cases value with
  | some value =>
    rw [editChild_of_some rfl]
    split
    · exact BEq.rfl
    · rename_i hidle
      rw [isEffective_replace_nil haccepts, Bool.not_eq_true, Bool.not_eq_false'] at hidle
      exact setChild_beq hidle
  | none =>
    rw [editChild, updateChild]
    cases container with
    | object members => exact BEq.rfl
    | array items =>
      obtain ⟨index, hindex⟩ := Option.isSome_iff_exists.mp haccepts
      have hchild : (Json.array items).child? segment = items[index]? := by
        rw [child?, hindex, Option.bind_some]
      rw [hchild, Probe.isEffective, hindex]
      cases hitem : items[index]? with
      | none =>
        simp [isElementEffective, hitem]
      | some item =>
        cases hnull : item.isNull with
        | false => simp [isElementEffective, hitem, hnull]
        | true =>
          -- Putting `null` in the place of `null` goes unnoticed.
          cases item <;> cases hnull
          simp only [isElementEffective, hitem, Option.isSome_some, if_true, Option.any_some, isNull,
            Bool.not_true, Bool.false_eq_true, if_false]
          have hsame : (Json.array items).child? segment == some .null := by
            rw [hchild, hitem]
            exact BEq.rfl
          exact setChild_beq hsame
    | _ => cases haccepts

/-- In a new object every value that is set has an effect. -/
theorem isEffective_empty (value : Json) (segment : String) (segments : List String) :
    (Probe.node (.object [])).isEffective (some value) .replace segment segments := by
  rw [isEffective_replace rfl]
  refine ⟨fun hblocked => ?_, by cases segments <;> exact Bool.false_ne_true⟩
  rcases (isBlocked_cons rfl).mp hblocked with hrefused | ⟨child, hchild, -⟩
  · cases hrefused
  · cases hchild

/-- Deleting goes only where there is a container. -/
theorem editChild_none_beq (h : (container.child? segment).any isComposite = false) (next : String)
    (segments : List String) :
    container.editChild segment (replaceAt none (next :: segments)) == container := by
  have hedit := replaceAt_none h next segments
  cases hchild : container.child? segment with
  | none =>
    rw [editChild_of_none hchild (replaceAt_none_none _)]
    exact BEq.rfl
  | some child =>
    rw [editChild_of_some (hedit.trans hchild)]
    refine setChild_beq ?_
    rw [hchild]
    exact BEq.rfl

/-- One edit along the path leaves what the probe and the write leave. -/
theorem editChild_beq (hcontainer : container.isComposite) (value : Option Json)
    (segment : String) (segments : List String) :
    container.editChild segment (replaceAt value segments) ==
      if (Probe.node container).isEffective value .replace segment segments then
        writeBelow value .replace container segment segments
      else container := by
  induction segments generalizing container segment with
  | nil =>
    cases haccepts : container.accepts segment with
    | false =>
      rw [isEffective_of_not_accepts hcontainer haccepts, editChild_of_not_accepts haccepts]
      exact BEq.rfl
    | true => exact editChild_const_beq haccepts value
  | cons next segments ih =>
    cases haccepts : container.accepts segment with
    | false =>
      rw [isEffective_of_not_accepts hcontainer haccepts, editChild_of_not_accepts haccepts]
      exact BEq.rfl
    | true =>
      rw [isEffective_cons hcontainer haccepts, writeBelow]
      rcases ofChild_cases (container.child? segment) with
        ⟨child, hchild, hcomposite, hprobe, hdown⟩ | ⟨hprobe, hdown, hscalar⟩
      · have hedit : replaceAt value (next :: segments) (container.child? segment) =
            some (child.editChild next (replaceAt value segments)) := by
          rw [hchild, replaceAt_container hcomposite]
        rw [hprobe, hdown, editChild_of_some hedit]
        refine BEq.trans (setChild_congr BEq.rfl (ih hcomposite next) segment) ?_
        split
        · exact BEq.rfl
        · refine setChild_beq ?_
          rw [hchild]
          exact BEq.rfl
      · rw [hprobe, isEffective_fresh, hdown]
        cases value with
        | none => exact editChild_none_beq (any_isComposite_eq_false hscalar) next segments
        | some value =>
          have hwritten := ih (rfl : (Json.object []).isComposite = true) next
          rw [if_pos (isEffective_empty value next segments)] at hwritten
          rw [editChild_of_some (replaceAt_some value next segments _), hdown]
          exact setChild_congr BEq.rfl hwritten segment

end ReplaceAt

/-- Setting or deleting below the root of an object leaves what the edit of the object gives. -/
theorem some_updated_beq {tree : Json} (htree : tree.isObject) {path : DataPath}
    (hpath : path ≠ .root) (value : Option Json) :
    some (tree.updated path value .replace) == replaceAt value path.segments (some tree) := by
  obtain ⟨segments⟩ := path
  cases segments with
  | nil => exact absurd rfl hpath
  | cons segment segments =>
    cases tree with
    | object members =>
      rw [replaceAt_container rfl]
      change (Json.object members).updated ⟨segment :: segments⟩ value .replace ==
        (Json.object members).editChild segment (replaceAt value segments)
      have hedit := editChild_beq (rfl : (Json.object members).isComposite = true) value segment
        segments
      refine BEq.symm (BEq.trans hedit ?_)
      rw [updated, update?, isEffective_object]
      split <;> exact BEq.rfl
    | _ => cases htree

/-! ## Deleting -/

/-- The child that was edited reads as the edit says, or nothing is left there but `null`. -/
theorem child?_editChild (container : Json) (segment : String)
    (edit : Option Json → Option Json) :
    (container.editChild segment edit).child? segment = edit (container.child? segment) ∨
      (container.editChild segment edit).child? segment = none ∨
      (container.editChild segment edit).child? segment = some .null := by
  cases haccepts : container.accepts segment with
  | false =>
    rw [editChild_of_not_accepts haccepts]
    exact Or.inr (Or.inl (child?_of_not_accepts haccepts))
  | true =>
    cases container with
    | object members =>
      obtain ⟨changed, hchanged, hlookup⟩ := editChild_object members segment edit
      rw [hchanged]
      exact Or.inl ((hlookup segment).trans (if_pos rfl))
    | array items =>
      obtain ⟨index, hindex⟩ := Option.isSome_iff_exists.mp haccepts
      obtain ⟨changed, hchanged, hplace⟩ := editChild_array items hindex edit
      have hread := hplace index
      rw [editElement, if_pos rfl] at hread
      rw [hchanged, child?, child?, hindex, Option.bind_some, Option.bind_some, hread]
      cases edit items[index]? with
      | some child => exact Or.inl rfl
      | none => cases items[index]? <;> simp
    | _ => cases haccepts

/-- What was deleted is gone, or `null` if it is an element. -/
theorem get?_editChild_none (container : Json) (segment : String) (segments : List String) :
    (container.editChild segment (replaceAt none segments)).get? (segment :: segments) = none ∨
      (container.editChild segment (replaceAt none segments)).get? (segment :: segments) =
        some .null := by
  induction segments generalizing container segment with
  | nil =>
    rw [get?_singleton]
    rcases child?_editChild container segment (replaceAt none []) with hread | hread
    · exact Or.inl hread
    · exact hread
  | cons next segments ih =>
    rw [get?]
    rcases child?_editChild container segment (replaceAt none (next :: segments)) with
      hread | hread | hread
    · rw [hread]
      cases hchild : container.child? segment with
      | none => exact Or.inl rfl
      | some child =>
        cases hcomposite : child.isComposite with
        | true =>
          rw [replaceAt_container hcomposite]
          exact ih child next
        | false =>
          rw [replaceAt_none (by simpa using hcomposite), Option.bind_some, get?,
            child?_of_not_isComposite hcomposite]
          exact Or.inl rfl
    · rw [hread]
      exact Or.inl rfl
    · rw [hread]
      exact Or.inl rfl

/-- A place below the root of an object that is deleted holds nothing afterwards, or `null`. -/
theorem at?_updated_none {tree : Json} (htree : tree.isObject) {path : DataPath}
    (hpath : path ≠ .root) :
    (tree.updated path none .replace).at? path = none ∨
      (tree.updated path none .replace).at? path = some .null := by
  obtain ⟨segments⟩ := path
  cases segments with
  | nil => exact absurd rfl hpath
  | cons segment segments =>
    obtain ⟨members, rfl⟩ := exists_of_isObject htree
    have hedit := some_updated_beq htree hpath none
    rw [replaceAt_container rfl] at hedit
    have hread := BEq.symm (get?_beq hedit (segment :: segments))
    rcases get?_editChild_none (.object members) segment segments with hgone | hnull
    · rw [hgone] at hread
      exact Or.inl (none_beq_iff.mp hread)
    · rw [hnull] at hread
      obtain ⟨found, hfound, hsame⟩ := some_beq_iff.mp hread
      rw [null_beq_iff.mp hsame] at hfound
      exact Or.inr hfound

/-! ## Equal starts -/

/-- Equal edits of equal children give equal containers. -/
theorem editChild_congr {container other : Json} (h : container == other) (segment : String)
    {edit edit' : Option Json → Option Json}
    (hedit : edit (container.child? segment) == edit' (other.child? segment)) :
    container.editChild segment edit == other.editChild segment edit' := by
  have hsome := isSome_eq_of_beq (child?_beq h segment)
  unfold editChild
  cases hchild : edit (container.child? segment) with
  | none =>
    rw [hchild] at hedit
    rw [none_beq_iff.mp hedit, hsome]
    dsimp only
    split
    · exact deleteChild_congr h segment
    · exact h
  | some child =>
    rw [hchild] at hedit
    obtain ⟨partner, hpartner, heq⟩ := some_beq_iff.mp hedit
    rw [hpartner]
    exact setChild_congr h heq segment

theorem any_isComposite_congr {found found' : Option Json} (h : found == found') :
    found.any isComposite = found'.any isComposite := by
  cases found with
  | none =>
    cases none_beq_iff.mp h
    rfl
  | some value =>
    obtain ⟨partner, rfl, heq⟩ := some_beq_iff.mp h
    exact isComposite_eq_of_beq heq

theorem replaceAt_congr {found found' : Option Json} (h : found == found') (value : Option Json)
    (segments : List String) : replaceAt value segments found == replaceAt value segments found' := by
  induction segments generalizing found found' with
  | nil => exact BEq.rfl
  | cons segment segments ih =>
    rw [replaceAt, replaceAt, any_isComposite_congr h]
    split
    · exact h
    · have hdown := asContainer_congr h
      exact editChild_congr hdown segment (ih (child?_beq hdown segment))

end DataBinding.Json
