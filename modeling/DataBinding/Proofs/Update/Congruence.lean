import DataBinding.Proofs.Update.Descent

/-!
# Equal trees are updated equally

Two equal trees may list their members differently, so an update sees different lists in them. It is
still decided alike and leaves equal trees, in every mode: nothing that the probe or the write does
depends on the order of members.

* `child?_beq`, `get?_beq`: equal trees read equally.
* `setChild_congr`, `updateChild_congr`, `writeBelow_congr`: one step and all of the write.
* `isEffective_congr`: the probe.
* `updated_congr`: the tree that an update leaves.
-/

namespace DataBinding.Json

/-! ## Reading -/

/-- Equal values are of one kind. -/
theorem kind_eq_of_beq {value other : Json} (h : value == other) :
    value.isObject = other.isObject ∧ value.isArray = other.isArray ∧
      value.isNull = other.isNull := by
  cases value with
  | null =>
    cases null_beq_iff.mp h
    exact ⟨rfl, rfl, rfl⟩
  | bool value =>
    cases bool_beq_iff.mp h
    exact ⟨rfl, rfl, rfl⟩
  | number value =>
    obtain ⟨number, rfl, -⟩ := number_beq_iff.mp h
    exact ⟨rfl, rfl, rfl⟩
  | string value =>
    cases string_beq_iff.mp h
    exact ⟨rfl, rfl, rfl⟩
  | array items =>
    obtain ⟨others, rfl, -⟩ := array_beq_iff.mp h
    exact ⟨rfl, rfl, rfl⟩
  | object members =>
    obtain ⟨others, rfl, -⟩ := object_beq_iff.mp h
    exact ⟨rfl, rfl, rfl⟩

theorem isComposite_eq (value : Json) : value.isComposite = (value.isObject || value.isArray) := by
  cases value <;> rfl

theorem isComposite_eq_of_beq {value other : Json} (h : value == other) :
    value.isComposite = other.isComposite := by
  obtain ⟨hobject, harray, -⟩ := kind_eq_of_beq h
  rw [isComposite_eq, isComposite_eq, hobject, harray]

theorem length_eq_of_beq {items others : List Json} (h : Json.array items == .array others) :
    items.length = others.length := by
  have hread := array_beq_array.mp h
  have hends := hread others.length
  have hends' := hread items.length
  rw [List.getElem?_eq_none (Nat.le_refl _)] at hends hends'
  have hle : items.length ≤ others.length :=
    List.getElem?_eq_none_iff.mp (none_beq_iff.mp (BEq.symm hends))
  have hge : others.length ≤ items.length := List.getElem?_eq_none_iff.mp (none_beq_iff.mp hends')
  omega

section Reading

variable {container other : Json} (h : container == other)

include h

theorem child?_beq (segment : String) : container.child? segment == other.child? segment := by
  cases container with
  | object members =>
    obtain ⟨others, rfl, hname⟩ := object_beq_iff.mp h
    exact hname segment
  | array items =>
    obtain ⟨others, rfl, hplace⟩ := array_beq_iff.mp h
    cases hindex : Text.arrayIndex? segment with
    | none =>
      simp only [child?, hindex]
      exact BEq.rfl
    | some index =>
      simp only [child?, hindex]
      exact hplace index
  | _ =>
    have hother : other.isComposite = false := (isComposite_eq_of_beq h).symm
    rw [child?_of_not_isComposite hother]
    exact BEq.rfl

theorem accepts_eq_of_beq (segment : String) :
    container.accepts segment = other.accepts segment := by
  cases container with
  | object members =>
    obtain ⟨others, rfl, -⟩ := object_beq_iff.mp h
    rfl
  | array items =>
    obtain ⟨others, rfl, -⟩ := array_beq_iff.mp h
    rfl
  | _ =>
    have hother : other.isComposite = false := (isComposite_eq_of_beq h).symm
    cases other <;> first | rfl | cases hother

end Reading

/-- Equal trees read equally at every path. -/
theorem get?_beq {tree other : Json} (h : tree == other) (segments : List String) :
    tree.get? segments == other.get? segments := by
  induction segments generalizing tree other with
  | nil => exact h
  | cons segment segments ih =>
    rw [get?, get?]
    have hchild := child?_beq h segment
    cases hfound : tree.child? segment with
    | none =>
      rw [hfound] at hchild
      rw [none_beq_iff.mp hchild]
      exact BEq.rfl
    | some child =>
      rw [hfound] at hchild
      obtain ⟨partner, hpartner, heq⟩ := some_beq_iff.mp hchild
      rw [hpartner]
      exact ih heq

/-! ## Writing -/

theorem asContainer_congr {found found' : Option Json} (h : found == found') :
    asContainer found == asContainer found' := by
  cases found with
  | none =>
    cases none_beq_iff.mp h
    exact BEq.rfl
  | some value =>
    obtain ⟨partner, rfl, heq⟩ := some_beq_iff.mp h
    cases hvalue : value.isComposite with
    | true =>
      have hpartner : partner.isComposite := isComposite_eq_of_beq heq ▸ hvalue
      rw [asContainer_some hvalue, asContainer_some hpartner]
      exact heq
    | false =>
      have hpartner : partner.isComposite = false := isComposite_eq_of_beq heq ▸ hvalue
      rw [asContainer_of_not_isComposite hvalue, asContainer_of_not_isComposite hpartner]
      exact BEq.rfl

theorem asRoot_congr {tree other : Json} (h : tree == other) : tree.asRoot == other.asRoot := by
  cases tree with
  | object members =>
    obtain ⟨others, rfl, -⟩ := object_beq_iff.mp h
    exact h
  | _ =>
    have hother : other.isObject = false := (kind_eq_of_beq h).1.symm
    cases other <;> first | exact BEq.rfl | cases hother

section Items

variable {items others : List Json} (h : Json.array items == .array others)

include h

theorem setElement_congr {value partner : Json} (hvalue : value == partner) (index : Nat) :
    Json.array (setElement items index value) == .array (setElement others index partner) := by
  refine array_beq_array.mpr fun place => ?_
  rw [getElem?_setElement, getElem?_setElement, length_eq_of_beq h]
  split
  · exact hvalue
  · split
    · exact BEq.rfl
    · exact array_beq_array.mp h place

theorem eraseIdx_congr (index : Nat) :
    Json.array (items.eraseIdx index) == .array (others.eraseIdx index) := by
  refine array_beq_array.mpr fun place => ?_
  rw [List.getElem?_eraseIdx, List.getElem?_eraseIdx]
  split
  · exact array_beq_array.mp h place
  · exact array_beq_array.mp h (place + 1)

theorem insertIdx_congr {value partner : Json} (hvalue : value == partner) (index : Nat) :
    Json.array (items.insertIdx index value) == .array (others.insertIdx index partner) := by
  refine array_beq_array.mpr fun place => ?_
  rw [List.getElem?_insertIdx, List.getElem?_insertIdx, length_eq_of_beq h]
  split
  · exact array_beq_array.mp h place
  · split
    · split
      · exact hvalue
      · exact BEq.rfl
    · exact array_beq_array.mp h (place - 1)

theorem append_congr (value : Json) :
    Json.array (items ++ [value]) == .array (others ++ [value]) := by
  refine array_beq_array.mpr fun place => ?_
  rw [List.getElem?_append, List.getElem?_append, length_eq_of_beq h]
  split
  · exact array_beq_array.mp h place
  · exact BEq.rfl

theorem moveElement_congr (index : Nat) (value : Option Json) :
    Json.array (moveElement items index value) == .array (moveElement others index value) := by
  have hitem := array_beq_array.mp h index
  unfold moveElement
  rw [length_eq_of_beq h]
  cases hfound : items[index]? with
  | none =>
    rw [hfound] at hitem
    rw [none_beq_iff.mp hitem]
    exact h
  | some item =>
    rw [hfound] at hitem
    obtain ⟨partner, hpartner, heq⟩ := some_beq_iff.mp hitem
    rw [hpartner]
    cases moveTarget? others.length index value with
    | none => exact h
    | some target => exact insertIdx_congr (eraseIdx_congr h index) heq target

end Items

theorem push_congr {current current' : Json} (h : current == current') (value : Json) :
    current.push value == current'.push value := by
  cases current with
  | array items =>
    obtain ⟨others, rfl, -⟩ := array_beq_iff.mp h
    exact append_congr h value
  | _ => cases current' <;> exact h

section Write

variable {container other : Json} (h : container == other)

include h

theorem editItems_congr (segment : String) {edit : List Json → Nat → List Json}
    (hedit : ∀ {items others : List Json}, Json.array items == .array others → ∀ index,
      Json.array (edit items index) == .array (edit others index)) :
    container.editItems segment edit == other.editItems segment edit := by
  cases container with
  | array items =>
    obtain ⟨others, rfl, -⟩ := array_beq_iff.mp h
    cases hindex : Text.arrayIndex? segment with
    | none =>
      simp only [editItems, hindex]
      exact h
    | some index =>
      simp only [editItems, hindex]
      exact hedit h index
  | _ =>
    have hother : other.isArray = false := (kind_eq_of_beq h).2.1.symm
    cases other <;> first | exact h | cases hother

theorem setChild_congr {child child' : Json} (hchild : child == child') (segment : String) :
    container.setChild segment child == other.setChild segment child' := by
  cases container with
  | object members =>
    obtain ⟨others, rfl, hname⟩ := object_beq_iff.mp h
    refine object_beq_object.mpr fun name => ?_
    rw [lookup_insertMember, lookup_insertMember]
    split
    · exact hchild
    · exact hname name
  | array items =>
    obtain ⟨others, rfl, -⟩ := array_beq_iff.mp h
    cases hindex : Text.arrayIndex? segment with
    | none =>
      simp only [setChild, editItems, hindex]
      exact h
    | some index =>
      simp only [setChild_array hindex]
      exact setElement_congr h hchild index
  | _ =>
    have hother : other.isComposite = false := (isComposite_eq_of_beq h).symm
    cases other <;> first | exact h | cases hother

theorem deleteChild_congr (segment : String) :
    container.deleteChild segment == other.deleteChild segment := by
  cases container with
  | object members =>
    obtain ⟨others, rfl, hname⟩ := object_beq_iff.mp h
    refine object_beq_object.mpr fun name => ?_
    rw [lookup_eraseMember, lookup_eraseMember]
    split
    · exact BEq.rfl
    · exact hname name
  | array items =>
    obtain ⟨others, rfl, -⟩ := array_beq_iff.mp h
    exact editItems_congr h segment fun hitems index => setElement_congr hitems BEq.rfl index
  | _ =>
    have hother : other.isComposite = false := (isComposite_eq_of_beq h).symm
    cases other <;> first | exact h | cases hother

theorem updateChild_congr (segment : String) (value : Option Json) (mode : UpdateMode) :
    container.updateChild segment value mode == other.updateChild segment value mode := by
  cases mode with
  | replace =>
    cases value with
    | some value => exact setChild_congr h BEq.rfl segment
    | none => exact deleteChild_congr h segment
  | add =>
    cases value with
    | none => exact h
    | some value =>
      refine setChild_congr h (push_congr ?_ value) segment
      have hchild := child?_beq h segment
      cases hfound : container.child? segment with
      | none =>
        rw [hfound] at hchild
        rw [none_beq_iff.mp hchild]
        exact BEq.rfl
      | some child =>
        rw [hfound] at hchild
        obtain ⟨partner, hpartner, heq⟩ := some_beq_iff.mp hchild
        rw [hpartner]
        exact heq
  | remove => exact editItems_congr h segment fun hitems index => eraseIdx_congr hitems index
  | move =>
    exact editItems_congr h segment fun hitems index => moveElement_congr hitems index value

end Write

theorem writeBelow_congr {container other : Json} (h : container == other) (value : Option Json)
    (mode : UpdateMode) (segment : String) (segments : List String) :
    writeBelow value mode container segment segments ==
      writeBelow value mode other segment segments := by
  induction segments generalizing container other segment with
  | nil => exact updateChild_congr h segment value mode
  | cons next segments ih =>
    have hdown := asContainer_congr (child?_beq h segment)
    exact setChild_congr h (ih hdown next) segment

/-! ## Probing -/

theorem isAddEffective_congr {current current' : Option Json} (h : current == current')
    (value : Option Json) : isAddEffective current value = isAddEffective current' value := by
  cases value with
  | none => rfl
  | some value =>
    cases current with
    | none =>
      cases none_beq_iff.mp h
      rfl
    | some current =>
      obtain ⟨partner, rfl, heq⟩ := some_beq_iff.mp h
      rw [isAddEffective, isAddEffective, BEq.congr_left heq, (kind_eq_of_beq heq).2.1]

theorem isSome_eq_of_beq {found found' : Option Json} (h : found == found') :
    found.isSome = found'.isSome := by
  cases found with
  | none =>
    cases none_beq_iff.mp h
    rfl
  | some value =>
    obtain ⟨partner, rfl, -⟩ := some_beq_iff.mp h
    rfl

theorem isMemberEffective_congr {current current' : Option Json} (h : current == current')
    (value : Option Json) (mode : UpdateMode) :
    isMemberEffective current value mode = isMemberEffective current' value mode := by
  cases mode with
  | replace =>
    cases value with
    | some value => rw [isMemberEffective, isMemberEffective, BEq.congr_left h]
    | none => exact isSome_eq_of_beq h
  | add => exact isAddEffective_congr h value
  | remove => rfl
  | move => rfl

theorem isElementEffective_congr {items others : List Json}
    (h : Json.array items == .array others) (index : Nat) (value : Option Json)
    (mode : UpdateMode) :
    isElementEffective items index value mode = isElementEffective others index value mode := by
  have hitem := array_beq_array.mp h index
  cases mode with
  | replace =>
    cases value with
    | some value => rw [isElementEffective, isElementEffective, BEq.congr_left hitem]
    | none =>
      rw [isElementEffective, isElementEffective]
      cases hfound : items[index]? with
      | none =>
        rw [hfound] at hitem
        rw [none_beq_iff.mp hitem]
      | some item =>
        rw [hfound] at hitem
        obtain ⟨partner, hpartner, heq⟩ := some_beq_iff.mp hitem
        rw [hpartner, Option.any_some, Option.any_some, (kind_eq_of_beq heq).2.2]
  | add => exact isAddEffective_congr hitem value
  | remove => rw [isElementEffective, isElementEffective, length_eq_of_beq h]
  | move => rw [isElementEffective, isElementEffective, length_eq_of_beq h]

/-- The probe finds an effect in both of two equal containers or in neither. -/
theorem isEffective_node_congr {container other : Json} (hcontainer : container.isComposite)
    (h : container == other) (value : Option Json) (mode : UpdateMode) (segment : String)
    (segments : List String) :
    (Probe.node container).isEffective value mode segment segments =
      (Probe.node other).isEffective value mode segment segments := by
  have hother : other.isComposite := isComposite_eq_of_beq h ▸ hcontainer
  induction segments generalizing container other segment with
  | nil =>
    cases container with
    | object members =>
      obtain ⟨others, rfl, hname⟩ := object_beq_iff.mp h
      exact isMemberEffective_congr (hname segment) value mode
    | array items =>
      obtain ⟨others, rfl, -⟩ := array_beq_iff.mp h
      rw [Probe.isEffective, Probe.isEffective]
      cases Text.arrayIndex? segment with
      | none => rfl
      | some index => exact isElementEffective_congr h index value mode
    | _ => cases hcontainer
  | cons next segments ih =>
    cases haccepts : container.accepts segment with
    | false =>
      have haccepts' : other.accepts segment = false := accepts_eq_of_beq h segment ▸ haccepts
      rw [isEffective_of_not_accepts hcontainer haccepts,
        isEffective_of_not_accepts hother haccepts']
    | true =>
      have haccepts' : other.accepts segment = true := accepts_eq_of_beq h segment ▸ haccepts
      rw [isEffective_cons hcontainer haccepts, isEffective_cons hother haccepts']
      have hchild := child?_beq h segment
      rcases ofChild_cases (container.child? segment) with
        ⟨child, hfound, hcomposite, hprobe, -⟩ | ⟨hprobe, -, hscalar⟩
      · rw [hfound] at hchild
        obtain ⟨partner, hpartner, heq⟩ := some_beq_iff.mp hchild
        have hpartner' : partner.isComposite := isComposite_eq_of_beq heq ▸ hcomposite
        rw [hprobe, hpartner, Probe.ofChild, if_pos hpartner']
        exact ih hcomposite heq next hpartner'
      · -- Nothing to enter here, so the partner has nothing to enter either.
        have hprobe' : Probe.ofChild (other.child? segment) = .fresh := by
          rcases ofChild_cases (other.child? segment) with
            ⟨partner, hpartner, hcomposite, -, -⟩ | ⟨hfresh, -, -⟩
          · rw [hpartner] at hchild
            obtain ⟨child, hfound, heq⟩ := beq_some_iff.mp hchild
            have := hscalar child hfound
            rw [isComposite_eq_of_beq heq, hcomposite] at this
            cases this
          · exact hfresh
        rw [hprobe, hprobe']

/-! ## On whole trees -/

section Trees

variable {tree other : Json} (h : tree == other)

include h

theorem isEffective_congr (path : DataPath) (value : Option Json) (mode : UpdateMode) :
    tree.isEffective path value mode = other.isEffective path value mode := by
  obtain ⟨segments⟩ := path
  cases segments with
  | nil =>
    cases mode with
    | replace =>
      cases value with
      | some value => exact congrArg (!·) (BEq.congr_left h)
      | none => rfl
    | _ => rfl
  | cons segment segments =>
    cases tree with
    | object members =>
      obtain ⟨others, rfl, -⟩ := object_beq_iff.mp h
      exact isEffective_node_congr rfl h value mode segment segments
    | _ =>
      have hother : other.isObject = false := (kind_eq_of_beq h).1.symm
      cases other <;> first | rfl | cases hother

/-- Equal trees are left equal by an update, whether it has an effect or not. -/
theorem updated_congr (path : DataPath) (value : Option Json) (mode : UpdateMode) :
    tree.updated path value mode == other.updated path value mode := by
  unfold updated update?
  rw [isEffective_congr h path value mode]
  split
  · obtain ⟨segments⟩ := path
    cases segments with
    | nil =>
      cases value with
      | some value => exact BEq.rfl
      | none => exact h
    | cons segment segments =>
      exact writeBelow_congr (asRoot_congr h) value mode segment segments
  · exact h

end Trees

end DataBinding.Json
