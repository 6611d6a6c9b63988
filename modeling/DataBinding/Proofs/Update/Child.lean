import DataBinding.Proofs.Json.Equality
import DataBinding.Update

/-!
# Children of containers

What `setChild` does to the container it is applied to, seen through `child?`. An object accepts
every segment, an array only those that denote an index, and a container that does not accept a
segment has no child there and is left alone (`setChild_of_not_accepts`).

* `child?_setChild`: the child that was set, and every other one. In an array the places between
  the end and the new index read as `null` afterwards.
* `setChild_setChild`: the last child wins, and nothing of the one before is left.
* `setChild_beq`: setting a child to an equal one gives an equal container.
* `get?_asContainer`: below a container for going down, the same is found as before.
-/

namespace DataBinding.Json

/-! ## Containers -/

/-- Whether a segment can address a child. -/
def accepts : Json → String → Bool
  | .object _, _ => true
  | .array _, segment => (Text.arrayIndex? segment).isSome
  | _, _ => false

theorem child?_of_not_isComposite {value : Json} (h : value.isComposite = false)
    (segment : String) : value.child? segment = none := by
  cases value <;> first | rfl | cases h

theorem child?_of_not_accepts {container : Json} {segment : String}
    (h : container.accepts segment = false) : container.child? segment = none := by
  cases container with
  | object members => cases h
  | array items =>
    have hindex : Text.arrayIndex? segment = none := by simpa [accepts] using h
    rw [child?, hindex]
    rfl
  | _ => rfl

theorem accepts_of_child? {container child : Json} {segment : String}
    (h : container.child? segment = some child) : container.accepts segment := by
  cases haccepts : container.accepts segment with
  | true => rfl
  | false =>
    rw [child?_of_not_accepts haccepts] at h
    cases h

/-- Only a container has anything below it. -/
theorem get?_cons_of_not_isComposite {value : Json} (h : value.isComposite = false)
    (segment : String) (segments : List String) : value.get? (segment :: segments) = none := by
  rw [get?, child?_of_not_isComposite h]
  rfl

theorem isComposite_of_get? {value found : Json} {segments : List String}
    (h : value.get? segments = some found) (hfound : found.isComposite) : value.isComposite := by
  cases segments with
  | nil =>
    cases h
    exact hfound
  | cons segment segments =>
    cases hvalue : value.isComposite with
    | true => rfl
    | false =>
      rw [get?_cons_of_not_isComposite hvalue] at h
      cases h

theorem isComposite_asContainer (found : Option Json) : (asContainer found).isComposite := by
  unfold asContainer
  split <;> rfl

theorem asContainer_some {value : Json} (h : value.isComposite) :
    asContainer (some value) = value := by
  cases value <;> first | rfl | cases h

theorem asContainer_of_not_isComposite {value : Json} (h : value.isComposite = false) :
    asContainer (some value) = .object [] := by
  cases value <;> first | rfl | cases h

/-- Going down does not bring anything into being: what is below a container was below what stood
there before. -/
theorem get?_asContainer (found : Option Json) {segments : List String} (hne : segments ≠ []) :
    (asContainer found).get? segments = found.bind (get? · segments) := by
  obtain ⟨segment, rest, rfl⟩ := List.exists_cons_of_ne_nil hne
  cases found with
  | none => rfl
  | some value =>
    cases hvalue : value.isComposite with
    | true => rw [asContainer_some hvalue, Option.bind_some]
    | false =>
      rw [asContainer_of_not_isComposite hvalue, Option.bind_some,
        get?_cons_of_not_isComposite hvalue]
      rfl

/-! ## Setting a child -/

section SetChild

variable {container : Json} {segment : String}

theorem setChild_object (members : List (String × Json)) (segment : String) (child : Json) :
    (Json.object members).setChild segment child =
      .object (insertMember segment child members) := rfl

theorem setChild_array {items : List Json} {index : Nat}
    (h : Text.arrayIndex? segment = some index) (child : Json) :
    (Json.array items).setChild segment child = .array (setElement items index child) := by
  simp only [setChild, editItems, h]

/-- A segment that addresses no child sets none. -/
theorem setChild_of_not_accepts (h : container.accepts segment = false) (child : Json) :
    container.setChild segment child = container := by
  cases container with
  | object members => cases h
  | array items =>
    have hindex : Text.arrayIndex? segment = none := by simpa [accepts] using h
    simp only [setChild, editItems, hindex]
  | _ => rfl

theorem isComposite_setChild (container : Json) (segment : String) (child : Json) :
    (container.setChild segment child).isComposite = container.isComposite := by
  cases container with
  | array items => cases h : Text.arrayIndex? segment <;> simp [setChild, editItems, h, isComposite]
  | _ => rfl

theorem child?_setChild (h : container.accepts segment) (child : Json) :
    (container.setChild segment child).child? segment = some child := by
  cases container with
  | object members =>
    rw [setChild_object, child?, lookup_insertMember, if_pos rfl]
  | array items =>
    obtain ⟨index, hindex⟩ := Option.isSome_iff_exists.mp h
    rw [setChild_array hindex, child?, hindex, Option.bind_some, getElem?_setElement, if_pos rfl]
  | _ => cases h

theorem insertMember_insertMember (name : String) (first second : Json)
    (members : List (String × Json)) :
    insertMember name second (insertMember name first members) =
      insertMember name second members := by
  induction members with
  | nil => simp [insertMember]
  | cons member members ih =>
    obtain ⟨other, old⟩ := member
    by_cases hname : other = name
    · simp [insertMember, hname]
    · simp [insertMember, hname, ih]

/-- A name that is missing is set at the end. -/
theorem insertMember_of_absent {name : String} {members : List (String × Json)}
    (h : members.lookup name = none) (value : Json) :
    insertMember name value members = members ++ [(name, value)] := by
  induction members with
  | nil => rfl
  | cons member members ih =>
    obtain ⟨other, old⟩ := member
    rw [lookup_cons_eq_ite] at h
    split at h
    · cases h
    · rename_i hname
      rw [insertMember, if_neg (Ne.symm hname), ih h, List.cons_append]

theorem length_setElement (items : List Json) (index : Nat) (value : Json) :
    (setElement items index value).length = max items.length (index + 1) := by
  unfold setElement
  split
  · rw [List.length_set]
    omega
  · simp only [List.length_append, List.length_replicate, List.length_singleton]
    omega

theorem setElement_setElement (items : List Json) (index : Nat) (first second : Json) :
    setElement (setElement items index first) index second = setElement items index second := by
  apply List.ext_getElem?
  intro place
  have hgap : ¬ ((setElement items index first).length ≤ place ∧ place < index) := by
    rw [length_setElement]
    omega
  rw [getElem?_setElement, getElem?_setElement, if_neg hgap, getElem?_setElement]
  split <;> rfl

theorem setChild_setChild (container : Json) (segment : String) (first second : Json) :
    (container.setChild segment first).setChild segment second =
      container.setChild segment second := by
  cases haccepts : container.accepts segment with
  | false =>
    rw [setChild_of_not_accepts haccepts first]
  | true =>
    cases container with
    | object members =>
      simp only [setChild_object, insertMember_insertMember]
    | array items =>
      obtain ⟨index, hindex⟩ := Option.isSome_iff_exists.mp haccepts
      simp only [setChild_array hindex, setElement_setElement]
    | _ => cases haccepts

/-- A child that is equal to the one in its place changes nothing that a reader could tell. -/
theorem setChild_beq {container : Json} {segment : String} {child : Json}
    (h : container.child? segment == some child) :
    container.setChild segment child == container := by
  cases container with
  | object members =>
    rw [setChild_object]
    refine object_beq_object.mpr fun name => ?_
    rw [lookup_insertMember]
    split
    · rename_i hname
      subst name
      exact BEq.symm h
    · exact BEq.rfl
  | array items =>
    cases hindex : Text.arrayIndex? segment with
    | none =>
      rw [setChild_of_not_accepts (by simp [accepts, hindex])]
      exact BEq.rfl
    | some index =>
      have hchild : items[index]? == some child := by
        simpa only [child?, hindex, Option.bind_some] using h
      have hlength : index < items.length := by
        obtain ⟨old, hold, -⟩ := some_beq_iff.mp (BEq.symm hchild)
        exact (List.getElem?_eq_some_iff.mp hold).1
      rw [setChild_array hindex]
      refine array_beq_array.mpr fun place => ?_
      rw [getElem?_setElement]
      split
      · rename_i hplace
        subst place
        exact BEq.symm hchild
      · rw [if_neg (by omega)]
        exact BEq.rfl
  | _ =>
    exact BEq.rfl

end SetChild

end DataBinding.Json
