import DataBinding.Proofs.Update.Aside
import DataBinding.Proofs.Update.Edit

/-!
# Independent updates commute

Two updates that set or delete, at paths neither of which covers the other, may be applied in either
order, unless they address one element of an array by different spellings. They do meet on the front
that their paths share: one of them may make, coerce or fill with `null` what the other one goes
through, so that an update which has an effect in one order is a no-op in the other. Only the trees
that are left in the end are equal.

* `editElement_comm`: two edits of different elements of an array. Whether a missing element is filled
  with `null` before or after its own edit makes no difference to the edits that occur here
  (`IgnoresNull`).
* `editChild_comm`, `editChild_editChild`: two edits at different segments, and at the same one.
* `replaceAt_comm`: along two paths that part, by induction on their common front.
* `Json.Independent`, `Independent.updated_comm`: for updates of whole trees.
-/

namespace DataBinding.Json

/-! ## Edits of two children -/

/-- Whether nothing or `null` is there makes no difference, as far as `null` afterwards counts as
nothing. -/
def IgnoresNull (edit : Option Json → Option Json) : Prop :=
  (edit (some .null)).getD .null == (edit none).getD .null

section Elements

variable {read : Nat → Option Json} {index other : Nat} {edit edit' : Option Json → Option Json}

theorem editElement_self (read : Nat → Option Json) (index : Nat)
    (edit : Option Json → Option Json) :
    editElement read index edit index =
      (edit (read index)).or ((read index).map fun _ => .null) :=
  if_pos rfl

theorem editElement_before {place : Nat} (h : place < index) :
    editElement read index edit place =
      if (edit (read index)).isSome then some ((read place).getD .null) else read place := by
  have hne : place ≠ index := by omega
  simp only [editElement, if_neg hne, h, true_and]

theorem editElement_after {place : Nat} (h : index < place) :
    editElement read index edit place = read place := by
  have hne : place ≠ index := by omega
  have hnot : ¬ place < index := by omega
  rw [editElement, if_neg hne, if_neg fun hboth => hnot hboth.1]

/-- The edit of an element further on may fill the place of an element that is missing. -/
theorem editElement_filled (hnull : IgnoresNull edit) (found : Option Json) :
    some (((edit found).or (found.map fun _ => .null)).getD .null) ==
      (edit (some (found.getD .null))).or (some .null) := by
  cases found with
  | some value => cases h : edit (some value) <;> simp [h]
  | none =>
    have hsame := BEq.symm hnull
    cases h : edit none <;> cases h' : edit (some .null) <;> simp_all

theorem editElement_comm_of_lt (h : index < other) (hnull : IgnoresNull edit) (place : Nat) :
    editElement (editElement read index edit) other edit' place ==
      editElement (editElement read other edit') index edit place := by
  have hother : editElement read index edit other = read other := editElement_after h
  have hindex : editElement read other edit' index =
      if (edit' (read other)).isSome then some ((read index).getD .null) else read index :=
    editElement_before h
  rcases Nat.lt_trichotomy place index with hlt | rfl | hgt
  · -- Before both elements: filled if one of the edits brings an element.
    rw [editElement_before (Nat.lt_trans hlt h), editElement_before hlt, editElement_before hlt,
      editElement_before (Nat.lt_trans hlt h), hother, hindex]
    cases hsome : (edit' (read other)).isSome <;> simp
    split <;> simp
  · rw [editElement_before h, hother, editElement_self, editElement_self, hindex]
    cases hsome : (edit' (read other)).isSome with
    | false => exact BEq.rfl
    | true => exact editElement_filled hnull (read place)
  · rw [editElement_after hgt]
    rcases Nat.lt_trichotomy place other with hlt | rfl | hgt'
    · rw [editElement_before hlt, editElement_before hlt, hother, editElement_after hgt]
      exact BEq.rfl
    · rw [editElement_self, editElement_self, hother]
      exact BEq.rfl
    · rw [editElement_after hgt', editElement_after hgt', editElement_after hgt]
      exact BEq.rfl

/-- Two edits of different elements of an array may be made in either order. -/
theorem editElement_comm (hne : index ≠ other) (hnull : IgnoresNull edit)
    (hnull' : IgnoresNull edit') (place : Nat) :
    editElement (editElement read index edit) other edit' place ==
      editElement (editElement read other edit') index edit place := by
  rcases Nat.lt_or_gt_of_ne hne with hlt | hgt
  · exact editElement_comm_of_lt hlt hnull place
  · exact BEq.symm (editElement_comm_of_lt hgt hnull' place)

end Elements

section Children

variable {container : Json} {segment other : String} {edit edit' : Option Json → Option Json}

theorem accepts_editChild (container : Json) (segment : String)
    (edit : Option Json → Option Json) (other : String) :
    (container.editChild segment edit).accepts other = container.accepts other := by
  cases container with
  | object members =>
    obtain ⟨changed, hchanged, -⟩ := editChild_object members segment edit
    rw [hchanged]
    rfl
  | array items =>
    cases hindex : Text.arrayIndex? segment with
    | none => rw [editChild_of_not_accepts (by simp [accepts, hindex])]
    | some index =>
      obtain ⟨changed, hchanged, -⟩ := editChild_array items hindex edit
      rw [hchanged]
      rfl
  | _ => rw [editChild_of_not_accepts rfl]

/-- Members of different names are edited in either order, whatever the edits are. -/
theorem editChild_comm_object (members : List (String × Json)) (hne : other ≠ segment)
    (edit edit' : Option Json → Option Json) :
    ((Json.object members).editChild segment edit).editChild other edit' ==
      ((Json.object members).editChild other edit').editChild segment edit := by
  obtain ⟨first, hfirst, hread⟩ := editChild_object members segment edit
  obtain ⟨first', hfirst', hread'⟩ := editChild_object members other edit'
  obtain ⟨second, hsecond, hlast⟩ := editChild_object first other edit'
  obtain ⟨second', hsecond', hlast'⟩ := editChild_object first' segment edit
  rw [hfirst, hfirst', hsecond, hsecond']
  refine object_beq_object.mpr fun name => ?_
  have hother : first.lookup other = members.lookup other := by rw [hread, if_neg hne]
  have hsegment : first'.lookup segment = members.lookup segment := by
    rw [hread', if_neg hne.symm]
  have hsame : second.lookup name = second'.lookup name := by
    rw [hlast, hlast', hother, hsegment, hread, hread']
    by_cases hname : name = segment
    · rw [hname, if_neg hne.symm, if_pos rfl, if_pos rfl]
    · rw [if_neg hname, if_neg hname]
  rw [hsame]
  exact BEq.rfl

theorem editChild_comm_array (items : List Json) {index index' : Nat}
    (hindex : Text.arrayIndex? segment = some index) (hindex' : Text.arrayIndex? other = some index')
    (hne : index ≠ index') (hnull : IgnoresNull edit) (hnull' : IgnoresNull edit') :
    ((Json.array items).editChild segment edit).editChild other edit' ==
      ((Json.array items).editChild other edit').editChild segment edit := by
  obtain ⟨first, hfirst, hread⟩ := editChild_array items hindex edit
  obtain ⟨first', hfirst', hread'⟩ := editChild_array items hindex' edit'
  obtain ⟨second, hsecond, hlast⟩ := editChild_array first hindex' edit'
  obtain ⟨second', hsecond', hlast'⟩ := editChild_array first' hindex edit
  rw [hfirst, hfirst', hsecond, hsecond']
  refine array_beq_array.mpr fun place => ?_
  rw [hlast, hlast', funext hread, funext hread']
  exact editElement_comm hne hnull hnull' place

/-- Two edits at segments that address different children may be made in either order. -/
theorem editChild_comm (hne : other ≠ segment) (hshare : ¬ container.SharesElement segment other)
    (hnull : IgnoresNull edit) (hnull' : IgnoresNull edit') :
    (container.editChild segment edit).editChild other edit' ==
      (container.editChild other edit').editChild segment edit := by
  cases haccepts : container.accepts segment with
  | false =>
    have hkept : (container.editChild other edit').accepts segment = false := by
      rw [accepts_editChild, haccepts]
    rw [editChild_of_not_accepts haccepts, editChild_of_not_accepts hkept]
    exact BEq.rfl
  | true =>
    cases haccepts' : container.accepts other with
    | false =>
      have hkept : (container.editChild segment edit).accepts other = false := by
        rw [accepts_editChild, haccepts']
      rw [editChild_of_not_accepts haccepts', editChild_of_not_accepts hkept]
      exact BEq.rfl
    | true =>
      cases container with
      | object members => exact editChild_comm_object members hne edit edit'
      | array items =>
        obtain ⟨index, hindex⟩ := Option.isSome_iff_exists.mp haccepts
        obtain ⟨index', hindex'⟩ := Option.isSome_iff_exists.mp haccepts'
        refine editChild_comm_array items hindex hindex' ?_ hnull hnull'
        rintro rfl
        exact hshare ⟨items, index, rfl, hindex, hindex'⟩
      | _ => cases haccepts

/-- Two edits of one child are one edit, if the first one does not take it away. -/
theorem editChild_editChild (hkeeps : ∀ child, (edit (some child)).isSome)
    (hkeeps' : ∀ child, (edit' (some child)).isSome) :
    (container.editChild segment edit).editChild segment edit' =
      container.editChild segment fun found => edit' (edit found) := by
  cases haccepts : container.accepts segment with
  | false => simp only [editChild_of_not_accepts haccepts]
  | true =>
    cases hedit : edit (container.child? segment) with
    | none =>
      have hchild : container.child? segment = none := by
        cases hchild : container.child? segment with
        | none => rfl
        | some child =>
          have hsome := hkeeps child
          rw [← hchild, hedit] at hsome
          cases hsome
      rw [hchild] at hedit
      rw [editChild_of_none hchild hedit, editChild, editChild, hchild, hedit]
    | some child =>
      obtain ⟨last, hlast⟩ := Option.isSome_iff_exists.mp (hkeeps' child)
      have hsecond : edit' ((container.setChild segment child).child? segment) = some last := by
        rw [child?_setChild haccepts, hlast]
      have hboth : edit' (edit (container.child? segment)) = some last := by rw [hedit, hlast]
      rw [editChild_of_some hedit, editChild_of_some hsecond, setChild_setChild]
      exact (editChild_of_some hboth).symm

end Children

/-! ## Along two paths that part -/

theorem ignoresNull_replaceAt (value : Option Json) (segments : List String) :
    IgnoresNull (replaceAt value segments) := by
  unfold IgnoresNull
  cases segments with
  | nil => exact BEq.rfl
  | cons segment segments => cases value <;> exact BEq.rfl

/-- Two updates along paths with a common start may be applied in either order to what is there. -/
def CommuteAt (value value' : Option Json) (path path' : List String) (found : Option Json) : Prop :=
  replaceAt value' path' (replaceAt value path found) ==
    replaceAt value path (replaceAt value' path' found)

section Parting

variable {value value' : Option Json} {container : Json} {segment segment' : String}
  {rest rest' : List String}

theorem asContainer_of_any {found : Option Json} (h : found.any isComposite = false) :
    asContainer found = .object [] := by
  cases found with
  | none => rfl
  | some child => exact asContainer_of_not_isComposite h

/-- Where there is no container, the empty object does as well, unless both updates delete. -/
theorem replaceAt_replaceAt_empty {found : Option Json} (h : found.any isComposite = false)
    (hvalue : value.isSome ∨ value'.isSome) :
    replaceAt value' (segment' :: rest') (replaceAt value (segment :: rest) found) =
      replaceAt value' (segment' :: rest')
        (replaceAt value (segment :: rest) (some (.object []))) := by
  cases value with
  | some value =>
    rw [replaceAt_some, asContainer_of_any h, replaceAt_some, asContainer_some rfl]
  | none =>
    obtain ⟨set, rfl⟩ := Option.isSome_iff_exists.mp (hvalue.resolve_left Bool.false_ne_true)
    rw [replaceAt_none h, replaceAt_none_empty, replaceAt_some, asContainer_of_any h, replaceAt_some,
      asContainer_some rfl]

/-- It is enough to look at containers, the empty object being one of them. -/
theorem commuteAt_of_container {found : Option Json}
    (h : ∀ container : Json, container.isComposite →
      found = some container ∨ container = .object [] →
        CommuteAt value value' (segment :: rest) (segment' :: rest') (some container)) :
    CommuteAt value value' (segment :: rest) (segment' :: rest') found := by
  cases hfound : found.any isComposite with
  | true =>
    obtain ⟨container, rfl, hcontainer⟩ := (Option.any_eq_true _ _).mp hfound
    exact h container hcontainer (Or.inl rfl)
  | false =>
    by_cases hvalue : value.isSome ∨ value'.isSome
    · rw [CommuteAt, replaceAt_replaceAt_empty hfound hvalue,
        replaceAt_replaceAt_empty hfound hvalue.symm]
      exact h (.object []) rfl (Or.inr rfl)
    · obtain ⟨rfl, rfl⟩ : value = none ∧ value' = none := by simpa using hvalue
      rw [CommuteAt, replaceAt_none hfound, replaceAt_none hfound, replaceAt_none hfound]
      exact BEq.rfl

theorem commuteAt_parting (hcontainer : container.isComposite) (hne : segment' ≠ segment)
    (hshare : ¬ container.SharesElement segment segment') :
    CommuteAt value value' (segment :: rest) (segment' :: rest') (some container) := by
  rw [CommuteAt, replaceAt_container hcontainer, replaceAt_container hcontainer,
    replaceAt_container (by rwa [isComposite_editChild]),
    replaceAt_container (by rwa [isComposite_editChild])]
  exact editChild_comm hne hshare (ignoresNull_replaceAt value rest)
    (ignoresNull_replaceAt value' rest')

/-- Two updates that go through one child commute if they do below it. -/
theorem commuteAt_cons (hcontainer : container.isComposite) {step : String}
    (h : CommuteAt value value' (segment :: rest) (segment' :: rest') (container.child? step)) :
    CommuteAt value value' (step :: segment :: rest) (step :: segment' :: rest')
      (some container) := by
  rw [CommuteAt, replaceAt_container hcontainer, replaceAt_container hcontainer,
    replaceAt_container (by rwa [isComposite_editChild]),
    replaceAt_container (by rwa [isComposite_editChild])]
  have hkeeps := isSome_replaceAt_cons value segment rest
  have hkeeps' := isSome_replaceAt_cons value' segment' rest'
  rw [editChild_editChild hkeeps hkeeps', editChild_editChild hkeeps' hkeeps]
  exact editChild_congr BEq.rfl step h

end Parting

/-- Two updates along paths that part commute, unless they address one element of an array. -/
theorem commuteAt_of_parting {segment segment' : String} (hne : segment' ≠ segment)
    (value value' : Option Json) (back back' front : List String) {found : Option Json}
    (hshare : ∀ node, found.bind (get? · front) = some node →
      ¬ node.SharesElement segment segment') :
    CommuteAt value value' (front ++ segment :: back) (front ++ segment' :: back') found := by
  induction front generalizing found with
  | nil =>
    refine commuteAt_of_container fun container hcontainer hfound => ?_
    refine commuteAt_parting hcontainer hne ?_
    rcases hfound with rfl | rfl
    · exact hshare container rfl
    · rintro ⟨items, index, hitems, -⟩
      cases hitems
  | cons step front ih =>
    obtain ⟨next, rest, hpath⟩ :=
      List.exists_cons_of_ne_nil (l := front ++ segment :: back) (by simp)
    obtain ⟨next', rest', hpath'⟩ :=
      List.exists_cons_of_ne_nil (l := front ++ segment' :: back') (by simp)
    rw [List.cons_append, List.cons_append]
    refine commuteAt_of_container fun container hcontainer hfound => ?_
    rw [hpath, hpath'] at ih ⊢
    refine commuteAt_cons hcontainer (ih fun node hnode => ?_)
    rcases hfound with rfl | rfl
    · exact hshare node hnode
    · cases hnode

/-! ## On whole trees -/

/-- Neither path covers the other, and they do not address one element of an array. -/
structure Independent (tree : Json) (p q : DataPath) : Prop where
  isAside : p.IsAside q
  not_aliased : ¬ tree.Aliased p.segments q.segments

theorem SharesElement.symm {container : Json} {segment other : String}
    (h : container.SharesElement segment other) : container.SharesElement other segment := by
  obtain ⟨items, index, hitems, hindex, hplace⟩ := h
  exact ⟨items, index, hitems, hplace, hindex⟩

theorem Aliased.symm {tree : Json} {path other : List String} (h : tree.Aliased path other) :
    tree.Aliased other path := by
  obtain ⟨front, segment, segment', back, back', node, hpath, hother, hne, hread, hshares⟩ := h
  exact ⟨front, segment', segment, back', back, node, hother, hpath, hne.symm, hread, hshares.symm⟩

theorem isObject_updated {tree : Json} (htree : tree.isObject) {path : DataPath}
    (hpath : path ≠ .root) (value : Option Json) (mode : UpdateMode) :
    (tree.updated path value mode).isObject := by
  rcases tree.updated_cases hpath value mode with hsame | ⟨-, hobject⟩
  · rwa [hsame]
  · exact hobject

namespace Independent

variable {tree : Json} {p q r : DataPath}

theorem symm (h : tree.Independent p q) : tree.Independent q p :=
  ⟨h.isAside.symm, fun haliased => h.not_aliased haliased.symm⟩

/-- An update that is independent of one of two paths keeps them independent. -/
theorem updated (h : tree.Independent p q) (htree : tree.isObject) (hr : tree.Independent r q)
    (value : Option Json) : (tree.updated r value .replace).Independent p q := by
  refine ⟨h.isAside, ?_⟩
  rcases tree.updated_cases hr.isAside.ne_root value .replace with hsame | ⟨hwritten, -⟩
  · rw [hsame]
    exact h.not_aliased
  · rw [hwritten, asRoot_of_isObject htree]
    cases tree with
    | object members =>
      exact (noNewArray_write_aside hr.isAside hr.not_aliased (Or.inl rfl) value).not_aliased
        h.not_aliased
    | _ => cases htree

/-- Independent updates of an object may be applied in either order. -/
theorem updated_comm (h : tree.Independent p q) (htree : tree.isObject) (v w : Option Json) :
    (tree.updated p v .replace).updated q w .replace ==
      (tree.updated q w .replace).updated p v .replace := by
  have hp := h.isAside.ne_root
  have hq := h.symm.isAside.ne_root
  have hcovers := h.isAside
  simp only [DataPath.IsAside, DataPath.covers, List.isPrefixOf_iff_prefix] at hcovers
  obtain ⟨front, segment, segment', back, back', hpath, hpath', hne⟩ :=
    exists_parting hcovers.1 hcovers.2
  have hcommute : CommuteAt v w p.segments q.segments (some tree) := by
    rw [hpath, hpath']
    refine commuteAt_of_parting hne v w back back' front fun node hnode hshares => ?_
    exact h.not_aliased
      ⟨front, segment, segment', back, back', node, hpath, hpath', hne, hnode, hshares⟩
  have hleft := BEq.trans (some_updated_beq (isObject_updated htree hp v .replace) hq w)
    (replaceAt_congr (some_updated_beq htree hp v) w q.segments)
  have hright := BEq.trans (some_updated_beq (isObject_updated htree hq w .replace) hp v)
    (replaceAt_congr (some_updated_beq htree hq w) v p.segments)
  rw [CommuteAt] at hcommute
  have hsame : some ((tree.updated p v .replace).updated q w .replace) ==
      some ((tree.updated q w .replace).updated p v .replace) :=
    BEq.trans hleft (BEq.trans hcommute (BEq.symm hright))
  exact hsame

end Independent

/-- Two paths part at one place only. -/
theorem parting_unique {front front' back back' rest rest' : List String}
    {segment segment' next next' : String} (hpath : front ++ segment :: back = front' ++ next :: rest)
    (hother : front ++ segment' :: back' = front' ++ next' :: rest') (hne : segment' ≠ segment)
    (hnext : next' ≠ next) : front = front' ∧ segment = next ∧ segment' = next' := by
  induction front generalizing front' with
  | nil =>
    cases front' with
    | nil =>
      cases hpath
      cases hother
      exact ⟨rfl, rfl, rfl⟩
    | cons step front' =>
      cases hpath
      cases hother
      exact absurd rfl hne
  | cons step front ih =>
    cases front' with
    | nil =>
      cases hpath
      cases hother
      exact absurd rfl hnext
    | cons step' front' =>
      obtain ⟨rfl, hrest⟩ := List.cons.inj hpath
      obtain ⟨-, hrest'⟩ := List.cons.inj hother
      obtain ⟨rfl, hsegments⟩ := ih hrest hrest'
      exact ⟨rfl, hsegments⟩

/-- Segments that denote different indices, or one of which denotes none, address no common
element. -/
theorem not_aliased_of_parting (tree : Json) (front : List String) {back back' : List String}
    {segment segment' : String} (hne : segment' ≠ segment)
    (hindex : Text.arrayIndex? segment = none ∨
      Text.arrayIndex? segment ≠ Text.arrayIndex? segment') :
    ¬ tree.Aliased (front ++ segment :: back) (front ++ segment' :: back') := by
  rintro ⟨front', next, next', rest, rest', node, hpath, hother, hnext, -, items, index, -, hplace,
    hplace'⟩
  obtain ⟨-, rfl, rfl⟩ := parting_unique hpath hother hne hnext
  rcases hindex with hnone | hdiffer
  · cases hplace.symm.trans hnone
  · exact hdiffer (hplace.trans hplace'.symm)

/-- **Independent updates commute.** Let an object be updated at two paths neither of which covers the
other, each time by setting a value or by deleting, where a no-op leaves the object as it is. If the
paths do not address one element of an array of the object by different spellings, both orders leave
equal objects. -/
theorem independent_updates_commute (members : List (String × Json)) {p q : DataPath}
    (hcovers : ¬ p.covers q) (hcovered : ¬ q.covers p)
    (haliased : ¬ (Json.object members).Aliased p.segments q.segments) (v w : Option Json) :
    ((Json.object members).updated p v .replace).updated q w .replace ==
      ((Json.object members).updated q w .replace).updated p v .replace :=
  Independent.updated_comm ⟨⟨hcovers, hcovered⟩, haliased⟩ rfl v w

/-- Setting the second row to `null` has an effect only before the fourth one is set. -/
theorem independent_updates_commute_in_gap :
    ((Json.object [("rows", .array [])]).updated ⟨["rows", "3"]⟩ (some (.bool true)) .replace).updated
        ⟨["rows", "1"]⟩ (some .null) .replace ==
      ((Json.object [("rows", .array [])]).updated ⟨["rows", "1"]⟩ (some .null) .replace).updated
        ⟨["rows", "3"]⟩ (some (.bool true)) .replace :=
  independent_updates_commute [("rows", .array [])] (by decide) (by decide)
    (not_aliased_of_parting _ ["rows"] (by decide) (by decide)) (some (.bool true))
    (some .null)

end DataBinding.Json
