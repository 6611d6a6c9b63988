import DataBinding.Proofs.Update.Lens

/-!
# What an update leaves alone

Two paths neither of which covers the other part at some segment. An update at one of them is seen at
the other only in two ways: if both address one element of an array, written differently (`1` and
`01`), or if the array was filled with `null` up to the element that was set.

* `Json.Aliased`, `Json.IsPadding`: these two cases, for the place where the paths part.
* `get?_writeBelow_aside`: reading aside of the path of a write, by induction on the common front.
* `KeepsOrder`, `get?_writeBelow_front`: the objects on the way keep the order of their members.
* `update?_frame`: both for updates of whole trees.
-/

namespace DataBinding.Json

/-! ## Beside a child -/

/-- Two segments denote one element of an array. -/
def SharesElement (container : Json) (segment other : String) : Prop :=
  ∃ items index, container = .array items ∧ Text.arrayIndex? segment = some index ∧
    Text.arrayIndex? other = some index

/-- One segment denotes a place beyond the end of an array, and the other one further on. -/
def InGap (container : Json) (segment other : String) : Prop :=
  ∃ items index place, container = .array items ∧ Text.arrayIndex? segment = some index ∧
    Text.arrayIndex? other = some place ∧ items.length ≤ place ∧ place < index

/-- What is found afterwards is what was found before, apart from `null` in a gap. -/
def Undisturbed (before after : Option Json) (gap : Prop) : Prop :=
  after = before ∨ before = none ∧ after = some .null ∧ gap

theorem Undisturbed.mono {before after : Option Json} {gap gap' : Prop}
    (h : Undisturbed before after gap) (hgap : gap → gap') : Undisturbed before after gap' :=
  h.imp_right fun ⟨hbefore, hafter, hin⟩ => ⟨hbefore, hafter, hgap hin⟩

section Beside

variable {container : Json} {segment other : String}

theorem lookup_of_ne {members : List (String × Json)} (hne : other ≠ segment) (child : Json) :
    (insertMember segment child members).lookup other = members.lookup other := by
  rw [lookup_insertMember, if_neg hne]

theorem child?_setElement {items : List Json} {index : Nat}
    (hindex : Text.arrayIndex? segment = some index)
    (hshare : ¬ (Json.array items).SharesElement segment other) (child : Json) :
    Undisturbed ((Json.array items).child? other)
      ((Json.array (setElement items index child)).child? other)
      ((Json.array items).InGap segment other) := by
  cases hplace : Text.arrayIndex? other with
  | none =>
    left
    rw [child?, child?, hplace]
    rfl
  | some place =>
    have hne : place ≠ index := by
      rintro rfl
      exact hshare ⟨items, place, rfl, hindex, hplace⟩
    simp only [child?, hplace, Option.bind_some]
    rw [getElem?_setElement, if_neg hne]
    by_cases hgap : items.length ≤ place ∧ place < index
    · rw [if_pos hgap]
      exact Or.inr ⟨List.getElem?_eq_none hgap.1, rfl, items, index, place, rfl, hindex, hplace,
        hgap⟩
    · rw [if_neg hgap]
      exact Or.inl rfl

theorem child?_setChild_aside (hne : other ≠ segment)
    (hshare : ¬ container.SharesElement segment other) (child : Json) :
    Undisturbed (container.child? other) ((container.setChild segment child).child? other)
      (container.InGap segment other) := by
  cases haccepts : container.accepts segment with
  | false =>
    rw [setChild_of_not_accepts haccepts]
    exact Or.inl rfl
  | true =>
    cases container with
    | object members => exact Or.inl (lookup_of_ne hne child)
    | array items =>
      obtain ⟨index, hindex⟩ := Option.isSome_iff_exists.mp haccepts
      rw [setChild_array hindex]
      exact child?_setElement hindex hshare child
    | _ => cases haccepts

theorem child?_deleteChild_aside (hne : other ≠ segment)
    (hshare : ¬ container.SharesElement segment other) :
    Undisturbed (container.child? other) ((container.deleteChild segment).child? other)
      (container.InGap segment other) := by
  cases container with
  | object members =>
    left
    change (eraseMember segment members).lookup other = members.lookup other
    rw [lookup_eraseMember, if_neg hne]
  | _ => exact child?_setChild_aside hne hshare .null

theorem child?_updateChild_aside {mode : UpdateMode} (hmode : mode = .replace ∨ mode = .add)
    (hne : other ≠ segment) (hshare : ¬ container.SharesElement segment other)
    (value : Option Json) :
    Undisturbed (container.child? other) ((container.updateChild segment value mode).child? other)
      (container.InGap segment other) := by
  rcases hmode with rfl | rfl
  · cases value with
    | some value => exact child?_setChild_aside hne hshare value
    | none => exact child?_deleteChild_aside hne hshare
  · cases value with
    | some value => exact child?_setChild_aside hne hshare _
    | none => exact Or.inl rfl

theorem child?_writeBelow_aside {mode : UpdateMode} (hmode : mode = .replace ∨ mode = .add)
    (hne : other ≠ segment) (hshare : ¬ container.SharesElement segment other)
    (value : Option Json) (segments : List String) :
    Undisturbed (container.child? other)
      ((writeBelow value mode container segment segments).child? other)
      (container.InGap segment other) := by
  cases segments with
  | nil => exact child?_updateChild_aside hmode hne hshare value
  | cons next segments => exact child?_setChild_aside hne hshare _

end Beside

/-! ## Beside a path -/

/-- Where the paths part, both address one element of an array. -/
def Aliased (tree : Json) (path other : List String) : Prop :=
  ∃ front segment segment' back back' container,
    path = front ++ segment :: back ∧ other = front ++ segment' :: back' ∧ segment' ≠ segment ∧
      tree.get? front = some container ∧ container.SharesElement segment segment'

/-- The second path ends where the paths part, in the gap between the end of an array and the element
that the first one addresses. -/
def IsPadding (tree : Json) (path other : List String) : Prop :=
  ∃ front segment segment' back container,
    path = front ++ segment :: back ∧ other = front ++ [segment'] ∧
      tree.get? front = some container ∧ container.InGap segment segment'

/-- Two paths neither of which covers the other part somewhere. -/
theorem exists_parting {path other : List String} (h : ¬ path <+: other) (h' : ¬ other <+: path) :
    ∃ front segment segment' back back', path = front ++ segment :: back ∧
      other = front ++ segment' :: back' ∧ segment' ≠ segment := by
  induction path generalizing other with
  | nil => exact absurd List.nil_prefix h
  | cons segment back ih =>
    cases other with
    | nil => exact absurd List.nil_prefix h'
    | cons segment' back' =>
      by_cases hsegment : segment' = segment
      · subst segment'
        obtain ⟨front, first, second, rest, rest', rfl, rfl, hne⟩ :=
          ih (fun hprefix => h (List.prefix_cons_inj segment |>.mpr hprefix))
            (fun hprefix => h' (List.prefix_cons_inj segment |>.mpr hprefix))
        exact ⟨segment :: front, first, second, rest, rest', rfl, rfl, hne⟩
      · exact ⟨[], segment, segment', back, back', rfl, rfl, hsegment⟩

/-- An array below a container for going down was below what stood there before. -/
theorem get?_asContainer_array {found : Option Json} {front : List String} {items : List Json}
    (h : (asContainer found).get? front = some (.array items)) :
    found.bind (get? · front) = some (.array items) := by
  cases front with
  | nil =>
    rcases ofChild_cases found with ⟨child, rfl, -, -, hdown⟩ | ⟨-, hdown, -⟩
    · rw [hdown] at h
      exact h
    · rw [hdown] at h
      cases h
  | cons segment front =>
    rw [← get?_asContainer found (by simp)]
    exact h

/-- Reading aside of the path of a write. -/
theorem get?_writeBelow_aside {mode : UpdateMode} (hmode : mode = .replace ∨ mode = .add)
    (value : Option Json) {container : Json} {first segment segment' : String}
    {rest front back : List String} (hpath : first :: rest = front ++ segment :: back)
    (hne : segment' ≠ segment)
    (hshare : ∀ node, container.get? front = some node → ¬ node.SharesElement segment segment')
    (back' : List String) :
    Undisturbed (container.get? (front ++ segment' :: back'))
      ((writeBelow value mode container first rest).get? (front ++ segment' :: back'))
      (container.IsPadding (first :: rest) (front ++ segment' :: back')) := by
  induction front generalizing container first rest with
  | nil =>
    cases hpath
    rw [List.nil_append, get?, get?]
    rcases child?_writeBelow_aside hmode hne (hshare container rfl) value back with
      hsame | ⟨hbefore, hafter, hgap⟩
    · rw [hsame]
      exact Or.inl rfl
    · -- `null` came into the gap, and nothing can be read below it.
      rw [hbefore, hafter]
      cases back' with
      | nil => exact Or.inr ⟨rfl, rfl, [], segment, segment', back, container, rfl, rfl, rfl, hgap⟩
      | cons next back' => exact Or.inl rfl
  | cons step front ih =>
    obtain ⟨rfl, hrest⟩ := List.cons.inj hpath
    obtain ⟨next, segments, rfl⟩ := List.exists_cons_of_ne_nil (l := rest) (by simp [hrest])
    rw [List.cons_append]
    cases haccepts : container.accepts first with
    | false =>
      rw [writeBelow_cons_of_not_accepts haccepts]
      exact Or.inl rfl
    | true =>
      have hshare' : ∀ node, (asContainer (container.child? first)).get? front = some node →
          ¬ node.SharesElement segment segment' := by
        rintro node hnode ⟨items, index, rfl, hindex, hplace⟩
        exact hshare (.array items) (get?_asContainer_array hnode)
          ⟨items, index, rfl, hindex, hplace⟩
      rw [get?_writeBelow_cons haccepts, get?, ← get?_asContainer _ (by simp)]
      refine (ih hrest hshare').mono ?_
      rintro ⟨middle, stop, stop', rest, node, hpath', hother, hread, items, index, place, rfl, hgap⟩
      refine ⟨first :: middle, stop, stop', rest, .array items, ?_, ?_, ?_, items, index, place,
        rfl, hgap⟩
      · rw [hpath', List.cons_append]
      · rw [hother, List.cons_append]
      · exact get?_asContainer_array hread

/-! ## The order of members -/

/-- The names are those of before, in their order, but for one that was removed or came to the
end. -/
def KeepsOrder (name : String) (members changed : List (String × Json)) : Prop :=
  changed.map Prod.fst = members.map Prod.fst ∨
    name ∉ members.map Prod.fst ∧ changed.map Prod.fst = members.map Prod.fst ++ [name] ∨
    changed.map Prod.fst = (members.map Prod.fst).filter (· ≠ name)

theorem keepsOrder_insertMember (name : String) (value : Json) (members : List (String × Json)) :
    KeepsOrder name members (insertMember name value members) := by
  suffices h : (insertMember name value members).map Prod.fst =
      if name ∈ members.map Prod.fst then members.map Prod.fst
      else members.map Prod.fst ++ [name] by
    by_cases hname : name ∈ members.map Prod.fst
    · exact Or.inl (by rw [h, if_pos hname])
    · exact Or.inr (Or.inl ⟨hname, by rw [h, if_neg hname]⟩)
  induction members with
  | nil => rfl
  | cons member members ih =>
    obtain ⟨other, old⟩ := member
    rw [insertMember]
    by_cases hother : other = name
    · simp [hother]
    · simp only [if_neg hother, List.map_cons, List.mem_cons, Ne.symm hother, false_or, ih]
      split <;> rfl

theorem keepsOrder_eraseMember (name : String) (members : List (String × Json)) :
    KeepsOrder name members (eraseMember name members) := by
  refine Or.inr (Or.inr ?_)
  rw [eraseMember, List.filter_map]
  rfl

theorem keepsOrder_updateChild (members : List (String × Json)) (name : String)
    (value : Option Json) (mode : UpdateMode) :
    ∃ changed, (Json.object members).updateChild name value mode = .object changed ∧
      KeepsOrder name members changed := by
  have hsame : KeepsOrder name members members := Or.inl rfl
  cases mode with
  | replace =>
    cases value with
    | some value => exact ⟨_, rfl, keepsOrder_insertMember name value members⟩
    | none => exact ⟨_, rfl, keepsOrder_eraseMember name members⟩
  | add =>
    cases value with
    | some value => exact ⟨_, rfl, keepsOrder_insertMember name _ members⟩
    | none => exact ⟨_, rfl, hsame⟩
  | remove => exact ⟨_, rfl, hsame⟩
  | move => exact ⟨_, rfl, hsame⟩

/-- An object on the way of a write keeps the order of its members. -/
theorem get?_writeBelow_front (value : Option Json) (mode : UpdateMode) {container : Json}
    {first segment : String} {rest front back : List String} {members : List (String × Json)}
    (hpath : first :: rest = front ++ segment :: back)
    (hread : container.get? front = some (.object members)) :
    ∃ changed, (writeBelow value mode container first rest).get? front = some (.object changed) ∧
      KeepsOrder segment members changed := by
  induction front generalizing container first rest with
  | nil =>
    cases hpath
    cases hread
    cases back with
    | nil =>
      obtain ⟨changed, hchanged, horder⟩ := keepsOrder_updateChild members segment value mode
      exact ⟨changed, congrArg some hchanged, horder⟩
    | cons next back => exact ⟨_, rfl, keepsOrder_insertMember segment _ members⟩
  | cons step front ih =>
    obtain ⟨rfl, hrest⟩ := List.cons.inj hpath
    obtain ⟨next, segments, rfl⟩ := List.exists_cons_of_ne_nil (l := rest) (by simp [hrest])
    obtain ⟨child, hchild, hread⟩ := Option.bind_eq_some_iff.mp hread
    have hcomposite : child.isComposite := isComposite_of_get? hread rfl
    rw [get?_writeBelow_cons (accepts_of_child? hchild), hchild, asContainer_some hcomposite]
    exact ih hrest hread

/-! ## On whole trees -/

theorem at?_write_aside {mode : UpdateMode} (hmode : mode = .replace ∨ mode = .add)
    (members : List (String × Json)) (value : Option Json) {path other : DataPath}
    (hcovers : ¬ path.covers other) (hcovered : ¬ other.covers path)
    (haliased : ¬ (Json.object members).Aliased path.segments other.segments) :
    Undisturbed ((Json.object members).at? other)
      (((Json.object members).write path value mode).at? other)
      ((Json.object members).IsPadding path.segments other.segments) := by
  obtain ⟨segments⟩ := path
  obtain ⟨others⟩ := other
  cases segments with
  | nil => exact absurd rfl hcovers
  | cons first rest =>
    simp only [DataPath.covers, List.isPrefixOf_iff_prefix] at hcovers hcovered
    obtain ⟨front, segment, segment', back, back', hpath, rfl, hne⟩ :=
      exists_parting hcovers hcovered
    refine get?_writeBelow_aside hmode value hpath hne ?_ back'
    intro node hnode hshares
    exact haliased ⟨front, segment, segment', back, back', node, hpath, rfl, hne, hnode, hshares⟩

/-- **An update leaves alone what is aside of its path.** Let an object be updated by setting,
deleting or appending at a path. Where another path, neither covering it nor covered by it, reads
otherwise afterwards, the two are aliases of one array element, or nothing was there and `null` came
into the gap of an array. And each object on the way keeps the order of its members, except that the
next one of the path may be removed or come to the end. -/
theorem update?_frame {members : List (String × Json)} {path : DataPath} {value : Option Json}
    {mode : UpdateMode} {result : Json} (hmode : mode = .replace ∨ mode = .add)
    (h : (Json.object members).update? path value mode = some result) :
    (∀ other : DataPath, ¬ path.covers other → ¬ other.covers path →
      ¬ (Json.object members).Aliased path.segments other.segments →
        (∀ current, (Json.object members).at? other = some current →
          result.at? other = some current) ∧
        (∀ current, (Json.object members).at? other = none → result.at? other = some current →
          current = .null ∧ (Json.object members).IsPadding path.segments other.segments)) ∧
    (∀ front segment back inner, path.segments = front ++ segment :: back →
      (Json.object members).get? front = some (.object inner) →
        ∃ changed, result.get? front = some (.object changed) ∧
          KeepsOrder segment inner changed) := by
  obtain ⟨-, rfl⟩ := update?_eq_some_iff.mp h
  constructor
  · intro other hcovers hcovered haliased
    rcases at?_write_aside hmode members value hcovers hcovered haliased with
      hsame | ⟨hbefore, hafter, hgap⟩
    · rw [hsame]
      refine ⟨fun current hcurrent => hcurrent, fun current hnone hcurrent => ?_⟩
      rw [hnone] at hcurrent
      cases hcurrent
    · refine ⟨fun current hcurrent => ?_, fun current _ hcurrent => ?_⟩
      · rw [hbefore] at hcurrent
        cases hcurrent
      · rw [hafter] at hcurrent
        exact ⟨(Option.some.inj hcurrent).symm, hgap⟩
  · intro front segment back inner hpath hread
    obtain ⟨segments⟩ := path
    cases segments with
    | nil => simp at hpath
    | cons first rest => exact get?_writeBelow_front value mode hpath hread

/-- Setting an element two places beyond the end leaves the first one and the order of members. -/
theorem update?_frame_beyond_end :
    ∃ result, (Json.object [("rows", .array [.bool true]), ("name", .null)]).update?
        ⟨["rows", "2"]⟩ (some (.bool false)) .replace = some result ∧
      result.at? ⟨["rows", "0"]⟩ = some (.bool true) ∧
      ∃ changed, result.get? [] = some (.object changed) ∧
        KeepsOrder "rows" [("rows", .array [.bool true]), ("name", .null)] changed := by
  refine ⟨_, rfl, ?_⟩
  have hupdate : (Json.object [("rows", .array [.bool true]), ("name", .null)]).update?
      ⟨["rows", "2"]⟩ (some (.bool false)) .replace = some _ := rfl
  have hframe := update?_frame (Or.inl rfl) hupdate
  refine ⟨(hframe.1 ⟨["rows", "0"]⟩ (by decide) (by decide) ?_).1 _ rfl,
    hframe.2 [] "rows" ["2"] _ rfl rfl⟩
  rintro ⟨front, segment, segment', back, back', node, hpath, hother, hne, -, items, index, -,
    hindex, hplace⟩
  match front with
  | [] =>
    cases hpath
    cases hother
    exact hne rfl
  | [_] =>
    cases hpath
    cases hother
    exact absurd (hindex.trans hplace.symm) (by decide)
  | _ :: _ :: _ => simp at hpath

end DataBinding.Json
