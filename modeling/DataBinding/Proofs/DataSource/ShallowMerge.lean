import DataBinding.Proofs.DataSource.MergeOrder

/-!
# Merging at the root

A body that is merged at the root is written member by member, each at the path that its name spells. A
name without dots is a path of one segment, so that its member is set as a whole. A name with dots does
not become the name of a member: its value ends up below the member of its first piece, where a scalar
gives way to an object, and an array may have no place for it. Writes below different members do not
meet, so every member of the root is what its own writes make of it.

* `Json.child?_updated_beq`: what one write does to the members of the root.
* `Json.child?_replacedAll_beq`: each member after many writes, by induction on the writes.
* `Json.lookup_overlay`: the shallow merge of two lists of members.
* `DataSource.child?_replacedAll_memberWrites`: a member that no dotted name of the body touches.
* `merge_at_root`: the merge of a body, in general and for names without dots.
* `merge_at_dotted_name`: a name with a dot is not the name of a member afterwards.
-/

namespace DataBinding

namespace Json

/-! ## The members of the root -/

/-- A write below one member leaves the other members equal to what they were. -/
theorem child?_updated_beq {tree : Json} (htree : tree.isObject) (segment : String)
    (segments : List String) (value : Option Json) (name : String) :
    (tree.updated ⟨segment :: segments⟩ value .replace).child? name ==
      if name = segment then replaceAt value segments (tree.child? segment)
      else tree.child? name := by
  have hroot : (⟨segment :: segments⟩ : DataPath) ≠ .root := by simp [DataPath.root]
  have hedit := some_updated_beq htree hroot value
  cases tree with
  | object members =>
    rw [replaceAt_container rfl] at hedit
    obtain ⟨changed, hchanged, hlookup⟩ :=
      editChild_object members segment (replaceAt value segments)
    rw [hchanged] at hedit
    have hchild := child?_beq hedit name
    rw [child?, hlookup] at hchild
    exact hchild
  | _ => cases htree

/-- The writes that lead to or below one member of the root. -/
def writesAt (name : String) (writes : List (DataPath × Option Json)) :
    List (DataPath × Option Json) :=
  writes.filter fun write => write.1.segments.head? = some name

/-- After any writes below the root, a member is what its own writes make of it. -/
theorem child?_replacedAll_beq {tree other : Json} {name : String} (htree : tree.isObject)
    (hother : other.isObject) (hsame : tree.child? name == other.child? name)
    {writes : List (DataPath × Option Json)} (hroot : ∀ write ∈ writes, write.1 ≠ .root) :
    (tree.replacedAll writes).child? name ==
      (other.replacedAll (writesAt name writes)).child? name := by
  induction writes generalizing tree other with
  | nil => exact hsame
  | cons write writes ih =>
    rw [List.forall_mem_cons] at hroot
    obtain ⟨⟨segments⟩, value⟩ := write
    cases segments with
    | nil => exact absurd rfl hroot.1
    | cons segment segments =>
      have hwritten := child?_updated_beq htree segment segments value name
      have hobject := isObject_updated htree hroot.1 value .replace
      rw [replacedAll_cons, writesAt, List.filter_cons]
      by_cases hname : name = segment
      · subst hname
        rw [if_pos rfl] at hwritten
        rw [if_pos (by simp), replacedAll_cons]
        refine ih hobject (isObject_updated hother hroot.1 value .replace) ?_ hroot.2
        have hpartner := child?_updated_beq hother name segments value name
        rw [if_pos rfl] at hpartner
        exact BEq.trans hwritten
          (BEq.trans (replaceAt_congr hsame value segments) (BEq.symm hpartner))
      · rw [if_neg hname] at hwritten
        rw [if_neg (by simpa using Ne.symm hname)]
        exact ih hobject hother (BEq.trans hwritten hsame) hroot.2

/-! ## Shallow merges -/

/-- Members with those of a body set, one after the other. -/
def overlay (members body : List (String × Json)) : List (String × Json) :=
  body.foldl (fun members member => insertMember member.1 member.2 members) members

theorem lookup_eq_none_of_not_mem {body : List (String × Json)} {name : String}
    (h : name ∉ body.map Prod.fst) : body.lookup name = none := by
  refine List.lookup_eq_none_iff.mpr fun member hmember => bne_iff_ne.mpr ?_
  have hname : member.1 ∈ body.map Prod.fst := List.mem_map_of_mem hmember
  exact fun hsame => h (hsame ▸ hname)

/-- A name reads as in the body if it is there, and else as before. -/
theorem lookup_overlay {body : List (String × Json)} (hbody : (body.map Prod.fst).Nodup)
    (members : List (String × Json)) (name : String) :
    (overlay members body).lookup name = (body.lookup name).or (members.lookup name) := by
  induction body generalizing members with
  | nil => rfl
  | cons member body ih =>
    obtain ⟨key, value⟩ := member
    rw [List.map_cons, List.nodup_cons] at hbody
    change (overlay (insertMember key value members) body).lookup name = _
    rw [ih hbody.2, lookup_insertMember, lookup_cons_eq_ite]
    by_cases hname : name = key
    · subst hname
      simp [lookup_eq_none_of_not_mem hbody.1]
    · rw [if_neg hname, if_neg hname]

end Json

namespace DataSource

/-- The writes of the members of a body, each at the path that its name spells. -/
def memberWrites (body : List (String × Json)) : List (DataPath × Option Json) :=
  body.map fun member => (.ofText member.1, some member.2)

theorem ne_root_of_mem_memberWrites (body : List (String × Json)) :
    ∀ write ∈ memberWrites body, write.1 ≠ .root := by
  intro write hwrite
  obtain ⟨member, -, rfl⟩ := List.mem_map.mp hwrite
  exact DataPath.ofText_ne_root member.1

/-- A name that no dotted name spells or leads into is written by the member of this name alone. -/
theorem writesAt_memberWrites {body : List (String × Json)} (hbody : (body.map Prod.fst).Nodup)
    {name : String} (hplain : ∀ member ∈ body, '.' ∈ member.1.toList →
      member.1 ≠ name ∧ (Dotted.split member.1).head? ≠ some name) :
    Json.writesAt name (memberWrites body) =
      (body.lookup name).toList.map fun value => (⟨[name]⟩, some value) := by
  induction body with
  | nil => rfl
  | cons member body ih =>
    obtain ⟨key, value⟩ := member
    rw [List.map_cons, List.nodup_cons] at hbody
    rw [List.forall_mem_cons] at hplain
    have hrest := ih hbody.2 hplain.2
    unfold Json.writesAt memberWrites at hrest ⊢
    rw [List.map_cons, List.filter_cons, hrest, Json.lookup_cons_eq_ite]
    by_cases hdot : '.' ∈ key.toList
    · obtain ⟨hne, hhead⟩ := hplain.1 hdot
      rw [if_neg (by simp [DataPath.ofText, hhead]), if_neg (Ne.symm hne)]
    · have hsplit : Dotted.split key = [key] := Dotted.split_of_not_mem hdot
      by_cases hname : name = key
      · subst hname
        rw [if_pos (by simp [DataPath.ofText, hsplit]), if_pos rfl,
          Json.lookup_eq_none_of_not_mem hbody.1]
        simp [DataPath.ofText, hsplit]
      · rw [if_neg (by simpa [DataPath.ofText, hsplit] using Ne.symm hname), if_neg hname]

/-- Such a name reads as in the body if it is there, and else as before. -/
theorem child?_replacedAll_memberWrites {tree : Json} (htree : tree.isObject)
    {body : List (String × Json)} (hbody : (body.map Prod.fst).Nodup) {name : String}
    (hplain : ∀ member ∈ body, '.' ∈ member.1.toList →
      member.1 ≠ name ∧ (Dotted.split member.1).head? ≠ some name) :
    (tree.replacedAll (memberWrites body)).child? name ==
      (body.lookup name).or (tree.child? name) := by
  have hsame : tree.child? name == tree.child? name := BEq.rfl
  have hown := Json.child?_replacedAll_beq htree htree hsame (ne_root_of_mem_memberWrites body)
  rw [writesAt_memberWrites hbody hplain] at hown
  cases hlookup : body.lookup name with
  | none =>
    rw [hlookup] at hown
    exact hown
  | some value =>
    rw [hlookup] at hown
    have hset := Json.child?_updated_beq htree name [] (some value) name
    rw [if_pos rfl] at hset
    exact BEq.trans hown hset

end DataSource

/-- A root store whose scope can be seen is open, and what is seen is its own scope. -/
theorem Target.of_scope_root {s : SharedStore} {scope : Scope}
    (h : (Target.root s).scope = .ok scope) : s.poisoned = false ∧ s.store.scope = scope := by
  rw [Target.scope, Target.store] at h
  cases hpoisoned : s.poisoned with
  | true =>
    rw [SharedStore.scope, SharedStore.access, if_pos hpoisoned] at h
    cases h
  | false =>
    rw [SharedStore.scope_of_open hpoisoned] at h
    exact ⟨rfl, Except.ok.inj h⟩

/-- **Merging at the root is a shallow merge of names without dots.** A body that is merged into a store
which holds an object is accepted, and leaves an object again. Each of its members is what the writes of
the body that lead to it make of the member before. A name that no dotted name of the body spells or
leads into reads as in the body if it is there, and else as before. So if no name of the body has a
dot, the tree equals the object with the members of the body set. -/
theorem merge_at_root {source : DataSource} (hmapping : source.dataMapping = none)
    (hpath : source.path = none) (engine : Engine) {s : SharedStore} {scope : Scope}
    (hscope : (Target.root s).scope = .ok scope) {members : List (String × Json)}
    (htree : s.store.tree = .object members) {body : List (String × Json)}
    (hbody : (body.map Prod.fst).Nodup) :
    ∃ outcome after merged,
      source.merge engine (.object body) (.ofGlobal scope) (.root s) =
        (.ok outcome, .root after) ∧
      after.store.tree = .object merged ∧
      (∀ name, merged.lookup name ==
        ((Json.object members).replacedAll
          (Json.writesAt name (DataSource.memberWrites body))).child? name) ∧
      (∀ name, (∀ member ∈ body, '.' ∈ member.1.toList →
          member.1 ≠ name ∧ (Dotted.split member.1).head? ≠ some name) →
        merged.lookup name == (body.lookup name).or (members.lookup name)) ∧
      ((∀ member ∈ body, '.' ∉ member.1.toList) →
        after.store.tree == .object (Json.overlay members body)) := by
  obtain ⟨hopen, rfl⟩ := Target.of_scope_root hscope
  obtain ⟨outcome, after, hmerge, hwrote⟩ := mergeMembers_wrote hopen body .unchanged
  have hobject : (Json.object members).isObject := rfl
  have hroot := DataSource.ne_root_of_mem_memberWrites body
  have hafter : after.store.tree =
      (Json.object members).replacedAll (DataSource.memberWrites body) := by
    rw [hwrote.tree, htree]
    rfl
  obtain ⟨merged, hmerged⟩ := Json.exists_of_isObject (Json.isObject_replacedAll hobject hroot)
  -- A member of the merged object is a child of the tree after all writes.
  have hread : ∀ name, merged.lookup name =
      ((Json.object members).replacedAll (DataSource.memberWrites body)).child? name := by
    intro name
    rw [hmerged]
    rfl
  have hplain : ∀ name, (∀ member ∈ body, '.' ∈ member.1.toList →
      member.1 ≠ name ∧ (Dotted.split member.1).head? ≠ some name) →
      merged.lookup name == (body.lookup name).or (members.lookup name) := by
    intro name hname
    rw [hread]
    exact DataSource.child?_replacedAll_memberWrites hobject hbody hname
  refine ⟨outcome, after, merged, ?_, hafter.trans hmerged, fun name => ?_, hplain, fun hdots => ?_⟩
  · unfold DataSource.merge
    rw [hmapping, hpath]
    exact hmerge
  · have hsame : (Json.object members).child? name == (Json.object members).child? name := BEq.rfl
    rw [hread]
    exact Json.child?_replacedAll_beq hobject hobject hsame hroot
  · rw [hafter, hmerged]
    refine Json.object_beq_object.mpr fun name => ?_
    rw [Json.lookup_overlay hbody]
    exact hplain name fun member hmember hdot => absurd hdot (hdots member hmember)

/-- One member of the body is new, one replaces an object, and one has a dotted name. -/
theorem merge_at_root_of_user :
    let members := [("user", Json.object [("name", .string "Ann")]), ("page", .bool true)]
    let body := [("user", Json.null), ("flags", .array []), ("draft.title", .string "")]
    let scope : Scope := ⟨.object members, "data"⟩
    let s : SharedStore := { store := { tree := .object members } }
    ∃ outcome after merged,
      DataSource.merge {} { transport := fun _ => .error .invalidDocument } (.object body)
          (.ofGlobal scope) (.root s) = (.ok outcome, .root after) ∧
      after.store.tree = .object merged ∧
      (∀ name, merged.lookup name ==
        ((Json.object members).replacedAll
          (Json.writesAt name (DataSource.memberWrites body))).child? name) ∧
      (∀ name, (∀ member ∈ body, '.' ∈ member.1.toList →
          member.1 ≠ name ∧ (Dotted.split member.1).head? ≠ some name) →
        merged.lookup name == (body.lookup name).or (members.lookup name)) ∧
      ((∀ member ∈ body, '.' ∉ member.1.toList) →
        after.store.tree == .object (Json.overlay members body)) := by
  intro members body scope s
  exact merge_at_root rfl rfl _ rfl rfl (by decide)

/-- A member whose name has a dot is lost as such: its value is found below the member of the first piece,
and no member has its name. -/
theorem merge_at_dotted_name :
    let merged := DataSource.merge {} { transport := fun _ => .error .invalidDocument }
      (.object [("a.b", .bool true)]) (.ofGlobal Store.empty.scope) (.root { store := .empty })
    merged.1 = .ok .applied ∧
      merged.2.store.store.tree = .object [("a", .object [("b", .bool true)])] ∧
      ¬ merged.2.store.store.tree == .object (Json.overlay [] [("a.b", .bool true)]) := by
  refine ⟨rfl, rfl, ?_⟩
  decide

end DataBinding
