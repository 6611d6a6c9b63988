import DataBinding.Mapping
import DataBinding.Proofs.Reference.AbsolutePath
import DataBinding.Proofs.Reference.Grammar

/-!
# Paths as text

A path is kept as its segments with dots between them. As a text may have any number of dots, each text is
the dotted form of a path already, and of one that has a segment: the empty text of the path of a
single empty segment. So the root, which has no segment, has no text of its own. It is written as the
empty text all the same, and what is read for that is another path.

A store reads the value at a path, a local reference names a value in the tree of its scope, and a mapping
takes a value out of a response. Each of them cuts a text up at its dots and goes down segment by
segment, in a way of its own. What they find is described here without a reader, by what the segments
lead to.

* `DataPath.foldl_push`: every path is made from the root by pushing its segments.
* `DataPath.ofText_text_iff`: which paths are read again from their text.
* `Json.spine`: a tree in which one path alone leads to `null`, so that paths are told apart by what trees
  hold at them (`DataPath.eq_of_at?_eq`).
* `DataPath.kept_as_text`: these together; `DataPath.root_lost_as_text` is about the root.
* `Json.LeadsTo`: the way from a value to a part of it, one segment a step; going down finds what the
  segments lead to (`Json.get?_eq_some_iff`).
* `BindingContext.lookup_parsed`, `SimpleMapping.retrieve_eq_ok_iff`: evaluator and mapping find the same,
  except that a mapping reads no empty location.
* `Json.at?_append_dot`: a location in two parts is read in two steps.
* `readers_agree`: the agreement of the three readers.
-/

namespace DataBinding

namespace DataPath

/-! ## Building paths -/

theorem foldl_push (path : DataPath) (segments : List String) :
    segments.foldl push path = ⟨path.segments ++ segments⟩ := by
  induction segments generalizing path with
  | nil => simp
  | cons segment segments ih =>
    rw [List.foldl_cons, ih, push, List.append_assoc]
    rfl

/-! ## Reading what was written -/

theorem ofText_text_iff {path : DataPath} :
    ofText path.text = path ↔
      path.segments ≠ [] ∧ ∀ segment ∈ path.segments, '.' ∉ segment.toList := by
  constructor
  · intro h
    have hsplit : Dotted.split path.text = path.segments := congrArg segments h
    rw [← hsplit]
    exact ⟨Dotted.split_ne_nil _, fun segment hsegment => Dotted.not_mem_of_mem_split hsegment⟩
  · rintro ⟨hne, hplain⟩
    exact congrArg mk (Dotted.split_join hne hplain)

end DataPath

/-! ## Telling paths apart -/

namespace Json

/-- Objects with a single member each, one in the other along a path, and `null` at its end. -/
def spine : List String → Json
  | [] => .null
  | segment :: segments => .object [(segment, spine segments)]

theorem get?_spine (segments : List String) : (spine segments).get? segments = some .null := by
  induction segments with
  | nil => rfl
  | cons segment segments ih =>
    rw [spine, get?, child?, lookup_cons_eq_ite, if_pos rfl]
    exact ih

/-- No other path leads to its end. -/
theorem eq_of_get?_spine {segments others : List String}
    (h : (spine segments).get? others = some .null) : others = segments := by
  induction segments generalizing others with
  | nil =>
    cases others with
    | nil => rfl
    | cons other others => cases h
  | cons segment segments ih =>
    cases others with
    | nil => cases h
    | cons other others =>
      rw [spine, get?, child?, lookup_cons_eq_ite] at h
      by_cases hother : other = segment
      · rw [if_pos hother] at h
        rw [hother, ih h]
      · rw [if_neg hother] at h
        cases h

end Json

namespace DataPath

/-- Paths at which all trees hold the same are the same. -/
theorem eq_of_at?_eq {path other : DataPath}
    (h : ∀ tree : Json, tree.at? other = tree.at? path) : other = path := by
  have hspine : (Json.spine path.segments).get? other.segments = some .null :=
    (h (Json.spine path.segments)).trans (Json.get?_spine path.segments)
  exact congrArg mk (Json.eq_of_get?_spine hspine)

/-- A path that is made from the root by pushing segments is read again from its text if and only if it
has a segment and no segment has a dot, and addresses the same place of every tree as before if and
only if it is read again. The root is no path of a text: what is read for it is the path of a single
empty segment. Every text is written again as it was read. -/
theorem kept_as_text :
    (∀ segments : List String,
      let path := segments.foldl push root
      (ofText path.text = path ↔
        segments ≠ [] ∧ ∀ segment ∈ segments, '.' ∉ segment.toList) ∧
      ((∀ tree : Json, tree.at? (ofText path.text) = tree.at? path) ↔ ofText path.text = path)) ∧
    (ofText root.text = root.push "" ∧ ∀ text, ofText text ≠ root) ∧
    ∀ text, (ofText text).text = text := by
  refine ⟨fun segments => ⟨?_, ?_⟩, ⟨rfl, ofText_ne_root⟩, text_ofText⟩
  · rw [foldl_push]
    exact ofText_text_iff
  · exact ⟨eq_of_at?_eq, fun h tree => by rw [h]⟩

/-- The root has no segment at all, and so none with a dot, but is not read again: where it addresses the
whole tree, the path of the empty segment addresses nothing. -/
theorem root_lost_as_text :
    let tree : Json := .object [("a", .null)]
    (∀ segment ∈ root.segments, '.' ∉ segment.toList) ∧ ofText root.text ≠ root ∧
      tree.at? root = some tree ∧ tree.at? (ofText root.text) = none :=
  ⟨by decide, ofText_ne_root _, rfl, rfl⟩

end DataPath

/-! ## The readers of dotted locations -/

namespace Json

/-- The segments lead from a value to a part of it: in an object each segment is the name of a member, and
in an array it denotes the index of an element. -/
inductive LeadsTo : Json → List String → Json → Prop where
  | here {value : Json} : LeadsTo value [] value
  | member {members : List (String × Json)} {name : String} {child value : Json}
      {segments : List String} (hmember : members.lookup name = some child)
      (hbelow : child.LeadsTo segments value) : LeadsTo (.object members) (name :: segments) value
  | element {items : List Json} {segment : String} {index : Nat} {item value : Json}
      {segments : List String} (hindex : Text.arrayIndex? segment = some index)
      (hitem : items[index]? = some item) (hbelow : item.LeadsTo segments value) :
      LeadsTo (.array items) (segment :: segments) value

variable {tree value : Json} {segments : List String}

theorem LeadsTo.get?_eq (h : tree.LeadsTo segments value) : tree.get? segments = some value := by
  induction h with
  | here => rfl
  | member hmember _ ih =>
    rw [get?, child?, hmember]
    exact ih
  | element hindex hitem _ ih =>
    rw [get?, child?, hindex, Option.bind_some, hitem]
    exact ih

theorem leadsTo_of_get?_eq (h : tree.get? segments = some value) :
    tree.LeadsTo segments value := by
  induction segments generalizing tree with
  | nil =>
    cases h
    exact .here
  | cons segment segments ih =>
    obtain ⟨child, hchild, hbelow⟩ := Option.bind_eq_some_iff.mp h
    cases tree with
    | object members => exact .member hchild (ih hbelow)
    | array items =>
      obtain ⟨index, hindex, hitem⟩ := Option.bind_eq_some_iff.mp hchild
      exact .element hindex hitem (ih hbelow)
    | _ => cases hchild

theorem get?_eq_some_iff : tree.get? segments = some value ↔ tree.LeadsTo segments value :=
  ⟨leadsTo_of_get?_eq, LeadsTo.get?_eq⟩

/-- The second part is read in what the first part leads to. -/
theorem at?_append_dot (tree : Json) (front back : String) :
    tree.at? (.ofText (front ++ "." ++ back)) =
      (tree.at? (.ofText front)).bind (·.at? (.ofText back)) := by
  change tree.get? (Dotted.split (front ++ "." ++ back)) = _
  rw [Dotted.split_append, get?_append]
  rfl

end Json

/-- A local reference names what the tree of the local scope holds at its path. -/
theorem BindingContext.lookup_parsed (ctx : BindingContext) (location : String) :
    (Reference.parse? ("~." ++ location)).map ctx.lookup =
      some (.ok (ctx.localScope.tree.at? (.ofText location))) := by
  have hread : Reference.parse? ("~." ++ location) = some (.localPath location) :=
    Reference.parse?_eq_some_iff.mpr ⟨trivial, rfl⟩
  rw [hread, Option.map_some, lookup_localPath]
  rfl

theorem SimpleMapping.retrieve_eq_ok_iff {response value : Json} {location : String} :
    retrieve response location = .ok value ↔
      location ≠ "" ∧ response.at? (.ofText location) = some value := by
  by_cases hempty : location = ""
  · simp [hempty, retrieve]
  · have hfound : response.get? (Dotted.split location) = response.at? (.ofText location) := rfl
    rw [retrieve_eq hempty, hfound]
    cases response.at? (.ofText location) <;> simp [hempty]

/-- The readers of dotted locations agree and compose. Whatever the text, the store reads in a tree what a
local reference names in a scope over that tree, and a mapping reads it too unless the text is empty:
the value to which the segments of the text lead, or nothing if they lead nowhere. A location in two
parts is read in two steps, and not at all if its first part is not. -/
theorem readers_agree (tree : Json) :
    (∀ (location path : String) (globalScope : Scope),
      (Reference.parse? ("~." ++ location)).map
          (BindingContext.lookup ⟨⟨tree, path⟩, globalScope⟩) =
        some (.ok (tree.at? (.ofText location)))) ∧
    (∀ location value, SimpleMapping.retrieve tree location = .ok value ↔
      location ≠ "" ∧ tree.at? (.ofText location) = some value) ∧
    (∀ location value, tree.at? (.ofText location) = some value ↔
      tree.LeadsTo (Dotted.split location) value) ∧
    ∀ front back : String, tree.at? (.ofText (front ++ "." ++ back)) =
      (tree.at? (.ofText front)).bind (·.at? (.ofText back)) :=
  ⟨fun location path globalScope =>
      BindingContext.lookup_parsed ⟨⟨tree, path⟩, globalScope⟩ location,
    fun _ _ => SimpleMapping.retrieve_eq_ok_iff, fun _ _ => Json.get?_eq_some_iff,
    tree.at?_append_dot⟩

end DataBinding
