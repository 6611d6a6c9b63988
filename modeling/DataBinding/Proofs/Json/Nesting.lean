import DataBinding.DataPath

/-!
# How deep a value is nested

The nesting of a value is the length of its longest descending path: a scalar has none, and a
container, even an empty one, has one level more than the deepest of its parts.

* `nesting_array_le`, `nesting_object_le`: a bound for the parts is a bound for the whole.
* `nesting_le_of_get?`: what is read in a value is not nested deeper than the value.
-/

namespace DataBinding.Json

mutual

/-- The number of containers on the longest way down. -/
def nesting : Json → Nat
  | .array items => nestingItems items + 1
  | .object members => nestingMembers members + 1
  | _ => 0

/-- The deepest nesting of an element. -/
def nestingItems : List Json → Nat
  | [] => 0
  | item :: items => max (nesting item) (nestingItems items)

/-- The deepest nesting of the value of a member. -/
def nestingMembers : List (String × Json) → Nat
  | [] => 0
  | (_, value) :: members => max (nesting value) (nestingMembers members)

end

theorem nestingItems_le_iff {items : List Json} {bound : Nat} :
    nestingItems items ≤ bound ↔ ∀ item ∈ items, item.nesting ≤ bound := by
  induction items with
  | nil => simp [nestingItems]
  | cons item items ih =>
    rw [nestingItems, Nat.max_le, ih, List.forall_mem_cons]

theorem nestingMembers_le_iff {members : List (String × Json)} {bound : Nat} :
    nestingMembers members ≤ bound ↔ ∀ member ∈ members, member.2.nesting ≤ bound := by
  induction members with
  | nil => simp [nestingMembers]
  | cons member members ih =>
    rw [nestingMembers, Nat.max_le, ih, List.forall_mem_cons]

theorem nesting_pos {value : Json} (h : value.isComposite) : 0 < value.nesting := by
  cases value with
  | array items => exact Nat.succ_pos _
  | object members => exact Nat.succ_pos _
  | _ => cases h

theorem nesting_array_le {items : List Json} {bound : Nat} :
    (Json.array items).nesting ≤ bound + 1 ↔ ∀ item ∈ items, item.nesting ≤ bound := by
  rw [nesting, Nat.add_le_add_iff_right, nestingItems_le_iff]

theorem nesting_object_le {members : List (String × Json)} {bound : Nat} :
    (Json.object members).nesting ≤ bound + 1 ↔ ∀ member ∈ members, member.2.nesting ≤ bound := by
  rw [nesting, Nat.add_le_add_iff_right, nestingMembers_le_iff]

theorem nesting_item_lt {items : List Json} {item : Json} (h : item ∈ items) :
    item.nesting < (Json.array items).nesting := by
  rw [nesting]
  exact Nat.lt_succ_of_le (nestingItems_le_iff.mp (Nat.le_refl _) item h)

theorem nesting_member_lt {members : List (String × Json)} {member : String × Json}
    (h : member ∈ members) : member.2.nesting < (Json.object members).nesting := by
  rw [nesting]
  exact Nat.lt_succ_of_le (nestingMembers_le_iff.mp (Nat.le_refl _) member h)

theorem nesting_lt_of_child? {value child : Json} {segment : String}
    (h : value.child? segment = some child) : child.nesting < value.nesting := by
  cases value with
  | object members =>
    obtain ⟨front, back, rfl, -⟩ := List.lookup_eq_some_iff.mp h
    exact nesting_member_lt (by simp : (segment, child) ∈ front ++ (segment, child) :: back)
  | array items =>
    obtain ⟨index, -, hitem⟩ := Option.bind_eq_some_iff.mp h
    exact nesting_item_lt (List.mem_of_getElem? hitem)
  | _ => cases h

/-- What is read in a value is not nested deeper than the value. -/
theorem nesting_le_of_get? {value found : Json} {segments : List String}
    (h : value.get? segments = some found) : found.nesting ≤ value.nesting := by
  induction segments generalizing value with
  | nil =>
    cases h
    exact Nat.le_refl _
  | cons segment segments ih =>
    obtain ⟨child, hchild, hfound⟩ := Option.bind_eq_some_iff.mp h
    exact Nat.le_trans (ih hfound) (Nat.le_of_lt (nesting_lt_of_child? hchild))

end DataBinding.Json
