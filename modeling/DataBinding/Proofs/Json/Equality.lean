import DataBinding.Json.Basic

/-!
# Equality of data values is an equivalence

`==` on data values forgets the order of members, so it is coarser than `=`: two equal objects may
list their members differently. It is still an equivalence, and it is what reading sees: two objects
are equal if and only if every name reads equally in both. No assumption on the names is needed,
because a repeated name is read through its first member on both sides.

* `object_beq_object`, `array_beq_array`: equality of containers is equality of what is read.
* `inductionOn`: induction over a value and its parts.
-/

namespace DataBinding

/-! ## Numbers -/

namespace Double

theorem beq_iff {x y : Double} :
    x == y ↔ x.rank = y.rank ∧ (x.negative = y.negative ∨ x.rank = 0) := by
  change Double.beq x y = true ↔ _
  simp [Double.beq]

instance : EquivBEq Double where
  rfl := beq_iff.mpr ⟨rfl, Or.inl rfl⟩
  symm h := by
    rw [beq_iff] at h ⊢
    exact ⟨h.1.symm, h.2.imp Eq.symm h.1.symm.trans⟩
  trans hxy hyz := by
    rw [beq_iff] at hxy hyz ⊢
    refine ⟨hxy.1.trans hyz.1, ?_⟩
    rcases hxy.2 with hsign | hzero
    · rcases hyz.2 with hsign' | hzero
      · exact Or.inl (hsign.trans hsign')
      · exact Or.inr (hxy.1.trans hzero)
    · exact Or.inr hzero

end Double

namespace Number

theorem integer_beq_integer {a b : Int} {ha hb} :
    Number.integer a ha == Number.integer b hb ↔ a = b := by
  change (a == b) = true ↔ _
  exact beq_iff_eq

theorem double_beq_double {x y : Double} : Number.double x == Number.double y ↔ x == y :=
  Iff.rfl

theorem integer_beq_double {a : Int} {ha} {x : Double} :
    (Number.integer a ha == Number.double x) = false := rfl

theorem double_beq_integer {a : Int} {ha} {x : Double} :
    (Number.double x == Number.integer a ha) = false := rfl

instance : EquivBEq Number where
  rfl {a} := by
    cases a with
    | integer a ha => exact integer_beq_integer.mpr rfl
    | double x => exact double_beq_double.mpr BEq.rfl
  symm {a b} h := by
    cases a with
    | integer a ha =>
      cases b with
      | integer b hb => exact integer_beq_integer.mpr (integer_beq_integer.mp h).symm
      | double y => cases integer_beq_double.symm.trans h
    | double x =>
      cases b with
      | integer b hb => cases double_beq_integer.symm.trans h
      | double y => exact double_beq_double.mpr (BEq.symm (double_beq_double.mp h))
  trans {a b c} hab hbc := by
    cases b with
    | integer b hb =>
      cases a with
      | double x => cases double_beq_integer.symm.trans hab
      | integer a ha =>
        cases integer_beq_integer.mp hab
        exact hbc
    | double y =>
      cases a with
      | integer a ha => cases integer_beq_double.symm.trans hab
      | double x =>
        cases c with
        | integer c hc => cases double_beq_integer.symm.trans hbc
        | double z =>
          exact double_beq_double.mpr
            (BEq.trans (double_beq_double.mp hab) (double_beq_double.mp hbc))

end Number

namespace Json

/-! ## Values by induction -/

theorem mem_of_lookup {name : String} {value : Json} {members : List (String × Json)}
    (h : members.lookup name = some value) : (name, value) ∈ members := by
  obtain ⟨front, back, rfl, -⟩ := List.lookup_eq_some_iff.mp h
  simp

/-- A property of all values follows from the one for the parts of arrays and objects. -/
theorem inductionOn {motive : Json → Prop} (null : motive .null)
    (bool : ∀ value, motive (.bool value)) (number : ∀ value, motive (.number value))
    (string : ∀ value, motive (.string value))
    (array : ∀ items : List Json, (∀ item ∈ items, motive item) → motive (.array items))
    (object : ∀ members : List (String × Json),
      (∀ name value, (name, value) ∈ members → motive value) → motive (.object members)) :
    ∀ value, motive value
  | .null => null
  | .bool value => bool value
  | .number value => number value
  | .string value => string value
  | .array items =>
    array items fun item _ => inductionOn null bool number string array object item
  | .object members =>
    object members fun _ value _ => inductionOn null bool number string array object value
termination_by value => sizeOf value
decreasing_by
  · rename_i hitem
    have := List.sizeOf_lt_of_mem hitem
    simp only [Json.array.sizeOf_spec]
    omega
  · rename_i hmember
    have := List.sizeOf_lt_of_mem hmember
    simp only [Prod.mk.sizeOf_spec] at this
    simp only [Json.object.sizeOf_spec]
    omega

/-! ## Equality by parts -/

attribute [simp] Json.beq Json.beqItems Json.beqMembers

theorem some_beq_iff {value : Json} {found : Option Json} :
    some value == found ↔ ∃ other, found = some other ∧ value == other := by
  cases found <;> simp

theorem beq_some_iff {value : Json} {found : Option Json} :
    found == some value ↔ ∃ other, found = some other ∧ other == value := by
  cases found <;> simp

theorem none_beq_iff {found : Option Json} : none == found ↔ found = none := by
  cases found <;> simp

/-- Two arrays are equal if they read equally at every index. -/
theorem array_beq_array {items others : List Json} :
    Json.array items == .array others ↔ ∀ index : Nat, items[index]? == others[index]? := by
  change Json.beqItems items others = true ↔ _
  induction items generalizing others with
  | nil =>
    cases others with
    | nil => simp
    | cons other others =>
      constructor
      · intro h
        cases h
      · intro h
        cases h 0
  | cons item items ih =>
    cases others with
    | nil =>
      constructor
      · intro h
        cases h
      · intro h
        cases h 0
    | cons other others =>
      rw [Json.beqItems, Bool.and_eq_true, ih]
      constructor
      · rintro ⟨hitem, hitems⟩ index
        cases index with
        | zero => exact hitem
        | succ index => exact hitems index
      · intro h
        exact ⟨h 0, fun index => h (index + 1)⟩

theorem beqMembers_cons {seen : List String} {name : String} {value : Json}
    {members others : List (String × Json)} :
    beqMembers seen ((name, value) :: members) others =
      ((seen.contains name || some value == others.lookup name) &&
        beqMembers (name :: seen) members others) := by
  rw [beqMembers]
  cases others.lookup name <;> rfl

/-- The members are compared by name, and the names in `seen` are passed over. -/
theorem beqMembers_iff {seen : List String} {members others : List (String × Json)} :
    beqMembers seen members others ↔
      ∀ name ∉ seen, ∀ value, members.lookup name = some value →
        some value == others.lookup name := by
  induction members generalizing seen with
  | nil => simp [beqMembers]
  | cons member members ih =>
    obtain ⟨first, firstValue⟩ := member
    rw [beqMembers_cons, Bool.and_eq_true, ih, Bool.or_eq_true, List.contains_iff_mem]
    constructor
    · rintro ⟨hhead, htail⟩ name hname value hvalue
      rw [lookup_cons_eq_ite] at hvalue
      split at hvalue
      · rename_i heq
        subst name
        cases hvalue
        exact hhead.resolve_left hname
      · rename_i hne
        exact htail name (by simp [hne, hname]) value hvalue
    · intro h
      constructor
      · by_cases hseen : first ∈ seen
        · exact Or.inl hseen
        · exact Or.inr (h first hseen firstValue (by simp))
      · intro name hname value hvalue
        rw [List.mem_cons, not_or] at hname
        exact h name hname.2 value (by rw [lookup_cons_eq_ite, if_neg hname.1, hvalue])

/-- Two objects are equal if they read equally under every name. -/
theorem object_beq_object {members others : List (String × Json)} :
    Json.object members == .object others ↔
      ∀ name, members.lookup name == others.lookup name := by
  change (beqMembers [] members others &&
    others.all (fun other => (members.lookup other.1).isSome)) = true ↔ _
  rw [Bool.and_eq_true, beqMembers_iff, List.all_eq_true]
  constructor
  · rintro ⟨hvalues, hnames⟩ name
    cases hname : members.lookup name with
    | some value => exact hvalues name (by simp) value hname
    | none =>
      rw [none_beq_iff]
      cases hother : others.lookup name with
      | none => rfl
      | some other =>
        have := hnames (name, other) (mem_of_lookup hother)
        rw [hname] at this
        cases this
  · intro h
    constructor
    · intro name _ value hvalue
      rw [← hvalue]
      exact h name
    · rintro ⟨name, other⟩ hmember
      cases hname : members.lookup name with
      | some value => rfl
      | none =>
        have := h name
        rw [hname, none_beq_iff, List.lookup_eq_none_iff] at this
        simpa using this (name, other) hmember

/-! ## What is equal to a value of a kind -/

theorem beq_def (value other : Json) : (value == other) = Json.beq value other := rfl

theorem null_beq_iff {other : Json} : .null == other ↔ other = .null := by
  rw [beq_def]
  cases other <;> simp

theorem bool_beq_iff {value : Bool} {other : Json} :
    .bool value == other ↔ other = .bool value := by
  rw [beq_def]
  cases other with
  | bool other =>
    rw [Json.beq, beq_iff_eq, Json.bool.injEq]
    exact eq_comm
  | _ => simp

theorem number_beq_iff {value : Number} {other : Json} :
    .number value == other ↔ ∃ number, other = .number number ∧ value == number := by
  rw [beq_def]
  cases other <;> simp

theorem string_beq_iff {value : String} {other : Json} :
    .string value == other ↔ other = .string value := by
  rw [beq_def]
  cases other with
  | string other =>
    rw [Json.beq, beq_iff_eq, Json.string.injEq]
    exact eq_comm
  | _ => simp

theorem array_beq_iff {items : List Json} {other : Json} :
    .array items == other ↔
      ∃ others, other = .array others ∧ ∀ index : Nat, items[index]? == others[index]? := by
  cases other with
  | array others => simp [array_beq_array]
  | _ => simp [beq_def]

theorem object_beq_iff {members : List (String × Json)} {other : Json} :
    .object members == other ↔
      ∃ others, other = .object others ∧ ∀ name, members.lookup name == others.lookup name := by
  cases other with
  | object others => simp [object_beq_object]
  | _ => simp [beq_def]

/-! ## The equivalence -/

protected theorem beq_rfl (value : Json) : value == value := by
  induction value using inductionOn with
  | null => exact null_beq_iff.mpr rfl
  | bool value => exact bool_beq_iff.mpr rfl
  | number value => exact number_beq_iff.mpr ⟨value, rfl, BEq.rfl⟩
  | string value => exact string_beq_iff.mpr rfl
  | array items ih =>
    refine array_beq_array.mpr fun index => ?_
    cases hitem : items[index]? with
    | none => rfl
    | some item => exact ih item (List.mem_of_getElem? hitem)
  | object members ih =>
    refine object_beq_object.mpr fun name => ?_
    cases hvalue : members.lookup name with
    | none => rfl
    | some value => exact ih name value (mem_of_lookup hvalue)

/-- What was found in two places can be swapped, if the values themselves can. -/
theorem found_beq_symm {found other : Option Json} (hfound : found == other)
    (hsymm : ∀ value, found = some value → ∀ partner, value == partner → partner == value) :
    other == found := by
  cases found with
  | none =>
    cases none_beq_iff.mp hfound
    rfl
  | some value =>
    obtain ⟨partner, rfl, heq⟩ := some_beq_iff.mp hfound
    exact hsymm value rfl partner heq

protected theorem beq_symm {value other : Json} (h : value == other) : other == value := by
  induction value using inductionOn generalizing other with
  | null =>
    cases null_beq_iff.mp h
    exact h
  | bool value =>
    cases bool_beq_iff.mp h
    exact h
  | number value =>
    obtain ⟨number, rfl, heq⟩ := number_beq_iff.mp h
    exact number_beq_iff.mpr ⟨value, rfl, BEq.symm heq⟩
  | string value =>
    cases string_beq_iff.mp h
    exact h
  | array items ih =>
    obtain ⟨others, rfl, hindex⟩ := array_beq_iff.mp h
    refine array_beq_array.mpr fun index => found_beq_symm (hindex index) ?_
    intro item hitem partner heq
    exact ih item (List.mem_of_getElem? hitem) heq
  | object members ih =>
    obtain ⟨others, rfl, hname⟩ := object_beq_iff.mp h
    refine object_beq_object.mpr fun name => found_beq_symm (hname name) ?_
    intro value hvalue partner heq
    exact ih name value (mem_of_lookup hvalue) heq

/-- Equal finds can be chained, if the values themselves can. -/
theorem found_beq_trans {found middle last : Option Json} (hfirst : found == middle)
    (hsecond : middle == last)
    (htrans : ∀ value, found = some value →
      ∀ partner final, value == partner → partner == final → value == final) :
    found == last := by
  cases found with
  | none =>
    cases none_beq_iff.mp hfirst
    exact hsecond
  | some value =>
    obtain ⟨partner, rfl, heq⟩ := some_beq_iff.mp hfirst
    obtain ⟨final, rfl, heq'⟩ := some_beq_iff.mp hsecond
    exact htrans value rfl partner final heq heq'

protected theorem beq_trans {value middle last : Json} (hfirst : value == middle)
    (hsecond : middle == last) : value == last := by
  induction value using inductionOn generalizing middle last with
  | null =>
    cases null_beq_iff.mp hfirst
    exact hsecond
  | bool value =>
    cases bool_beq_iff.mp hfirst
    exact hsecond
  | number value =>
    obtain ⟨number, rfl, heq⟩ := number_beq_iff.mp hfirst
    obtain ⟨final, rfl, heq'⟩ := number_beq_iff.mp hsecond
    exact number_beq_iff.mpr ⟨final, rfl, BEq.trans heq heq'⟩
  | string value =>
    cases string_beq_iff.mp hfirst
    exact hsecond
  | array items ih =>
    obtain ⟨others, rfl, hindex⟩ := array_beq_iff.mp hfirst
    obtain ⟨finals, rfl, hindex'⟩ := array_beq_iff.mp hsecond
    refine array_beq_array.mpr fun index => found_beq_trans (hindex index) (hindex' index) ?_
    intro item hitem partner final heq heq'
    exact ih item (List.mem_of_getElem? hitem) heq heq'
  | object members ih =>
    obtain ⟨others, rfl, hname⟩ := object_beq_iff.mp hfirst
    obtain ⟨finals, rfl, hname'⟩ := object_beq_iff.mp hsecond
    refine object_beq_object.mpr fun name => found_beq_trans (hname name) (hname' name) ?_
    intro value hvalue partner final heq heq'
    exact ih name value (mem_of_lookup hvalue) heq heq'

instance : EquivBEq Json where
  rfl {value} := Json.beq_rfl value
  symm := Json.beq_symm
  trans := Json.beq_trans

instance : EquivBEq (Option Json) where
  rfl {found} := by cases found <;> simp
  symm h := found_beq_symm h fun _ _ _ => BEq.symm
  trans h h' := found_beq_trans h h' fun _ _ _ _ => BEq.trans

end Json

end DataBinding
