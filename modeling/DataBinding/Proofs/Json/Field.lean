import DataBinding.Json.Record

/-!
# Fields that are read back

A record is read field by field, and each field has its own decoder, its own default, and its own way to
be left out. What was read is restored if the field is written so that the same decoder gives the same
value again.

* `Json.Restores`: a decoder and an encoder that fit together, for one value.
* `Restores.nullable`, `Restores.list`: values that may be `null`, and lists.
* `Restores.field?`, `field?_of_optional`: fields that are always written, and fields that are left out where
  there is no value.
* `isUnset_iff`: a field that may be `null` has no value if and only if it is missing or `null`.
* `Json.IsRecord`: a decoder that reads fields, and an encoder that writes fields which are read alike.
* `IsRecord.isRestored`: what was decoded is decoded again, and what is kept of the fields.
-/

namespace DataBinding.Json

variable {α : Type}

/-! ## One value -/

/-- What was decoded is decoded again from what is written for it, and `null` is written for nothing but
`null`. -/
structure Restores (decode : Json → Option α) (encode : α → Json) : Prop where
  back : ∀ {value : Json} {x : α}, decode value = some x → decode (encode x) = some x
  ne_null : ∀ {value : Json} {x : α}, decode value = some x → value ≠ .null → encode x ≠ .null

theorem restores_any : Restores some id where
  back _ := rfl
  ne_null h hset := Option.some.inj h ▸ hset

theorem restores_string : Restores string? .string where
  back _ := rfl
  ne_null _ _ := by simp

theorem string?_eq_some_iff {value : Json} {text : String} :
    value.string? = some text ↔ value = .string text := by
  cases value <;> simp [string?]

theorem restores_bool : Restores bool? .bool where
  back _ := rfl
  ne_null _ _ := by simp

theorem restores_members : Restores members? .object where
  back _ := rfl
  ne_null _ _ := by simp

theorem int32?_ofInt32 (n : Int32) : int32? (.number (.ofInt32 n)) = some n := by
  have hfits : (-0x80000000 ≤ n.toInt && n.toInt < 0x80000000) = true := by
    have hlow := n.le_toInt
    have hhigh := n.toInt_lt
    rw [Bool.and_eq_true, decide_eq_true_eq, decide_eq_true_eq]
    omega
  rw [int32?, Number.ofInt32, integer?, Option.filter_some, if_pos hfits, Option.map_some,
    Int32.ofInt_toInt]

theorem uint32?_ofUInt32 (n : UInt32) : uint32? (.number (.ofUInt32 n)) = some n := by
  have hfits : (0 ≤ (n.toNat : Int) && (n.toNat : Int) < 0x100000000) = true := by
    have hhigh := n.toNat_lt
    rw [Bool.and_eq_true, decide_eq_true_eq, decide_eq_true_eq]
    omega
  rw [uint32?, Number.ofUInt32, integer?, Option.filter_some, if_pos hfits, Option.map_some,
    Int.toNat_natCast, UInt32.ofNat_toNat]

theorem uint64?_ofUInt64 (n : UInt64) : uint64? (.number (.ofUInt64 n)) = some n := by
  have hfits : decide (0 ≤ (n.toNat : Int)) = true := decide_eq_true (by omega)
  rw [uint64?, Number.ofUInt64, integer?, Option.filter_some, if_pos hfits, Option.map_some,
    Int.toNat_natCast, UInt64.ofNat_toNat]

theorem restores_int32 : Restores int32? (.number <| .ofInt32 ·) where
  back {_ x} _ := int32?_ofInt32 x
  ne_null _ _ := by simp

theorem restores_uint32 : Restores uint32? (.number <| .ofUInt32 ·) where
  back {_ x} _ := uint32?_ofUInt32 x
  ne_null _ _ := by simp

theorem restores_uint64 : Restores uint64? (.number <| .ofUInt64 ·) where
  back {_ x} _ := uint64?_ofUInt64 x
  ne_null _ _ := by simp

section Combined

variable {decode : Json → Option α} {encode : α → Json} (h : Restores decode encode)

theorem nullable_of_ne_null (decode : Json → Option α) {value : Json} (hvalue : value ≠ .null) :
    nullable decode value = (decode value).map some := by
  cases value <;> first | rfl | exact absurd rfl hvalue

include h

theorem Restores.nullable : Restores (nullable decode) (ofNullable encode) where
  back {value x} hread := by
    cases x with
    | none => rfl
    | some y =>
      have hset : value ≠ .null := by
        rintro rfl
        cases hread
      rw [nullable_of_ne_null decode hset] at hread
      obtain ⟨_, hdecoded, heq⟩ := Option.map_eq_some_iff.mp hread
      cases heq
      rw [ofNullable, nullable_of_ne_null decode (h.ne_null hdecoded hset), h.back hdecoded]
      rfl
  ne_null {value x} hread hset := by
    rw [nullable_of_ne_null decode hset] at hread
    obtain ⟨y, hdecoded, rfl⟩ := Option.map_eq_some_iff.mp hread
    exact h.ne_null hdecoded hset

theorem Restores.mapM {items : List Json} {results : List α}
    (hread : items.mapM decode = some results) :
    (results.map encode).mapM decode = some results := by
  induction items generalizing results with
  | nil =>
    cases hread
    rfl
  | cons item items ih =>
    rw [List.mapM_cons] at hread
    obtain ⟨result, hresult, hread⟩ := Option.bind_eq_some_iff.mp hread
    obtain ⟨others, hothers, hread⟩ := Option.bind_eq_some_iff.mp hread
    cases hread
    rw [List.map_cons, List.mapM_cons, h.back hresult, ih hothers]
    rfl

theorem Restores.list :
    Restores (fun value => value.items?.bind (·.mapM decode))
      (fun results => .array (results.map encode)) where
  back hread := by
    obtain ⟨items, -, hitems⟩ := Option.bind_eq_some_iff.mp hread
    exact h.mapM hitems
  ne_null _ _ := by simp

end Combined

/-! ## Fields -/

section Field

variable {decode : Json → Option α} {encode : α → Json} {fields written : List (String × Json)}
  {name : String}

theorem field?_of_lookup {value : Json} (h : fields.lookup name = some value) (default : α)
    (decode : Json → Option α) : field? fields name default decode = decode value := by
  rw [field?, h]

theorem field?_of_missing (h : fields.lookup name = none) (default : α)
    (decode : Json → Option α) : field? fields name default decode = some default := by
  rw [field?, h]

/-- A field that is always written is read back, also where it was missing before. -/
theorem Restores.field? (h : Restores decode encode) {default x : α}
    (hdefault : decode (encode default) = some default)
    (hread : field? fields name default decode = some x)
    (hwritten : written.lookup name = some (encode x)) :
    field? written name default decode = some x := by
  rw [field?_of_lookup hwritten]
  cases hfield : fields.lookup name with
  | some value =>
    rw [field?_of_lookup hfield] at hread
    exact h.back hread
  | none =>
    rw [field?_of_missing hfield] at hread
    cases hread
    exact hdefault

/-- A field for any value, which is written only if there is one, is read back. -/
theorem field?_of_optional {x : Option Json}
    (hread : field? fields name none (nullable some) = some x)
    (hwritten : written.lookup name = x) :
    field? written name none (nullable some) = some x := by
  cases x with
  | none => exact field?_of_missing hwritten none _
  | some y => exact restores_any.nullable.field? rfl hread hwritten

/-- Missing, or `null`. -/
def IsUnset (found : Option Json) : Prop := found = none ∨ found = some .null

/-- A field that may be `null` has no value if and only if it is missing or `null`. -/
theorem isUnset_iff {x : Option α}
    (hread : field? fields name none (nullable decode) = some x) :
    IsUnset (fields.lookup name) ↔ x.isSome = false := by
  unfold IsUnset
  cases hfield : fields.lookup name with
  | none =>
    rw [field?_of_missing hfield] at hread
    cases hread
    simp
  | some value =>
    rw [field?_of_lookup hfield] at hread
    by_cases hvalue : value = .null
    · subst hvalue
      cases hread
      simp
    · rw [nullable_of_ne_null decode hvalue] at hread
      obtain ⟨y, -, rfl⟩ := Option.map_eq_some_iff.mp hread
      simp [hvalue]

theorem lookup_optionalMember (name : String) (value : Option Json) :
    (optionalMember name value).lookup name = value := by
  cases value <;> simp [optionalMember]

end Field

/-! ## Records -/

/-- A kind of payload with a written form that has fields: `fieldsOf` says which ones a value has, and
`readFrom` how they are read. What is written is an object whose fields are read alike. -/
structure IsRecord (decode : Json → Option α) (encode : α → Json)
    (fieldsOf : Json → Option (List (String × Json)))
    (readFrom : List (String × Json) → α → Prop) : Prop where
  fieldsOf_object : ∀ members, fieldsOf (.object members) = some members
  decode_iff : ∀ value x,
    decode value = some x ↔ ∃ fields, fieldsOf value = some fields ∧ readFrom fields x
  encode_eq : ∀ fields x, readFrom fields x →
    ∃ written, encode x = .object written ∧ readFrom written x

/-- What is kept of a payload `x` that was decoded from a value. It is decoded again from its written form.
In both there are the fields `exact` as they are listed, where one that is `null` differs from one that is
missing. And in both the fields `optional` are missing or `null` if and only if they are listed as being
without a value. -/
structure IsRestored (decode : Json → Option α) (encode : α → Json)
    (fieldsOf : Json → Option (List (String × Json))) (exact : List (String × Option Json))
    (optional : List (String × Bool)) (value : Json) (x : α) : Prop where
  decoded : decode (encode x) = some x
  exact_eq : ∀ field ∈ exact,
    (fieldsOf value).bind (·.lookup field.1) = field.2 ∧
      (fieldsOf (encode x)).bind (·.lookup field.1) = field.2
  isUnset_iff : ∀ field ∈ optional,
    (IsUnset ((fieldsOf value).bind (·.lookup field.1)) ↔ field.2 = false) ∧
      (IsUnset ((fieldsOf (encode x)).bind (·.lookup field.1)) ↔ field.2 = false)

namespace IsRecord

variable {decode : Json → Option α} {encode : α → Json}
  {fieldsOf : Json → Option (List (String × Json))} {readFrom : List (String × Json) → α → Prop}
  (h : IsRecord decode encode fieldsOf readFrom)

include h

theorem restores : Restores decode encode where
  back {value x} hread := by
    obtain ⟨fields, -, hfields⟩ := (h.decode_iff value x).mp hread
    obtain ⟨written, hwritten, hback⟩ := h.encode_eq fields x hfields
    rw [hwritten]
    exact (h.decode_iff _ x).mpr ⟨written, h.fieldsOf_object written, hback⟩
  ne_null {value x} hread _ := by
    obtain ⟨fields, -, hfields⟩ := (h.decode_iff value x).mp hread
    obtain ⟨written, hwritten, -⟩ := h.encode_eq fields x hfields
    rw [hwritten]
    simp

/-- What holds of all fields that are read as a payload holds of those it was decoded from, and of those
that are written. -/
theorem isRestored {exact : List (String × Option Json)} {optional : List (String × Bool)}
    {value : Json} {x : α} (hread : decode value = some x)
    (hexact : ∀ fields, readFrom fields x → ∀ field ∈ exact, fields.lookup field.1 = field.2)
    (hoptional : ∀ fields, readFrom fields x → ∀ field ∈ optional,
      (IsUnset (fields.lookup field.1) ↔ field.2 = false)) :
    IsRestored decode encode fieldsOf exact optional value x := by
  obtain ⟨fields, hvalue, hfields⟩ := (h.decode_iff value x).mp hread
  obtain ⟨written, hwritten, hback⟩ := h.encode_eq fields x hfields
  have hencoded : fieldsOf (encode x) = some written := by
    rw [hwritten, h.fieldsOf_object]
  refine ⟨h.restores.back hread, fun field hfield => ?_, fun field hfield => ?_⟩
  · rw [hvalue, hencoded]
    exact ⟨hexact fields hfields field hfield, hexact written hback field hfield⟩
  · rw [hvalue, hencoded]
    exact ⟨hoptional fields hfields field hfield, hoptional written hback field hfield⟩

end IsRecord

end DataBinding.Json
