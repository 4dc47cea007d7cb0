import RecordSchema.Proofs.Document.Grammar
import RecordSchema.Proofs.Result
import RecordSchema.Schema.FromValue

/-!
# What values say as fields

A field decides in which role its value is read, `FieldValue.role`, and what has been read
is kept in a draft, `SpecDraft.set`. In each role a value says just what the grammar lets
it say, if values below it are read as what they are documents of.

Main statements: `Json.role_eq_ok_iff` for a value, and `SpecDraft.fields_eq_ok_iff` for the
fields that a draft comes to.
-/

namespace RecordSchema

/-! ## Names of fields -/

namespace SpecField

theorem ofName?_eq_some_iff {name : String} {field : SpecField} :
    ofName? name = some field ↔ name = field.name := by
  constructor
  · intro h
    have hname := List.find?_some h
    exact (beq_iff_eq.mp hname).symm
  · rintro rfl
    exact ofName?_name field

theorem name_injective : Function.Injective name := by
  intro field field' h
  have hname := ofName?_name field
  rw [h, ofName?_name] at hname
  exact (Option.some.inj hname).symm

theorem position_injective : Function.Injective position := by
  intro field field' h
  cases field <;> cases field' <;> first | rfl | cases h

theorem position_lt (field : SpecField) : field.position < 8 := by
  cases field <;> decide

/-- The field of a position. -/
theorem all_eq_some_iff {position : Nat} {field : SpecField} :
    all[position]? = some field ↔ position = field.position := by
  have hposition : all[field.position]? = some field := by cases field <;> rfl
  constructor
  · intro h
    obtain ⟨hlt, -⟩ := List.getElem?_eq_some_iff.mp h
    exact (List.getElem?_inj hlt (by decide)).mp (h.trans hposition.symm)
  · rintro rfl
    exact hposition

end SpecField

theorem SpecFields.ext_get {fields fields' : SpecFields}
    (h : ∀ field, fields.get field = fields'.get field) : fields = fields' := by
  obtain ⟨type, required, minLength, isInteger, startsWith, properties, items, transforms⟩ := fields
  obtain ⟨⟩ := fields'
  cases h .type
  cases h .required
  cases h .minLength
  cases h .isInteger
  cases h .startsWith
  cases h .properties
  cases h .items
  cases h .transform
  rfl

/-- What a value says in the role of a field. -/
def FieldValue.role {ε : Type} (value : FieldValue ε) :
    (field : SpecField) → Logged ε field.Meaning
  | .type => Logged.ofExcept value.text
  | .required => Logged.ofExcept value.flag
  | .minLength => value.orNull fun _ => Logged.ofExcept value.length
  | .isInteger => value.orNull fun _ => Logged.ofExcept value.flag
  | .startsWith => value.orNull fun _ => Logged.ofExcept value.text
  | .properties => value.orNull value.properties
  | .items => value.orNull value.spec
  | .transform => Logged.ofExcept value.transforms

/-! ## Drafts -/

namespace SpecDraft

/-- What has been read of a field. -/
def slot (draft : SpecDraft) : (field : SpecField) → Option field.Meaning
  | .type => draft.type
  | .required => draft.required
  | .minLength => draft.minLength
  | .isInteger => draft.isInteger
  | .startsWith => draft.startsWith
  | .properties => draft.properties
  | .items => draft.items
  | .transform => draft.transforms

/-- The draft with what has been read of one more field. -/
def set (draft : SpecDraft) : (field : SpecField) → field.Meaning → SpecDraft
  | .type, meaning => { draft with type := some meaning }
  | .required, meaning => { draft with required := some meaning }
  | .minLength, meaning => { draft with minLength := some meaning }
  | .isInteger, meaning => { draft with isInteger := some meaning }
  | .startsWith, meaning => { draft with startsWith := some meaning }
  | .properties, meaning => { draft with properties := some meaning }
  | .items, meaning => { draft with items := some meaning }
  | .transform, meaning => { draft with transforms := some meaning }

@[simp] theorem slot_empty (field : SpecField) : empty.slot field = none := by
  cases field <;> rfl

@[simp] theorem slot_set_self (draft : SpecDraft) (field : SpecField) (meaning : field.Meaning) :
    (draft.set field meaning).slot field = some meaning := by
  cases field <;> rfl

theorem slot_set_of_ne (draft : SpecDraft) {field other : SpecField} (meaning : field.Meaning)
    (h : other ≠ field) : (draft.set field meaning).slot other = draft.slot other := by
  cases field <;> cases other <;> first | rfl | exact absurd rfl h

theorem has_eq_isSome_slot (draft : SpecDraft) (field : SpecField) :
    draft.has field = (draft.slot field).isSome := by
  cases field <;> rfl

/-- A draft gives the fields that have been read, and what is meant by leaving out the
others. -/
theorem fields_eq_ok_iff {draft : SpecDraft} {fields : SpecFields} :
    draft.fields = .ok fields ↔
      ∀ field : SpecField, (draft.slot field).or field.default? = some (fields.get field) := by
  obtain ⟨type, required, minLength, isInteger, startsWith, properties, items, transforms⟩ := draft
  cases type with
  | none =>
      refine iff_of_false (by rintro ⟨⟩) fun h => ?_
      cases h .type
  | some type =>
      have hget : ∀ field : SpecField,
          ((⟨some type, required, minLength, isInteger, startsWith, properties, items,
            transforms⟩ : SpecDraft).slot field).or field.default? =
          some (SpecFields.get ⟨type, required.getD true, minLength.getD none,
            isInteger.getD none, startsWith.getD none, properties.getD none, items.getD none,
            transforms.getD []⟩ field) := by
        intro field
        cases field <;> first | rfl | exact Option.or_some
      rw [SpecDraft.fields, Except.ok.injEq]
      constructor
      · rintro rfl
        exact hget
      · exact fun h => SpecFields.ext_get fun field =>
          Option.some.inj ((hget field).symm.trans (h field))

/-- Reading a field sets it to what the value says in the role of the field. -/
theorem read_eq {ε : Type} (draft : SpecDraft) (value : FieldValue ε) (field : SpecField) :
    draft.read value field = (value.role field).bind fun meaning =>
      Logged.ok (draft.set field meaning) := by
  cases field <;> rfl

end SpecDraft

/-! ## Values of fields -/

namespace Json

theorem asString_eq_ok_iff {value : Json} {text : String} :
    value.asString = .ok text ↔ value = .string text := by
  cases value <;> simp [asString]

theorem asBool_eq_ok_iff {value : Json} {flag : Bool} :
    value.asBool = .ok flag ↔ value = .boolean flag := by
  cases value <;> simp [asBool]

theorem asUnit_eq_ok_iff {value : Json} : value.asUnit = .ok () ↔ value = .null := by
  cases value <;> simp [asUnit]

/-- A length is an integer that is not negative. -/
theorem asLength_eq_ok_iff {value : Json} {length : UInt64} :
    value.asLength = .ok length ↔
      ∃ n : Integer, value = .number (.integer n) ∧ n.value = length.toNat := by
  cases value with
  | number number =>
      cases number with
      | float x => simp [asLength, Number.asLength]
      | integer n =>
          have hlength : n.toLength? = some length ↔ n.value = length.toNat := by
            rw [Integer.toLength?]
            constructor
            · intro h
              split at h
              · cases h
              · cases h
                rw [UInt64.toNat_ofNat']
                have := n.upper
                omega
            · intro h
              rw [if_neg (by omega), h, Int.toNat_natCast, UInt64.ofNat_toNat]
          rw [asLength, Number.asLength]
          simp only [number.injEq, Number.integer.injEq, exists_eq_left', ← hlength]
          cases n.toLength? <;> simp
  | _ => simp [asLength]

theorem choose_eq_ok_iff {name : String} {transform : Transform} :
    choose Transform.ofName? Transform.names name = .ok transform ↔ name = transform.name := by
  have hname : Transform.ofName? name = some transform ↔ name = transform.name := by
    constructor
    · intro h
      have hmatch := List.find?_some h
      exact (beq_iff_eq.mp hmatch).symm
    · rintro rfl
      exact Transform.ofName?_name transform
  rw [← hname, choose]
  cases Transform.ofName? name <;> simp

/-- A value that chooses a transform is a document of it. -/
theorem asChoice_eq_ok_iff {value : Json} {transform : Transform} :
    value.asChoice Transform.ofName? Transform.names = .ok transform ↔
      TransformDocument value transform := by
  constructor
  · intro h
    rw [asChoice.eq_def] at h
    split at h
    · rw [choose_eq_ok_iff] at h
      subst h
      exact .name transform
    · obtain ⟨chosen, hchosen, h⟩ := Except.bind_eq_ok_iff.mp h
      obtain ⟨⟨⟩, hunit, h⟩ := Except.bind_eq_ok_iff.mp h
      cases h
      rw [choose_eq_ok_iff] at hchosen
      subst hchosen
      rw [asUnit_eq_ok_iff.mp hunit]
      exact .member transform
    · cases h
    · cases h
  · intro h
    have hchosen := choose_eq_ok_iff.mpr (Eq.refl transform.name)
    cases h with
    | name => exact hchosen
    | member =>
        rw [asChoice, hchosen]
        rfl

theorem asTransforms_eq_ok_iff {value : Json} {transforms : List Transform} :
    value.asTransforms = .ok transforms ↔
      ∃ elements, value = .array elements ∧ List.Forall₂ TransformDocument elements transforms := by
  cases value with
  | array elements =>
      simp only [asTransforms, Except.mapM_eq_ok_iff, asChoice_eq_ok_iff, array.injEq,
        exists_eq_left']
  | _ => simp [asTransforms]

/-- What a value reads as, wherever it may stand as a field. -/
def asField (value : Json) : FieldValue ContentError :=
  value.fieldValue (fun _ => value.propertySet) fun _ => value.propertySpec

/-- A role that null may take is taken by null, which says nothing, or by another value. -/
theorem orNull_eq_ok_iff {α : Type} {value : Json} {read : Unit → Logged ContentError α}
    {x : Option α} :
    (value.asField.orNull read).outcome = .ok x ↔
      (value = .null ∧ x = none) ∨
        (value ≠ .null ∧ ∃ y, (read ()).outcome = .ok y ∧ x = some y) := by
  have hread : (((read ()).bind fun y => Logged.ok (some y)).outcome = .ok x ↔
      ∃ y, (read ()).outcome = .ok y ∧ x = some y) := by
    rw [Logged.outcome_bind]
    refine Except.bind_eq_ok_iff.trans (exists_congr fun y => and_congr_right fun _ => ?_)
    rw [Logged.ok, Except.ok.injEq, eq_comm]
  cases value with
  | null =>
      change Except.ok none = Except.ok x ↔ _
      simp [eq_comm]
  | _ => exact hread.trans (by simp)

/-- A value is read as a property, or as a set of properties, if it is a document of one. -/
structure ReadsDocuments (value : Json) : Prop where
  spec : ∀ spec, value.propertySpec.outcome = .ok spec ↔ SpecDocument value spec
  set : ∀ set, value.propertySet.outcome = .ok set ↔ SetDocument value set

/-- A value says in the role of a field what it is a document of. -/
theorem role_eq_ok_iff {value : Json} (h : value.ReadsDocuments) {field : SpecField}
    {meaning : field.Meaning} :
    (value.asField.role field).outcome = .ok meaning ↔ FieldDocument field value meaning := by
  cases field with
  | type =>
      refine asString_eq_ok_iff.trans ⟨?_, ?_⟩
      · rintro rfl
        exact .type _
      · rintro ⟨⟩
        rfl
  | required =>
      refine asBool_eq_ok_iff.trans ⟨?_, ?_⟩
      · rintro rfl
        exact .required _
      · rintro ⟨⟩
        rfl
  | minLength =>
      refine orNull_eq_ok_iff.trans ⟨?_, ?_⟩
      · rintro (⟨rfl, rfl⟩ | ⟨-, length, hlength, rfl⟩)
        · exact .noMinLength
        · obtain ⟨n, rfl, hn⟩ := asLength_eq_ok_iff.mp hlength
          exact .minLength hn
      · intro hdocument
        cases hdocument with
        | noMinLength => exact .inl ⟨rfl, rfl⟩
        | minLength hn => exact .inr ⟨by simp, _, asLength_eq_ok_iff.mpr ⟨_, rfl, hn⟩, rfl⟩
  | isInteger =>
      refine orNull_eq_ok_iff.trans ⟨?_, ?_⟩
      · rintro (⟨rfl, rfl⟩ | ⟨-, flag, hflag, rfl⟩)
        · exact .noIsInteger
        · cases asBool_eq_ok_iff.mp hflag
          exact .isInteger flag
      · intro hdocument
        cases hdocument with
        | noIsInteger => exact .inl ⟨rfl, rfl⟩
        | isInteger flag => exact .inr ⟨by simp, flag, rfl, rfl⟩
  | startsWith =>
      refine orNull_eq_ok_iff.trans ⟨?_, ?_⟩
      · rintro (⟨rfl, rfl⟩ | ⟨-, start, hstart, rfl⟩)
        · exact .noStartsWith
        · cases asString_eq_ok_iff.mp hstart
          exact .startsWith start
      · intro hdocument
        cases hdocument with
        | noStartsWith => exact .inl ⟨rfl, rfl⟩
        | startsWith start => exact .inr ⟨by simp, start, rfl, rfl⟩
  | properties =>
      refine orNull_eq_ok_iff.trans ⟨?_, ?_⟩
      · rintro (⟨rfl, rfl⟩ | ⟨-, set, hset, rfl⟩)
        · exact .noProperties
        · exact .properties ((h.set set).mp hset)
      · intro hdocument
        cases hdocument with
        | noProperties => exact .inl ⟨rfl, rfl⟩
        | properties hset =>
            refine .inr ⟨?_, _, (h.set _).mpr hset, rfl⟩
            cases hset
            simp
  | items =>
      refine orNull_eq_ok_iff.trans ⟨?_, ?_⟩
      · rintro (⟨rfl, rfl⟩ | ⟨-, spec, hspec, rfl⟩)
        · exact .noItems
        · exact .items ((h.spec spec).mp hspec)
      · intro hdocument
        cases hdocument with
        | noItems => exact .inl ⟨rfl, rfl⟩
        | items hspec =>
            refine .inr ⟨?_, _, (h.spec _).mpr hspec, rfl⟩
            cases hspec <;> simp
  | transform =>
      refine asTransforms_eq_ok_iff.trans ⟨?_, ?_⟩
      · rintro ⟨elements, rfl, helements⟩
        exact .transform helements
      · intro hdocument
        cases hdocument with
        | transform helements => exact ⟨_, rfl, helements⟩

/-- A field is read by setting it to what the value says. -/
theorem read_eq_ok_iff {value : Json} (h : value.ReadsDocuments) {draft draft' : SpecDraft}
    {field : SpecField} :
    (draft.read value.asField field).outcome = .ok draft' ↔
      ∃ meaning, FieldDocument field value meaning ∧ draft' = draft.set field meaning := by
  rw [SpecDraft.read_eq, Logged.outcome_bind]
  refine Except.bind_eq_ok_iff.trans (exists_congr fun meaning => ?_)
  rw [role_eq_ok_iff h, Logged.ok, Except.ok.injEq, eq_comm]

end Json

end RecordSchema
