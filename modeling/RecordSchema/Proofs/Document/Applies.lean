import RecordSchema.Proofs.Document.Accept

/-!
# What a property's document depends on

A property depends on the fields that apply to its type. Two documents that give these
alike are documents of the same property, whatever else they give and in either form; and
a document stays one if members that are no fields come or go, if fields that do not apply
come or go with values of their kinds, or if its members change places.

Main statement: `Schema.ofValue_reads_documents`, together with which values are
documents at all.
-/

namespace RecordSchema

/-! ## Fields that apply -/

namespace SpecFields

variable {fields fields' : SpecFields} {spec spec' : PropertySpec}

/-- The name of the type of a property is the type that its fields give. -/
theorem Describes.type_name (h : fields.Describes spec) : spec.type.name = fields.type := by
  obtain ⟨type, required, transforms⟩ := spec
  cases h.hasType with
  | string htype => exact htype.symm
  | number htype => exact htype.symm
  | boolean htype => exact htype.symm
  | object htype _ => exact htype.symm
  | array htype _ => exact htype.symm
  | named _ => rfl

theorem Describes.unique (h : fields.Describes spec) (h' : fields.Describes spec') :
    spec = spec' := by
  have hread := toSpec_eq_ok_iff.mpr h
  rw [toSpec_eq_ok_iff.mpr h', Except.ok.injEq] at hread
  exact hread.symm

/-- Fields that apply to the type are what a property depends on. -/
theorem Describes.congr (h : fields.Describes spec)
    (hget : ∀ field : SpecField, field.AppliesTo spec.type.name →
      fields'.get field = fields.get field) : fields'.Describes spec := by
  rw [h.type_name] at hget
  have htype : fields'.type = fields.type := hget .type trivial
  have hrequired : fields'.required = fields.required := hget .required trivial
  have htransforms : fields'.transforms = fields.transforms := hget .transform trivial
  refine ⟨?_, h.required.trans hrequired.symm, h.transforms.trans htransforms.symm⟩
  obtain ⟨type, required, transforms⟩ := spec
  have hasType := h.hasType
  dsimp only at hasType ⊢
  cases hasType with
  | string hname =>
      have hminLength : fields'.minLength = fields.minLength := hget .minLength (.inl hname)
      have hstartsWith : fields'.startsWith = fields.startsWith := hget .startsWith hname
      rw [← hminLength, ← hstartsWith]
      exact .string (htype.trans hname)
  | number hname =>
      have hisInteger : fields'.isInteger = fields.isInteger := hget .isInteger hname
      rw [← hisInteger]
      exact .number (htype.trans hname)
  | boolean hname => exact .boolean (htype.trans hname)
  | object hname hproperties =>
      have hget' : fields'.properties = fields.properties := hget .properties hname
      exact .object (htype.trans hname) (hget'.trans hproperties)
  | array hname hitems =>
      have hminLength : fields'.minLength = fields.minLength := hget .minLength (.inr hname)
      have hget' : fields'.items = fields.items := hget .items hname
      rw [← hminLength]
      exact .array (htype.trans hname) (hget'.trans hitems)
  | named hname =>
      rw [← htype] at hname ⊢
      exact .named hname

/-- The fields with these meanings. -/
def ofMeanings (meaning : (field : SpecField) → field.Meaning) : SpecFields where
  type := meaning .type
  required := meaning .required
  minLength := meaning .minLength
  isInteger := meaning .isInteger
  startsWith := meaning .startsWith
  properties := meaning .properties
  items := meaning .items
  transforms := meaning .transform

@[simp] theorem get_ofMeanings (meaning : (field : SpecField) → field.Meaning)
    (field : SpecField) : (ofMeanings meaning).get field = meaning field := by
  cases field <;> rfl

end SpecFields

/-- Every field but the type may be left out. -/
theorem SpecField.exists_default {field : SpecField} {typeName : String}
    (h : ¬ field.AppliesTo typeName) : ∃ meaning, field.default? = some meaning := by
  cases field with
  | type => exact absurd trivial h
  | _ => exact ⟨_, rfl⟩

/-! ## What a document gives -/

/-- A value says one thing as a field. -/
theorem FieldDocument.unique {field : SpecField} {value : Json} {meaning meaning' : field.Meaning}
    (h : FieldDocument field value meaning) (h' : FieldDocument field value meaning') :
    meaning = meaning' := by
  have hread := (Json.role_eq_ok_iff value.readsDocuments).mpr h
  rw [(Json.role_eq_ok_iff value.readsDocuments).mpr h', Except.ok.injEq] at hread
  exact hread.symm

theorem GivenDocument.unique {field : SpecField} {given : Option Json}
    {meaning meaning' : field.Meaning} (h : GivenDocument field given meaning)
    (h' : GivenDocument field given meaning') : meaning = meaning' := by
  cases h with
  | given hdocument =>
      cases h' with
      | given hdocument' => exact hdocument.unique hdocument'
  | leftOut hdefault =>
      cases h' with
      | leftOut hdefault' => exact Option.some.inj (hdefault.symm.trans hdefault')

/-- What a property's document gives for a field: the member of its name, or the element
at its position. -/
def Json.field? : Json → SpecField → Option Json
  | .object members, field => Entries.get? members field.name
  | .array elements, field => elements[field.position]?
  | _, _ => none

theorem SpecDocument.exists_fields {value : Json} {spec : PropertySpec}
    (h : SpecDocument value spec) :
    ∃ fields : SpecFields, (∀ field, GivenDocument field (value.field? field) (fields.get field)) ∧
      fields.Describes spec := by
  cases h with
  | object _ hgiven hdescribes => exact ⟨_, hgiven, hdescribes⟩
  | array _ hgiven hdescribes => exact ⟨_, hgiven, hdescribes⟩

/-- Documents that give the fields that apply alike are documents of the same property. -/
theorem SpecDocument.unique_of_applies {value value' : Json} {spec spec' : PropertySpec}
    (h : SpecDocument value spec) (h' : SpecDocument value' spec')
    (hfield : ∀ field : SpecField, field.AppliesTo spec.type.name →
      value.field? field = value'.field? field) : spec = spec' := by
  obtain ⟨fields, hgiven, hdescribes⟩ := h.exists_fields
  obtain ⟨fields', hgiven', hdescribes'⟩ := h'.exists_fields
  have hcongr : fields'.Describes spec := hdescribes.congr fun field happlies => by
    have hsame := hgiven' field
    rw [← hfield field happlies] at hsame
    exact hsame.unique (hgiven field)
  exact hcongr.unique hdescribes'

/-- An object stays a document of a property if the fields that apply stay as they are, the
known names stay distinct, and other fields have values of their kinds. -/
theorem SpecDocument.of_applies {members members' : Entries Json} {spec : PropertySpec}
    (h : SpecDocument (.object members) spec)
    (hnodup : (members'.names.filter fun name => (SpecField.ofName? name).isSome).Nodup)
    (hfield : ∀ field : SpecField, field.AppliesTo spec.type.name →
      Entries.get? members' field.name = Entries.get? members field.name)
    (hother : ∀ field : SpecField, ¬ field.AppliesTo spec.type.name →
      ∀ value, Entries.get? members' field.name = some value →
        ∃ meaning, FieldDocument field value meaning) :
    SpecDocument (.object members') spec := by
  obtain ⟨fields, hgiven, hdescribes⟩ := h.exists_fields
  have hmeaning : ∀ field : SpecField, ∃ meaning : field.Meaning,
      GivenDocument field (Entries.get? members' field.name) meaning ∧
        (field.AppliesTo spec.type.name → meaning = fields.get field) := by
    intro field
    by_cases happlies : field.AppliesTo spec.type.name
    · rw [hfield field happlies]
      exact ⟨fields.get field, hgiven field, fun _ => rfl⟩
    · cases hget : Entries.get? members' field.name with
      | none =>
          obtain ⟨meaning, hdefault⟩ := SpecField.exists_default happlies
          exact ⟨meaning, .leftOut hdefault, fun h => absurd h happlies⟩
      | some value =>
          obtain ⟨meaning, hdocument⟩ := hother field happlies value hget
          exact ⟨meaning, .given hdocument, fun h => absurd h happlies⟩
  -- where a field applies its meaning is the one before, and elsewhere it does not matter
  choose meaning hmeanings happlied using hmeaning
  have hgiven' : ∀ field : SpecField, GivenDocument field (Entries.get? members' field.name)
      ((SpecFields.ofMeanings meaning).get field) := by simpa using hmeanings
  exact .object hnodup hgiven' (hdescribes.congr fun field happlies => by
    rw [SpecFields.get_ofMeanings, happlied field happlies])

/-! ## Changes of an object -/

/-- The order of the members of an object does not matter. -/
theorem SpecDocument.of_perm {members members' : Entries Json} {spec : PropertySpec}
    (hperm : members.Perm members') (h : SpecDocument (.object members) spec) :
    SpecDocument (.object members') spec := by
  cases h with
  | object hnodup hgiven hdescribes =>
      have hnames : members.names.Perm members'.names := hperm.map Prod.fst
      have hknown : (members.filter fun member => (SpecField.ofName? member.1).isSome).Perm
          (members'.filter fun member => (SpecField.ofName? member.1).isSome) := hperm.filter _
      have hget (field : SpecField) :
          Entries.get? members field.name = Entries.get? members' field.name := by
        have hname : (SpecField.ofName? field.name).isSome = true := by simp
        rw [← Entries.get?_filter (p := fun name => (SpecField.ofName? name).isSome) hname members,
          ← Entries.get?_filter (p := fun name => (SpecField.ofName? name).isSome) hname members']
        refine Entries.get?_of_perm hknown ?_ field.name
        rw [Entries.names, List.filter_map] at hnodup
        exact hnodup
      refine .object ((hnames.filter _).nodup_iff.mp hnodup) (fun field => ?_) hdescribes
      rw [← hget field]
      exact hgiven field

theorem specDocument_perm_iff {members members' : Entries Json} (hperm : members.Perm members')
    (spec : PropertySpec) :
    SpecDocument (.object members) spec ↔ SpecDocument (.object members') spec :=
  ⟨.of_perm hperm, .of_perm hperm.symm⟩

theorem SpecDocument.type_name {members : Entries Json} {spec : PropertySpec} {typeName : String}
    (h : SpecDocument (.object members) spec)
    (htype : Entries.get? members "type" = some (.string typeName)) :
    spec.type.name = typeName := by
  obtain ⟨fields, hgiven, hdescribes⟩ := h.exists_fields
  have htypeGiven : GivenDocument .type (Entries.get? members "type") fields.type := hgiven .type
  rw [htype] at htypeGiven
  exact hdescribes.type_name.trans (htypeGiven.unique (.given (.type typeName)))

theorem SpecDocument.exists_fieldDocument {members : Entries Json} {spec : PropertySpec}
    {field : SpecField} {value : Json} (h : SpecDocument (.object members) spec)
    (hget : Entries.get? members field.name = some value) :
    ∃ meaning, FieldDocument field value meaning := by
  obtain ⟨fields, hgiven, -⟩ := h.exists_fields
  have hfield : GivenDocument field (Entries.get? members field.name) (fields.get field) :=
    hgiven field
  rw [hget] at hfield
  cases hfield with
  | given hdocument => exact ⟨_, hdocument⟩

/-- A field that does not apply may come in front or go. -/
theorem specDocument_cons_iff {members : Entries Json} {field : SpecField} {value : Json}
    {meaning : field.Meaning} {typeName : String} (spec : PropertySpec)
    (htype : Entries.get? members "type" = some (.string typeName))
    (happlies : ¬ field.AppliesTo typeName) (hname : field.name ∉ members.names)
    (hvalue : FieldDocument field value meaning) :
    SpecDocument (.object ((field.name, value) :: members)) spec ↔
      SpecDocument (.object members) spec := by
  have hget (other : SpecField) (hne : other ≠ field) :
      Entries.get? ((field.name, value) :: members) other.name =
        Entries.get? members other.name := by
    rw [Entries.get?_cons, if_neg fun heq => hne (SpecField.name_injective heq.symm)]
  have hne {other : SpecField} (hother : other.AppliesTo typeName) : other ≠ field := by
    rintro rfl
    exact happlies hother
  have hknown : (Entries.names ((field.name, value) :: members)).filter
        (fun name => (SpecField.ofName? name).isSome) =
      field.name :: members.names.filter fun name => (SpecField.ofName? name).isSome :=
    List.filter_cons_of_pos (by simp)
  constructor
  · intro h
    have htypeName := h.type_name ((hget .type (hne trivial)).trans htype)
    refine h.of_applies ?_ (fun other hother => ?_) fun other _ found hfound => ?_
    · cases h with
      | object hnodup _ _ =>
          rw [hknown, List.nodup_cons] at hnodup
          exact hnodup.2
    · rw [htypeName] at hother
      exact (hget other (hne hother)).symm
    · have hdiffers : other ≠ field := by
        rintro rfl
        exact hname (Entries.mem_names_of_get? hfound)
      exact h.exists_fieldDocument ((hget other hdiffers).trans hfound)
  · intro h
    have htypeName := h.type_name htype
    refine h.of_applies ?_ (fun other hother => ?_) fun other _ found hfound => ?_
    · cases h with
      | object hnodup _ _ =>
          rw [hknown, List.nodup_cons]
          exact ⟨fun hmem => hname (List.mem_of_mem_filter hmem), hnodup⟩
    · rw [htypeName] at hother
      exact hget other (hne hother)
    · by_cases hdiffers : other = field
      · subst hdiffers
        rw [Entries.get?_cons, if_pos rfl] at hfound
        cases hfound
        exact ⟨meaning, hvalue⟩
      · rw [hget other hdiffers] at hfound
        exact h.exists_fieldDocument hfound

/-- Members that are no fields are passed over. -/
theorem Json.propertySpec_unknown {name : String} (hname : SpecField.ofName? name = none)
    (front back : Entries Json) (value : Json) :
    propertySpec (.object (front ++ (name, value) :: back)) =
      propertySpec (.object (front ++ back)) := by
  have hdeclares : Place.spec.declares name = false := by simp [Place.declares, hname]
  have hfields : fieldMembers (front ++ (name, value) :: back) .empty =
      fieldMembers (front ++ back) .empty := by
    rw [← fieldMembers_filter, ← fieldMembers_filter (front ++ back), List.filter_append,
      List.filter_append, List.filter_cons_of_neg (by simp [hdeclares])]
  rw [propertySpec, propertySpec, hfields]

/-- The values that are read as schemas are the documents of schemas, and are read as what
they are documents of. What a property is depends on the fields that apply to its type:
two documents that give these alike are read as the same property, and an object is read
as it was if members that are no fields come or go, if fields that do not apply come or go
with values of their kinds, or if its members change places. -/
theorem Schema.ofValue_reads_documents :
    (∀ value schema, (Schema.ofValue value).outcome = .ok schema ↔
      SchemaDocument value schema) ∧
    (∀ (value value' : Json) (spec spec' : PropertySpec),
      value.propertySpec.outcome = .ok spec → value'.propertySpec.outcome = .ok spec' →
      (∀ field : SpecField, field.AppliesTo spec.type.name →
        value.field? field = value'.field? field) → spec = spec') ∧
    (∀ (front back : Entries Json) (name : String) (value : Json),
      SpecField.ofName? name = none →
        Json.propertySpec (.object (front ++ (name, value) :: back)) =
          Json.propertySpec (.object (front ++ back))) ∧
    (∀ (front back : Entries Json) (field : SpecField) (value : Json) (meaning : field.Meaning)
      (typeName : String) (spec : PropertySpec),
      Entries.get? (front ++ back) "type" = some (.string typeName) →
      ¬ field.AppliesTo typeName → field.name ∉ Entries.names (front ++ back) →
      FieldDocument field value meaning →
        ((Json.propertySpec (.object (front ++ (field.name, value) :: back))).outcome = .ok spec ↔
          (Json.propertySpec (.object (front ++ back))).outcome = .ok spec)) ∧
    ∀ (members members' : Entries Json) (spec : PropertySpec), members.Perm members' →
      ((Json.propertySpec (.object members)).outcome = .ok spec ↔
        (Json.propertySpec (.object members')).outcome = .ok spec) := by
  have hread (value : Json) (spec : PropertySpec) :
      value.propertySpec.outcome = .ok spec ↔ SpecDocument value spec :=
    value.readsDocuments.spec spec
  refine ⟨fun value schema => ofValue_eq_ok_iff, ?_, ?_, ?_, ?_⟩
  · intro value value' spec spec' h h' hfield
    exact ((hread value spec).mp h).unique_of_applies ((hread value' spec').mp h') hfield
  · intro front back name value hname
    exact Json.propertySpec_unknown hname front back value
  · intro front back field value meaning typeName spec htype happlies hname hvalue
    rw [hread, hread, specDocument_perm_iff List.perm_middle spec]
    exact specDocument_cons_iff spec htype happlies hname hvalue
  · intro members members' spec hperm
    rw [hread, hread]
    exact specDocument_perm_iff hperm spec

end RecordSchema
