import RecordSchema.Proofs.Distinct
import RecordSchema.Proofs.Document.Applies
import RecordSchema.Proofs.Document.Written

/-!
# Names in documents

What a document describes has distinct names, at every depth, and the types of a schema have
names. What a set or a schema says under a name is what the value under this name is read as, in
the order of the document: `Json.described` reads the members of an object one by one, whatever is
in front of them.

Main statements: `Json.describesDistinct` for the parts of a document,
`Schema.wellNamed_of_ofValue`, and `Schema.described_of_ofValue` with its like for sets.
-/

namespace RecordSchema

/-! ## Distinct names -/

theorem EntriesDocument.exists_of_mem {α : Type} {Document : Json → α → Prop}
    {members : Entries Json} {entries : Entries α} (h : EntriesDocument Document members entries)
    {key : String} {x : α} (hmem : (key, x) ∈ entries) :
    ∃ value, (key, value) ∈ members ∧ Document value x := by
  induction h with
  | nil => cases hmem
  | cons hvalue _ ih =>
      rcases List.mem_cons.mp hmem with heq | hmem
      · cases heq
        exact ⟨_, List.mem_cons_self, hvalue⟩
      · obtain ⟨value, hvalue, hdocument⟩ := ih hmem
        exact ⟨value, List.mem_cons_of_mem _ hvalue, hdocument⟩

theorem GivenDocument.exists_set {given : Option Json} {set : PropertySet}
    (h : GivenDocument .properties given (some set)) :
    ∃ value, given = some value ∧ SetDocument value set := by
  cases h with
  | leftOut hdefault => cases hdefault
  | given hdocument =>
      cases hdocument with
      | properties hset => exact ⟨_, rfl, hset⟩

theorem GivenDocument.exists_items {given : Option Json} {spec : PropertySpec}
    (h : GivenDocument .items given (some spec)) :
    ∃ value, given = some value ∧ SpecDocument value spec := by
  cases h with
  | leftOut hdefault => cases hdefault
  | given hdocument =>
      cases hdocument with
      | items hspec => exact ⟨_, rfl, hspec⟩

/-- A property is distinct if what its fields give is. -/
theorem SpecFields.Describes.distinct {fields : SpecFields} {spec : PropertySpec}
    (h : fields.Describes spec)
    (hset : ∀ set, fields.properties = some set → PropertySet.Distinct set)
    (hitems : ∀ items : PropertySpec, fields.items = some items → items.type.Distinct) :
    spec.type.Distinct := by
  obtain ⟨type, required, transforms⟩ := spec
  cases h.hasType with
  | string _ => exact .string _ _
  | number _ => exact .number _
  | boolean _ => exact .boolean
  | object _ hproperties => exact PropertyType.distinct_object_iff.mpr (hset _ hproperties)
  | array _ hgiven => exact .array (hitems _ hgiven)
  | named _ => exact .named _

namespace Json

/-- Whatever the value is a document of has distinct names. -/
structure DescribesDistinct (value : Json) : Prop where
  spec : ∀ spec, SpecDocument value spec → spec.type.Distinct
  set : ∀ set, SetDocument value set → PropertySet.Distinct set

/-- The fields in a property's document have distinct names if the parts of the document do. -/
theorem distinct_of_parts {value : Json} {spec : PropertySpec} (h : SpecDocument value spec)
    (hparts : ∀ field part, value.field? field = some part → part.DescribesDistinct) :
    spec.type.Distinct := by
  obtain ⟨fields, hgiven, hdescribes⟩ := h.exists_fields
  refine hdescribes.distinct (fun set hset => ?_) fun items hitems => ?_
  · have hproperties : GivenDocument .properties (value.field? .properties) fields.properties :=
      hgiven .properties
    rw [hset] at hproperties
    obtain ⟨part, hpart, hdocument⟩ := hproperties.exists_set
    exact (hparts .properties part hpart).set set hdocument
  · have hfield : GivenDocument .items (value.field? .items) fields.items := hgiven .items
    rw [hitems] at hfield
    obtain ⟨part, hpart, hdocument⟩ := hfield.exists_items
    exact (hparts .items part hpart).spec items hdocument

theorem describesDistinct (value : Json) : value.DescribesDistinct := by
  induction value using of_parts with
  | null | boolean _ | number _ | string _ => exact ⟨by rintro _ ⟨⟩, by rintro _ ⟨⟩⟩
  | array elements ih =>
      refine ⟨fun spec h => distinct_of_parts h fun field part hpart => ?_, by rintro _ ⟨⟩⟩
      exact ih part (List.mem_of_getElem? hpart)
  | object members ih =>
      refine ⟨fun spec h => distinct_of_parts h fun field part hpart => ?_, fun set h => ?_⟩
      · exact ih field.name part (Entries.mem_of_get? hpart)
      · cases h with
        | object hnodup hentries =>
            refine ⟨hentries.names_eq ▸ hnodup, fun key spec hmem => ?_⟩
            obtain ⟨value, hvalue, hdocument⟩ := hentries.exists_of_mem hmem
            exact (ih key value hvalue).spec spec hdocument

theorem distinct_of_propertySpec {value : Json} {spec : PropertySpec}
    (h : value.propertySpec.outcome = .ok spec) : spec.type.Distinct :=
  (describesDistinct value).spec spec ((value.readsDocuments.spec spec).mp h)

theorem distinct_of_propertySet {value : Json} {set : PropertySet}
    (h : value.propertySet.outcome = .ok set) : PropertySet.Distinct set :=
  (describesDistinct value).set set ((value.readsDocuments.set set).mp h)

end Json

/-- The types of a schema have distinct names that are not empty, and distinct properties. -/
structure Schema.WellNamed (schema : Schema) : Prop where
  nodup : schema.names.Nodup
  nonempty : "" ∉ schema.names
  distinct : schema.Distinct

theorem SchemaDocument.wellNamed {value : Json} {schema : Schema}
    (h : SchemaDocument value schema) : schema.WellNamed := by
  obtain ⟨hnodup, hempty, hentries⟩ := h
  rw [← hentries.names_eq] at hnodup hempty
  refine ⟨hnodup, hempty, fun name set hmem => ?_⟩
  obtain ⟨part, -, hdocument⟩ := hentries.exists_of_mem hmem
  exact part.describesDistinct.set set hdocument

/-! ## What is said under a name -/

namespace Json

variable {α : Type}

/-- The members of an object as they are read one by one. -/
def described (decode : Json → Logged ContentError α) : Json → Entries α
  | object members => members.filterMap fun member =>
      (decode member.2).outcome.toOption.map fun x => (member.1, x)
  | _ => []

theorem described_eq {decode : Json → Logged ContentError α} {Document : Json → α → Prop}
    (hdecode : ∀ value x, Document value x → (decode value).outcome = .ok x)
    {members : Entries Json} {entries : Entries α}
    (h : EntriesDocument Document members entries) :
    (object members).described decode = entries := by
  rw [described]
  induction h with
  | nil => rfl
  | cons hvalue _ ih =>
      rw [List.filterMap_cons, hdecode _ _ hvalue, ih]
      rfl

theorem described_of_propertySet {value : Json} {set : PropertySet}
    (h : value.propertySet.outcome = .ok set) : value.described propertySpec = set := by
  cases (value.readsDocuments.set set).mp h with
  | object _ hentries =>
      exact described_eq (fun value spec => (value.readsDocuments.spec spec).mpr) hentries

end Json

namespace Schema

theorem wellNamed_of_ofValue {value : Json} {schema : Schema}
    (h : (ofValue value).outcome = .ok schema) : schema.WellNamed :=
  (ofValue_eq_ok_iff.mp h).wellNamed

theorem described_of_ofValue {value : Json} {schema : Schema}
    (h : (ofValue value).outcome = .ok schema) : value.described Json.propertySet = schema := by
  obtain ⟨-, -, hentries⟩ := ofValue_eq_ok_iff.mp h
  exact Json.described_eq (fun value set => (value.readsDocuments.set set).mpr) hentries

end Schema

end RecordSchema
