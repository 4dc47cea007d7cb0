import Mathlib.Data.List.Forall2
import RecordSchema.Json.Basic
import RecordSchema.Schema.Fields

/-!
# The grammar of schema documents

What a schema document is, said of JSON values without a reader. `SchemaDocument
value schema` holds if the value is a document of the schema: an object of sets,
which are objects of properties, each written as an object of its fields or as an
array of them by position. Every field that is known has a value of its own kind,
`FieldDocument`, also if it does not apply to the type of the property; what the
property is depends on those that apply, `SpecFields.Describes`.

An object of JSON has distinct names. Where this matters for what a document
means, the grammar asks for it.
-/

namespace RecordSchema

/-! ## Fields and their meanings -/

namespace SpecField

/-- What a field says about a property. A rule may be given as null, which says
nothing. -/
abbrev Meaning : SpecField → Type
  | .type => String
  | .required => Bool
  | .minLength => Option UInt64
  | .isInteger => Option Bool
  | .startsWith => Option String
  | .properties => Option PropertySet
  | .items => Option PropertySpec
  | .transform => List Transform

/-- What is meant if a field is left out, unless it has to be given. -/
def default? : (field : SpecField) → Option field.Meaning
  | .type => none
  | .required => some true
  | .minLength => some none
  | .isInteger => some none
  | .startsWith => some none
  | .properties => some none
  | .items => some none
  | .transform => some []

/-- The place of a field in an array. -/
def position : SpecField → Nat
  | .type => 0
  | .required => 1
  | .minLength => 2
  | .isInteger => 3
  | .startsWith => 4
  | .properties => 5
  | .items => 6
  | .transform => 7

/-- Whether a field applies to a property whose type has the given name. -/
def AppliesTo (typeName : String) : SpecField → Prop
  | .minLength => typeName = "string" ∨ typeName = "array"
  | .isInteger => typeName = "number"
  | .startsWith => typeName = "string"
  | .properties => typeName = "object"
  | .items => typeName = "array"
  | _ => True

end SpecField

/-- What a field is said to be. -/
def SpecFields.get (fields : SpecFields) : (field : SpecField) → field.Meaning
  | .type => fields.type
  | .required => fields.required
  | .minLength => fields.minLength
  | .isInteger => fields.isInteger
  | .startsWith => fields.startsWith
  | .properties => fields.properties
  | .items => fields.items
  | .transform => fields.transforms

/-- The fields say that the property has this type. -/
inductive SpecFields.HasType (fields : SpecFields) : PropertyType → Prop
  | string : fields.type = "string" → HasType fields (.string fields.minLength fields.startsWith)
  | number : fields.type = "number" → HasType fields (.number (fields.isInteger.getD false))
  | boolean : fields.type = "boolean" → HasType fields .boolean
  | object {properties : PropertySet} : fields.type = "object" →
      fields.properties = some properties → HasType fields (.object properties)
  | array {items : PropertySpec} : fields.type = "array" →
      fields.items = some items → HasType fields (.array fields.minLength items)
  | named : fields.type ∉ ["", "string", "number", "boolean", "object", "array"] →
      HasType fields (.named fields.type)

/-- The fields say what the property is. -/
structure SpecFields.Describes (fields : SpecFields) (spec : PropertySpec) : Prop where
  hasType : fields.HasType spec.type
  required : spec.required = fields.required
  transforms : spec.transforms = fields.transforms

/-! ## Documents -/

/-- A transform is written as its name, or as an object with null under it. -/
inductive TransformDocument : Json → Transform → Prop
  | name (transform : Transform) : TransformDocument (.string transform.name) transform
  | member (transform : Transform) :
      TransformDocument (.object [(transform.name, .null)]) transform

/-- The members of an object stand for entries of the same names, in their order. -/
inductive EntriesDocument {α : Type} (Document : Json → α → Prop) :
    Entries Json → Entries α → Prop
  | nil : EntriesDocument Document [] []
  | cons {name : String} {value : Json} {x : α} {members : Entries Json} {entries : Entries α} :
      Document value x → EntriesDocument Document members entries →
        EntriesDocument Document ((name, value) :: members) ((name, x) :: entries)

mutual

/-- The value is one for the field, and says this. -/
inductive FieldDocument : (field : SpecField) → Json → field.Meaning → Prop
  | type (name : String) : FieldDocument .type (.string name) name
  | required (flag : Bool) : FieldDocument .required (.boolean flag) flag
  | noMinLength : FieldDocument .minLength .null none
  | minLength {n : Integer} {length : UInt64} : n.value = length.toNat →
      FieldDocument .minLength (.number (.integer n)) (some length)
  | noIsInteger : FieldDocument .isInteger .null none
  | isInteger (flag : Bool) : FieldDocument .isInteger (.boolean flag) (some flag)
  | noStartsWith : FieldDocument .startsWith .null none
  | startsWith (start : String) : FieldDocument .startsWith (.string start) (some start)
  | noProperties : FieldDocument .properties .null none
  | properties {value : Json} {set : PropertySet} : SetDocument value set →
      FieldDocument .properties value (some set)
  | noItems : FieldDocument .items .null none
  | items {value : Json} {spec : PropertySpec} : SpecDocument value spec →
      FieldDocument .items value (some spec)
  | transform {elements : List Json} {transforms : List Transform} :
      List.Forall₂ TransformDocument elements transforms →
        FieldDocument .transform (.array elements) transforms

/-- A field that may be left out is given by a value or left out, and says this. -/
inductive GivenDocument : (field : SpecField) → Option Json → field.Meaning → Prop
  | given {field : SpecField} {value : Json} {meaning : field.Meaning} :
      FieldDocument field value meaning → GivenDocument field (some value) meaning
  | leftOut {field : SpecField} {meaning : field.Meaning} :
      field.default? = some meaning → GivenDocument field none meaning

/-- The value is a document of the property: an object with its fields, besides
other members, or an array of them, of which the last may be left out. -/
inductive SpecDocument : Json → PropertySpec → Prop
  | object {members : Entries Json} {fields : SpecFields} {spec : PropertySpec} :
      (members.names.filter fun name => (SpecField.ofName? name).isSome).Nodup →
      (∀ field : SpecField,
        GivenDocument field (Entries.get? members field.name) (fields.get field)) →
      fields.Describes spec → SpecDocument (.object members) spec
  | array {elements : List Json} {fields : SpecFields} {spec : PropertySpec} :
      elements.length = 7 ∨ elements.length = 8 →
      (∀ field : SpecField, GivenDocument field elements[field.position]? (fields.get field)) →
      fields.Describes spec → SpecDocument (.array elements) spec

/-- The value is a document of the set: an object of its properties. -/
inductive SetDocument : Json → PropertySet → Prop
  | object {members : Entries Json} {set : PropertySet} : members.names.Nodup →
      EntriesDocument SpecDocument members set → SetDocument (.object members) set

end

/-- The value is a document of the schema: an object of its types, which have
names. -/
inductive SchemaDocument : Json → Schema → Prop
  | object {members : Entries Json} {schema : Schema} : members.names.Nodup →
      "" ∉ members.names → EntriesDocument SetDocument members schema →
        SchemaDocument (.object members) schema

end RecordSchema
