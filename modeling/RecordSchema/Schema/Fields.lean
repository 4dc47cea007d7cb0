import RecordSchema.Event
import RecordSchema.Schema.Basic
import RecordSchema.Schema.Error

/-!
# The fields of a property's document

A property is written as eight fields. `SpecFields` holds their values, and
`SpecFields.toSpec` makes the property of them: it drops the rules that do not
apply to the type, with a warning for each, and asks for those that the type
cannot do without.

`SpecDraft` collects the fields while they are read. A value can be read in
several roles, and the field decides which; `FieldValue` is what a value gives in
each role, so that the fields of a text and of a value in memory are collected by
the same rules.
-/

namespace RecordSchema

/-- A field of a property's document. -/
inductive SpecField where
  | type
  | required
  | minLength
  | isInteger
  | startsWith
  | properties
  | items
  | transform
  deriving DecidableEq

namespace SpecField

/-- The name of a field. -/
def name : SpecField → String
  | type => "type"
  | required => "required"
  | minLength => "minLength"
  | isInteger => "isInteger"
  | startsWith => "startsWith"
  | properties => "properties"
  | items => "items"
  | transform => "transform"

/-- The fields, in the order in which a sequence of values gives them. -/
def all : List SpecField :=
  [type, required, minLength, isInteger, startsWith, properties, items, transform]

/-- The field of a name. -/
def ofName? (name : String) : Option SpecField :=
  all.find? fun field => field.name == name

@[simp] theorem ofName?_name (field : SpecField) : ofName? field.name = some field := by
  cases field <;> decide

end SpecField

/-- What a reader expects where a property's document should be. -/
def specExpectation : String := "struct RawPropertySpec"

/-- What a reader expects of a property's document in the form of a sequence. -/
def specSequenceExpectation : String := specExpectation ++ " with 8 elements"

/-- What a reader expects where properties or types should be. -/
def EntryKind.expectation (kind : EntryKind) : String :=
  "a map of " ++ kind.word ++ " names to definitions"

/-- The values of a property's fields. -/
structure SpecFields where
  type : String
  required : Bool
  minLength : Option UInt64
  isInteger : Option Bool
  startsWith : Option String
  properties : Option PropertySet
  items : Option PropertySpec
  transforms : List Transform

namespace SpecFields

/-- The rules that are given and do not apply to the type. -/
def misplaced (fields : SpecFields) : List SpecField :=
  (if fields.minLength.isSome && fields.type != "string" && fields.type != "array" then
    [.minLength] else []) ++
  (if fields.isInteger.isSome && fields.type != "number" then [.isInteger] else []) ++
  (if fields.startsWith.isSome && fields.type != "string" then [.startsWith] else []) ++
  (if fields.properties.isSome && fields.type != "object" then [.properties] else []) ++
  (if fields.items.isSome && fields.type != "array" then [.items] else [])

/-- The type that the fields describe, with the rules that apply to it. -/
def propertyType (fields : SpecFields) : Except ContentError PropertyType :=
  if fields.type = "string" then
    .ok (.string fields.minLength fields.startsWith)
  else if fields.type = "number" then
    .ok (.number (fields.isInteger.getD false))
  else if fields.type = "boolean" then
    .ok .boolean
  else if fields.type = "object" then
    match fields.properties with
    | some properties => .ok (.object properties)
    | none => .error .objectWithoutProperties
  else if fields.type = "array" then
    match fields.items with
    | some items => .ok (.array fields.minLength items)
    | none => .error .arrayWithoutItems
  else if fields.type = "" then
    .error .emptyType
  else
    .ok (.named fields.type)

/-- The property that the fields describe. Each rule that does not apply to the
type is reported, also if the fields describe no property. -/
def toSpec (fields : SpecFields) : Logged ContentError PropertySpec := do
  Logged.reportAll (fields.misplaced.map fun field => .ignoredRule field.name fields.type)
  let type ← Logged.ofExcept fields.propertyType
  return ⟨type, fields.required, fields.transforms⟩

end SpecFields

/-- The fields of a property that have been read so far. -/
structure SpecDraft where
  type : Option String
  required : Option Bool
  minLength : Option (Option UInt64)
  isInteger : Option (Option Bool)
  startsWith : Option (Option String)
  properties : Option (Option PropertySet)
  items : Option (Option PropertySpec)
  transforms : Option (List Transform)

/-- What a value reads as in each role that a field gives to it. -/
structure FieldValue (ε : Type) where
  text : Except ε String
  flag : Except ε Bool
  length : Except ε UInt64
  transforms : Except ε (List Transform)
  /-- Whether the value is null, if nothing but null can be meant. -/
  null? : Option (Except ε Unit)
  properties : Unit → Logged ε PropertySet
  spec : Unit → Logged ε PropertySpec

namespace FieldValue

variable {ε α : Type}

/-- A role that null may take as well. -/
def orNull (value : FieldValue ε) (read : Unit → Logged ε α) : Logged ε (Option α) :=
  match value.null? with
  | some null => Logged.ofExcept (null.map fun _ => none)
  | none => do
    let x ← read ()
    return some x

end FieldValue

namespace SpecDraft

/-- A draft without fields. -/
def empty : SpecDraft :=
  ⟨none, none, none, none, none, none, none, none⟩

/-- Whether a field has been read. -/
def has (draft : SpecDraft) : SpecField → Bool
  | .type => draft.type.isSome
  | .required => draft.required.isSome
  | .minLength => draft.minLength.isSome
  | .isInteger => draft.isInteger.isSome
  | .startsWith => draft.startsWith.isSome
  | .properties => draft.properties.isSome
  | .items => draft.items.isSome
  | .transform => draft.transforms.isSome

/-- Reads a field from a value. Rules may be null, which is the same as absent. -/
def read {ε : Type} (draft : SpecDraft) (value : FieldValue ε) :
    SpecField → Logged ε SpecDraft
  | .type => do
    let x ← Logged.ofExcept value.text
    return { draft with type := some x }
  | .required => do
    let x ← Logged.ofExcept value.flag
    return { draft with required := some x }
  | .minLength => do
    let x ← value.orNull fun _ => Logged.ofExcept value.length
    return { draft with minLength := some x }
  | .isInteger => do
    let x ← value.orNull fun _ => Logged.ofExcept value.flag
    return { draft with isInteger := some x }
  | .startsWith => do
    let x ← value.orNull fun _ => Logged.ofExcept value.text
    return { draft with startsWith := some x }
  | .properties => do
    let x ← value.orNull value.properties
    return { draft with properties := some x }
  | .items => do
    let x ← value.orNull value.spec
    return { draft with items := some x }
  | .transform => do
    let x ← Logged.ofExcept value.transforms
    return { draft with transforms := some x }

/-- The values of all fields. Only the type has to be given. -/
def fields (draft : SpecDraft) : Except ContentError SpecFields :=
  match draft.type with
  | none => .error (.missingField SpecField.type.name)
  | some type => .ok {
      type := type
      required := draft.required.getD true
      minLength := draft.minLength.getD none
      isInteger := draft.isInteger.getD none
      startsWith := draft.startsWith.getD none
      properties := draft.properties.getD none
      items := draft.items.getD none
      transforms := draft.transforms.getD [] }

/-- The fields of a sequence that ends after `length` values. Only the last
field can be left out: a sequence cannot go on behind a missing one. -/
def sequenceFields (draft : SpecDraft) (length : Nat) : Except ContentError SpecFields :=
  if length = 1 then
    .error (.tooShort 2 specSequenceExpectation)
  else if length < 7 then
    .error (.tooShort length specSequenceExpectation)
  else
    draft.fields

end SpecDraft

end RecordSchema
