import RecordSchema.Document.Decode
import RecordSchema.Schema.Fields

/-!
# Schemas from values

Decoders of a schema that is a JSON value in memory. The rules are those of a
schema's text. Errors have no places here, an array says how long it is when it
is too long, and a transform of a wrong kind is an error of content.
-/

namespace RecordSchema

namespace Json

/-- The error of a place that asks for `expected` and finds this value. -/
def mismatch (value : Json) (expected : String) : ContentError :=
  .wrongKind (.ofJson value) expected

/-- The string in a place that asks for one. -/
def asString : Json → Except ContentError String
  | string s => .ok s
  | value => .error (value.mismatch "a string")

/-- The Boolean value in a place that asks for one. -/
def asBool : Json → Except ContentError Bool
  | boolean b => .ok b
  | value => .error (value.mismatch "a boolean")

/-- The length in a place that asks for one. -/
def asLength : Json → Except ContentError UInt64
  | number n => n.asLength
  | value => .error (value.mismatch "usize")

/-- Checks a place that only null may take. -/
def asUnit : Json → Except ContentError Unit
  | null => .ok ()
  | value => .error (value.mismatch "unit")

/-- What a name stands for in a choice, with the error of a name that is not in it. -/
def choose {α : Type} (ofName? : String → Option α) (names : List String) (name : String) :
    Except ContentError α :=
  match ofName? name with
  | some value => .ok value
  | none => .error (.unknownVariant name names)

/-- A name of a choice, as a string or as an object with that one name and null
under it. -/
def asChoice {α : Type} (ofName? : String → Option α) (names : List String) :
    Json → Except ContentError α
  | string name => choose ofName? names name
  | object [(name, value)] => do
    let chosen ← choose ofName? names name
    value.asUnit
    return chosen
  | object _ => .error (.wrongValue .map "map with a single key")
  | value => .error (value.mismatch "string or map")

/-- The transforms in a place that asks for an array of them. -/
def asTransforms : Json → Except ContentError (List Transform)
  | array elements => elements.mapM (asChoice Transform.ofName? Transform.names)
  | value => .error (value.mismatch "a sequence")

/-- What a value reads as in the roles that need no other decoder of schemas, and in
the two that do. -/
def fieldValue (value : Json) (properties : Unit → Logged ContentError PropertySet)
    (spec : Unit → Logged ContentError PropertySpec) : FieldValue ContentError where
  text := value.asString
  flag := value.asBool
  length := value.asLength
  transforms := value.asTransforms
  null? :=
    match value with
    | null => some (.ok ())
    | _ => none
  properties := properties
  spec := spec

mutual

/-- The property that a value describes. -/
def propertySpec : Json → Logged ContentError PropertySpec
  | array elements => do
    let fields ← fieldElements elements.length elements 0 .empty
    fields.toSpec
  | object members => do
    let fields ← fieldMembers members .empty
    fields.toSpec
  | value => Logged.fail (value.mismatch specExpectation)

/-- The fields that the elements of an array give, of which `position` have been
read out of `length`. -/
def fieldElements (length : Nat) :
    List Json → Nat → SpecDraft → Logged ContentError SpecFields
  | [], position, draft =>
    if position < SpecField.all.length then
      Logged.ofExcept (draft.sequenceFields position)
    else
      Logged.ofExcept draft.fields
  | value :: rest, position, draft =>
    match SpecField.all[position]? with
    | none => Logged.fail (.tooLong length)
    | some field => do
      let draft ← draft.read
        (value.fieldValue (fun _ => propertySet value) (fun _ => propertySpec value)) field
      fieldElements length rest (position + 1) draft

/-- The fields that the members of an object give. -/
def fieldMembers : List (String × Json) → SpecDraft → Logged ContentError SpecFields
  | [], draft => Logged.ofExcept draft.fields
  | (name, value) :: rest, draft =>
    match SpecField.ofName? name with
    | some field =>
      if draft.has field then
        Logged.fail (.duplicateField name)
      else do
        let draft ← draft.read
          (value.fieldValue (fun _ => propertySet value) (fun _ => propertySpec value)) field
        fieldMembers rest draft
    | none => fieldMembers rest draft

/-- The properties that a value describes. -/
def propertySet : Json → Logged ContentError PropertySet
  | object members => propertyMembers members []
  | value => Logged.fail (value.mismatch EntryKind.property.expectation)

/-- The properties that the members of an object describe, behind those before
them. -/
def propertyMembers :
    List (String × Json) → PropertySet → Logged ContentError PropertySet
  | [], front => Logged.ok front
  | (name, value) :: rest, front =>
    if front.has name then
      Logged.fail (.duplicateEntry .property name)
    else do
      let spec ← propertySpec value
      propertyMembers rest (front ++ [(name, spec)])

end

/-- The types that the members of an object describe, behind those before them. -/
def typeMembers : List (String × Json) → Schema → Logged ContentError Schema
  | [], front => Logged.ok front
  | (name, value) :: rest, front =>
    if front.has name then
      Logged.fail (.duplicateEntry .type name)
    else do
      let set ← propertySet value
      typeMembers rest (front ++ [(name, set)])

/-- The schema that a value describes. A type without a name is found only when
all types have been read. -/
def schema : Json → Logged ContentError Schema
  | object members => do
    let types ← typeMembers members []
    if types.has "" then
      Logged.fail .emptyTypeName
    else
      return types
  | value => Logged.fail (value.mismatch EntryKind.type.expectation)

end Json

/-- The schema that a value describes. -/
def Schema.ofValue (value : Json) : Logged SchemaError Schema :=
  value.schema.mapError fun error => .malformed (.content error)

end RecordSchema
