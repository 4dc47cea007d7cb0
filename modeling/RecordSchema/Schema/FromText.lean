import RecordSchema.Document.Decode
import RecordSchema.Schema.Fields

/-!
# Schemas from text

Decoders of a schema's text. They walk the tree of the text and stop at the
first error, in the order in which the text is read. An error of content that
has no place of its own gets the one that its enclosing array or object gives,
and an error in the document as a whole stays without a place.

A property is an object of fields, of which unknown ones are passed over, or an
array of the fields' values.
-/

namespace RecordSchema

namespace Tree

/-- The transforms that the items of an array name. -/
def asTransformItems (depth : Nat) : Items → Except Fault (List Transform)
  | .done gap =>
    match gap.itemFault? with
    | some fault => .error fault
    | none => .ok []
  | .item _ value _ rest => do
    let x ← value.asChoice Transform.ofName? Transform.names depth
    let xs ← asTransformItems depth rest
    return x :: xs

/-- The transforms in a place that asks for an array of them. -/
def asTransforms (depth : Nat) : Tree → Except Fault (List Transform)
  | array start items =>
    if depth ≤ 1 then
      .error (.form .tooDeep (start + 1))
    else
      asTransformItems (depth - 1) items
  | tree => .error (tree.mismatch "a sequence")

/-- What a tree reads as in the roles that need no other decoder of schemas, and in
the two that do. -/
def fieldValue (depth : Nat) (tree : Tree) (properties : Unit → Logged Fault PropertySet)
    (spec : Unit → Logged Fault PropertySpec) : FieldValue Fault where
  text := tree.asString
  flag := tree.asBool
  length := tree.asLength
  transforms := tree.asTransforms depth
  null? :=
    match tree with
    | null _ lexeme => some lexeme.value
    | _ => none
  properties := properties
  spec := spec

mutual

/-- The property that a tree describes. -/
def propertySpec (depth : Nat) : Tree → Logged Fault PropertySpec
  | array start items =>
    if depth ≤ 1 then
      Logged.fail (.form .tooDeep (start + 1))
    else do
      let fields ← fieldItems (depth - 1) items 0 .empty
      fields.toSpec.mapError .unplaced
  | object start members =>
    if depth ≤ 1 then
      Logged.fail (.form .tooDeep (start + 1))
    else do
      let fields ← fieldMembers (depth - 1) members .empty
      fields.toSpec.mapError .unplaced
  | tree => Logged.fail (tree.mismatch specExpectation)

/-- The fields that the items of an array give, of which `position` have been read. -/
def fieldItems (depth : Nat) : Items → Nat → SpecDraft → Logged Fault SpecFields
  | .done gap, position, draft =>
    if position < SpecField.all.length then
      match gap.itemFault? with
      | some fault => Logged.fail fault
      | none =>
        Logged.ofExcept ((draft.sequenceFields position).mapError fun error =>
          .content error gap.settled)
    else
      match (Items.done gap).excess? with
      | some fault => Logged.fail fault
      | none =>
        Logged.ofExcept (draft.fields.mapError fun error => .content error gap.settled)
  | .item start value settled rest, position, draft =>
    match SpecField.all[position]? with
    | none => Logged.fail (.form .trailingCharacters (start + 1))
    | some field => do
      let draft ← (draft.read
          (value.fieldValue depth (fun _ => propertySet depth value)
            (fun _ => propertySpec depth value))
          field).mapError fun fault => fault.settle settled
      fieldItems depth rest (position + 1) draft

/-- The fields that the members of an object give. -/
def fieldMembers (depth : Nat) : Members → SpecDraft → Logged Fault SpecFields
  | .done gap, draft =>
    match gap.memberFault? with
    | some fault => Logged.fail fault
    | none => Logged.ofExcept (draft.fields.mapError fun error => .content error gap.settled)
  | .notName start, _ => Logged.fail (.form .keyNotString (start + 1))
  | .nameOnly name settled next, draft => do
    let name ← Logged.ofExcept name.value
    match SpecField.ofName? name with
    | some field =>
      if draft.has field then
        Logged.fail (.content (.duplicateField name) settled)
      else
        Logged.fail (colonFault next settled)
    | none => Logged.fail (colonFault next settled)
  | .member name nameSettled value settled rest, draft => do
    let name ← Logged.ofExcept name.value
    match SpecField.ofName? name with
    | some field =>
      if draft.has field then
        Logged.fail (.content (.duplicateField name) nameSettled)
      else do
        let draft ← (draft.read
            (value.fieldValue depth (fun _ => propertySet depth value)
              (fun _ => propertySpec depth value))
            field).mapError fun fault => fault.settle settled
        fieldMembers depth rest draft
    | none => do
      Logged.ofExcept value.passOver
      fieldMembers depth rest draft

/-- The properties that a tree describes. -/
def propertySet (depth : Nat) : Tree → Logged Fault PropertySet
  | object start members =>
    if depth ≤ 1 then
      Logged.fail (.form .tooDeep (start + 1))
    else
      propertyMembers (depth - 1) members []
  | tree => Logged.fail (tree.mismatch EntryKind.property.expectation)

/-- The properties that the members of an object describe, behind those before
them. -/
def propertyMembers (depth : Nat) : Members → PropertySet → Logged Fault PropertySet
  | .done gap, front =>
    match gap.memberFault? with
    | some fault => Logged.fail fault
    | none => Logged.ok front
  | .notName start, _ => Logged.fail (.form .keyNotString (start + 1))
  | .nameOnly name settled next, front => do
    let name ← Logged.ofExcept name.value
    if front.has name then
      Logged.fail (.content (.duplicateEntry .property name) settled)
    else
      Logged.fail (colonFault next settled)
  | .member name nameSettled value settled rest, front => do
    let name ← Logged.ofExcept name.value
    if front.has name then
      Logged.fail (.content (.duplicateEntry .property name) nameSettled)
    else do
      let spec ← (propertySpec depth value).mapError fun fault => fault.settle settled
      propertyMembers depth rest (front ++ [(name, spec)])

end

/-- The types that the members of an object describe, behind those before them. -/
def typeMembers (depth : Nat) : Members → Schema → Logged Fault Schema
  | .done gap, front =>
    match gap.memberFault? with
    | some fault => Logged.fail fault
    | none => Logged.ok front
  | .notName start, _ => Logged.fail (.form .keyNotString (start + 1))
  | .nameOnly name settled next, front => do
    let name ← Logged.ofExcept name.value
    if front.has name then
      Logged.fail (.content (.duplicateEntry .type name) settled)
    else
      Logged.fail (colonFault next settled)
  | .member name nameSettled value settled rest, front => do
    let name ← Logged.ofExcept name.value
    if front.has name then
      Logged.fail (.content (.duplicateEntry .type name) nameSettled)
    else do
      let set ← (propertySet depth value).mapError fun fault => fault.settle settled
      typeMembers depth rest (front ++ [(name, set)])

/-- The schema that a tree describes. A type without a name is found only when
all types have been read. -/
def schema (depth : Nat) : Tree → Logged Fault Schema
  | object start members =>
    if depth ≤ 1 then
      Logged.fail (.form .tooDeep (start + 1))
    else do
      let types ← typeMembers (depth - 1) members []
      if types.has "" then
        Logged.fail (.unplaced .emptyTypeName)
      else
        return types
  | tree => Logged.fail (tree.mismatch EntryKind.type.expectation)

end Tree

/-- What a decoder makes of a whole text, with the places of its errors. -/
def decodeText {α : Type} (decode : Nat → Tree → Logged Fault α) (text : String) :
    Logged PlacedError α :=
  let document := Document.ofText text
  let result : Logged Fault α := do
    let value ← decode depthLimit document.root
    Logged.ofExcept document.checkEnd
    return value
  result.mapError (·.place text)

/-- The property that a text describes. -/
def PropertySpec.ofText (text : String) : Logged PlacedError PropertySpec :=
  decodeText Tree.propertySpec text

/-- The properties that a text describes. -/
def PropertySet.ofText (text : String) : Logged PlacedError PropertySet :=
  decodeText Tree.propertySet text

/-- The schema that a text describes. -/
def Schema.ofText (text : String) : Logged SchemaError Schema :=
  (decodeText Tree.schema text).mapError fun error => .malformed (.text error)

end RecordSchema
