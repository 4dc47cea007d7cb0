import RecordSchema.Document.Decode
import RecordSchema.Document.Position
import RecordSchema.Text.Blank

/-!
# Whole values and records

`Tree.json` builds the value of a document. It keeps the last of several values
under one name, in the place of the first, and allows brackets to be nested below
a depth, which is `depthLimit` for a whole text.

A record is any value. A text of blanks only is told apart from a text that does
not spell a value.
-/

namespace RecordSchema

namespace Tree

mutual

/-- The value of a tree in which brackets may be nested below `depth`. -/
def json (depth : Nat) : Tree → Except Fault Json
  | absent offset => .error (.form .endInValue offset)
  | stray offset => .error (.form .valueExpected (offset + 1))
  | null _ lexeme => lexeme.value.map fun _ => .null
  | boolean _ lexeme => lexeme.value.map .boolean
  | number _ lexeme => lexeme.value.map .number
  | string _ lexeme => lexeme.value.map .string
  | array start items =>
    if depth ≤ 1 then
      .error (.form .tooDeep (start + 1))
    else
      (jsonItems (depth - 1) items).map .array
  | object start members =>
    if depth ≤ 1 then
      .error (.form .tooDeep (start + 1))
    else
      (jsonMembers (depth - 1) members []).map .object

/-- The values of the items of an array. -/
def jsonItems (depth : Nat) : Items → Except Fault (List Json)
  | .done gap =>
    match gap.itemFault? with
    | some fault => .error fault
    | none => .ok []
  | .item _ value _ rest => do
    let x ← json depth value
    let xs ← jsonItems depth rest
    return x :: xs

/-- The values of the members of an object, put behind those before them. -/
def jsonMembers (depth : Nat) : Members → Entries Json → Except Fault (Entries Json)
  | .done gap, front =>
    match gap.memberFault? with
    | some fault => .error fault
    | none => .ok front
  | .notName start, _ => .error (.form .keyNotString (start + 1))
  | .nameOnly name settled next, _ => do
    let _ ← name.value
    .error (colonFault next settled)
  | .member name _ value _ rest, front => do
    let key ← name.value
    let x ← json depth value
    jsonMembers depth rest (front.put key x)

end

end Tree

/-- The value that a text spells. -/
def Json.ofText (text : String) : Except Fault Json := do
  let document := Document.ofText text
  let value ← document.root.json depthLimit
  document.checkEnd
  return value

/-- A reason why a text is no record. -/
inductive RecordError where
  | empty
  | notJson (error : PlacedError)
  deriving DecidableEq

/-- The wording of an error. -/
def RecordError.message : RecordError → String
  | empty => "Empty input"
  | notJson error => "Record is not valid JSON: " ++ error.message

/-- The record that a text spells. -/
def readRecord (text : String) : Except RecordError Json :=
  if (Text.trim text.toList).isEmpty then
    .error .empty
  else
    (Json.ofText text).mapError fun fault => .notJson (fault.place text)

end RecordSchema
