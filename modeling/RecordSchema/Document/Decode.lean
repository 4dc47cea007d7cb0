import RecordSchema.Document.Error
import RecordSchema.Document.Reader

/-!
# Decoding single values

The decoders of single values, which every document reader shares: strings, truth
values, lengths and names of a choice. `Tree.passOver` accepts any value and only
looks at its shape.

A least length is written as a whole number without a sign that 64 bits hold. A
float is none, even if nothing stands after its point.
-/

namespace RecordSchema

/-- The number of brackets around a value at which a reader gives up. -/
def depthLimit : Nat := 128

/-- The length that an integer stands for, if it is not negative. -/
def Integer.toLength? (n : Integer) : Option UInt64 :=
  if n.value < 0 then none else some (UInt64.ofNat n.value.toNat)

/-- The length that a number stands for: a whole number of 64 bits without a
sign, held as an integer. -/
def Number.asLength : Number → Except ContentError UInt64
  | .integer n =>
    match n.toLength? with
    | some length => .ok length
    | none => .error (.wrongValue (.number (.integer n)) "usize")
  | .float x => .error (.wrongKind (.number (.float x)) "usize")

namespace Lexeme

/-- The error of a place that asks for `expected` and finds this lexeme: its own,
or that it is of the wrong kind. -/
def mismatch {α : Type} (lexeme : Lexeme α) (found : α → Found) (expected : String) : Fault :=
  match lexeme.value with
  | .error fault => fault
  | .ok value => .content (.wrongKind (found value) expected) lexeme.stop

end Lexeme

namespace Tree

/-- The error of a place that asks for `expected` and finds something else. -/
def mismatch (expected : String) : Tree → Fault
  | absent offset => .form .endInValue offset
  | stray offset => .form .valueExpected (offset + 1)
  | null _ lexeme => lexeme.mismatch (fun _ => .null) expected
  | boolean _ lexeme => lexeme.mismatch .boolean expected
  | number _ lexeme => lexeme.mismatch .number expected
  | string _ lexeme => lexeme.mismatch .string expected
  | array start _ => .content (.wrongKind .sequence expected) start
  | object start _ => .content (.wrongKind .map expected) start

/-- The string in a place that asks for one. -/
def asString : Tree → Except Fault String
  | string _ lexeme => lexeme.value
  | tree => .error (tree.mismatch "a string")

/-- The Boolean value in a place that asks for one. -/
def asBool : Tree → Except Fault Bool
  | boolean _ lexeme => lexeme.value
  | tree => .error (tree.mismatch "a boolean")

/-- The length in a place that asks for one. -/
def asLength : Tree → Except Fault UInt64
  | number _ lexeme =>
    match lexeme.value with
    | .error fault => .error fault
    | .ok n => n.asLength.mapError fun error => .content error lexeme.stop
  | tree => .error (tree.mismatch "usize")

mutual

/-- Passes over a value: its error of form, or nothing. -/
def passOver : Tree → Except Fault Unit
  | absent offset => .error (.form .endInValue offset)
  | stray offset => .error (.form .valueExpected (offset + 1))
  | null _ lexeme => lexeme.shape
  | boolean _ lexeme => lexeme.shape
  | number _ lexeme => lexeme.shape
  | string _ lexeme => lexeme.shape
  | array _ items => passOverItems items
  | object _ members => passOverMembers members

/-- Passes over the items of an array. -/
def passOverItems : Items → Except Fault Unit
  | .done gap =>
    match gap.skippedItemFault? with
    | some fault => .error fault
    | none => .ok ()
  | .item _ value _ rest => do
    passOver value
    passOverItems rest

/-- Passes over the members of an object. -/
def passOverMembers : Members → Except Fault Unit
  | .done gap =>
    match gap.skippedMemberFault? with
    | some fault => .error fault
    | none => .ok ()
  | .notName start => .error (.form .keyNotString (start + 1))
  | .nameOnly name settled next => do
    name.shape
    .error (colonFault next settled)
  | .member name _ value _ rest => do
    name.shape
    passOver value
    passOverMembers rest

end

end Tree

/-! ## Names of a fixed choice -/

namespace Tree

/-- What a name stands for in a choice, with the error of a name that is not in it. -/
def choose {α : Type} (ofName? : String → Option α) (names : List String)
    (name : Lexeme String) : Except Fault α := do
  let text ← name.value
  match ofName? text with
  | some value => return value
  | none => .error (.content (.unknownVariant text names) name.stop)

/-- Checks a place that only null may take. -/
def asUnit : Tree → Except Fault Unit
  | null _ lexeme => lexeme.value
  | tree => .error (tree.mismatch "unit")

/-- A name of a choice, as a string or as an object with that one name and null
under it. The name has to be there: an object that ends, closes or goes on with
something else fails where the name should start. -/
def asChoice {α : Type} (ofName? : String → Option α) (names : List String) (depth : Nat) :
    Tree → Except Fault α
  | absent offset => .error (.form .endInValue offset)
  | string _ lexeme => choose ofName? names lexeme
  | object start members =>
    if depth ≤ 1 then
      .error (.form .tooDeep (start + 1))
    else
      match members with
      | .done (.ended offset) => .error (.form .endInObject offset)
      | .done gap => .error (.form .valueExpected gap.settled)
      | .notName nameStart => .error (.form .keyNotString (nameStart + 1))
      | .nameOnly name settled next => do
        let _ ← choose ofName? names name
        .error (colonFault next settled)
      | .member name _ value settled rest => do
        let chosen ← choose ofName? names name
        value.asUnit
        match rest with
        | .done (.closed _) => return chosen
        | .done (.ended offset) => .error (.form .endInObject offset)
        | _ => .error (.form .valueExpected settled)
  | tree => .error (.form .valueExpected (tree.start + 1))

end Tree

namespace Document

/-- Fails if the text goes on behind its value. -/
def checkEnd (document : Document) : Except Fault Unit :=
  match document.trailing with
  | some offset => .error (.form .trailingCharacters (offset + 1))
  | none => .ok ()

end Document

end RecordSchema
