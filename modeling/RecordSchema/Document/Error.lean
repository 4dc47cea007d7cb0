import RecordSchema.Json.Basic
import RecordSchema.Text.Literal

/-!
# Errors of documents

A document can fail in two ways. A `FormError` says that the text is not JSON; a
`ContentError` says that a value is not what its place asks for. The second
kind arises in the same words whether the document is a text or a value in
memory.

A `Fault` is an error met in a text, with the byte offset at which it is
reported. Some content errors have no offset of their own: they get one from the
nearest enclosing value, or none at all.
-/

namespace RecordSchema

/-- A reason why a text is not a JSON document. -/
inductive FormError where
  | endInValue
  | endInObject
  | endInArray
  | endInString
  | valueExpected
  | colonExpected
  | commaOrBraceExpected
  | commaOrBracketExpected
  | keyNotString
  | commaBeforeEnd
  | trailingCharacters
  | misspeltWord
  | malformedNumber
  | numberOutOfRange
  | controlCharacter
  | unknownEscape
  | loneSurrogate
  | brokenPair
  | tooDeep
  deriving DecidableEq

namespace FormError

/-- The wording of an error. -/
def message : FormError → String
  | endInValue => "EOF while parsing a value"
  | endInObject => "EOF while parsing an object"
  | endInArray => "EOF while parsing a list"
  | endInString => "EOF while parsing a string"
  | valueExpected => "expected value"
  | colonExpected => "expected `:`"
  | commaOrBraceExpected => "expected `,` or `\x7d`"
  | commaOrBracketExpected => "expected `,` or `]`"
  | keyNotString => "key must be a string"
  | commaBeforeEnd => "trailing comma"
  | trailingCharacters => "trailing characters"
  | misspeltWord => "expected ident"
  | malformedNumber => "invalid number"
  | numberOutOfRange => "number out of range"
  | controlCharacter => "control character (\\u0000-\\u001F) found while parsing a string"
  | unknownEscape => "invalid escape"
  | loneSurrogate => "lone leading surrogate in hex escape"
  | brokenPair => "unexpected end of hex escape"
  | tooDeep => "recursion limit exceeded"

end FormError

/-- What was found where something else was asked for. -/
inductive Found where
  | null
  | boolean (value : Bool)
  | number (value : Number)
  | string (value : String)
  | sequence
  | map
  deriving DecidableEq

namespace Found

/-- The wording of what was found. -/
def describe : Found → String
  | null => "null"
  | boolean true => "boolean `true`"
  | boolean false => "boolean `false`"
  | number (.integer n) => "integer `" ++ (Number.integer n).text ++ "`"
  | number (.float x) => "floating point `" ++ (Number.float x).text ++ "`"
  | string s => "string " ++ Text.literal s
  | sequence => "sequence"
  | map => "map"

/-- What a value shows at its outside. -/
def ofJson : Json → Found
  | .null => null
  | .boolean b => boolean b
  | .number n => number n
  | .string s => string s
  | .array _ => sequence
  | .object _ => map

end Found

/-- Names between backticks, as a choice: `a` or `b`, and one of three or more. -/
def choiceText (names : List String) : String :=
  let marked := names.map fun name => "`" ++ name ++ "`"
  match marked with
  | [a] => a
  | [a, b] => a ++ " or " ++ b
  | _ => "one of " ++ String.intercalate ", " marked

/-- What the names in an ordered map of a document stand for. -/
inductive EntryKind where
  | type
  | property
  deriving DecidableEq

/-- The word for what is named. -/
def EntryKind.word : EntryKind → String
  | type => "type"
  | property => "property"

/-- A reason why a value is not what its place asks for. -/
inductive ContentError where
  /-- A value of another kind than the expected one. -/
  | wrongKind (found : Found) (expected : String)
  /-- A value of the right kind that is outside what is allowed. -/
  | wrongValue (found : Found) (expected : String)
  /-- A sequence that ends before the field at position `length`. -/
  | tooShort (length : Nat) (expected : String)
  /-- A sequence with more elements than the fields it stands for. -/
  | tooLong (length : Nat)
  | missingField (name : String)
  | duplicateField (name : String)
  | unknownField (name : String) (known : List String)
  | unknownVariant (name : String) (known : List String)
  | duplicateEntry (kind : EntryKind) (name : String)
  | emptyTypeName
  | emptyType
  | objectWithoutProperties
  | arrayWithoutItems
  deriving DecidableEq

namespace ContentError

/-- The wording of an error. -/
def message : ContentError → String
  | wrongKind found expected => "invalid type: " ++ found.describe ++ ", expected " ++ expected
  | wrongValue found expected => "invalid value: " ++ found.describe ++ ", expected " ++ expected
  | tooShort length expected =>
    "invalid length " ++ toString length ++ ", expected " ++ expected
  | tooLong length =>
    "invalid length " ++ toString length ++ ", expected fewer elements in array"
  | missingField name => "missing field `" ++ name ++ "`"
  | duplicateField name => "duplicate field `" ++ name ++ "`"
  | unknownField name known => "unknown field `" ++ name ++ "`, expected " ++ choiceText known
  | unknownVariant name known =>
    "unknown variant `" ++ name ++ "`, expected " ++ choiceText known
  | duplicateEntry kind name => "duplicate " ++ kind.word ++ " '" ++ name ++ "'"
  | emptyTypeName => "type name must not be empty"
  | emptyType => "'type' must not be empty"
  | objectWithoutProperties => "type 'object' requires 'properties'"
  | arrayWithoutItems => "type 'array' requires 'items'"

end ContentError

/-- An error of a document, in its form or in its content. -/
inductive DocumentError where
  | form (error : FormError)
  | content (error : ContentError)
  deriving DecidableEq

/-- The wording of an error. -/
def DocumentError.message : DocumentError → String
  | form error => error.message
  | content error => error.message

/-- An error with the byte offset of its place, if it has one. -/
structure Fault where
  error : DocumentError
  offset : Option Nat
  deriving DecidableEq

namespace Fault

/-- An error of form at an offset. -/
def form (error : FormError) (offset : Nat) : Fault :=
  ⟨.form error, some offset⟩

/-- An error of content at an offset. -/
def content (error : ContentError) (offset : Nat) : Fault :=
  ⟨.content error, some offset⟩

/-- An error of content whose place an enclosing value has to give. -/
def unplaced (error : ContentError) : Fault :=
  ⟨.content error, none⟩

/-- Gives a place to an error that has none. -/
def settle (fault : Fault) (offset : Nat) : Fault :=
  ⟨fault.error, some (fault.offset.getD offset)⟩

@[simp] theorem settle_form (error : FormError) (offset other : Nat) :
    (form error offset).settle other = form error offset := rfl

@[simp] theorem settle_content (error : ContentError) (offset other : Nat) :
    (content error offset).settle other = content error offset := rfl

@[simp] theorem settle_unplaced (error : ContentError) (offset : Nat) :
    (unplaced error).settle offset = content error offset := rfl

end Fault

end RecordSchema
