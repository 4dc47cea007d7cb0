import RecordSchema.Plan.Basic

/-!
# Failures of records

What can be wrong with a record, as data. A `Violation` is about a value: it is of
another kind, not whole, too short, or something inside it is wrong. A `Failure`
is about a property of a record, or about the record itself. Each has a rule, by
which it is counted, and a wording.

A nested object contributes one failure, its first, and an array the first of its
items that is wrong.
-/

namespace RecordSchema

mutual

/-- A check that a value does not pass. -/
inductive Violation where
  | wrongKind (kind : ValueKind)
  | notWhole
  | wrongStart (start : String)
  | tooFewCharacters (least : UInt64)
  | tooFewItems (least : UInt64)
  /-- The value is an object and has a failure of its own. -/
  | nested (failure : Failure)
  /-- An element of the array, counted from zero, does not pass a check. -/
  | item (index : Nat) (violation : Violation)

/-- What is wrong with one property of a record, or with the record. -/
inductive Failure where
  | notObject
  | missing (key : String)
  | violated (key : String) (violation : Violation)

end

/-- The rules by which failures are counted. -/
inductive Rule where
  | required
  | type
  | isInteger
  | startsWith
  | minLength
  | properties
  | items
  deriving DecidableEq

/-- The name of a rule. -/
def Rule.name : Rule → String
  | required => "required"
  | type => "type"
  | isInteger => "isInteger"
  | startsWith => "startsWith"
  | minLength => "minLength"
  | properties => "properties"
  | items => "items"

/-- The rule that a violation breaks. -/
def Violation.rule : Violation → Rule
  | wrongKind _ => .type
  | notWhole => .isInteger
  | wrongStart _ => .startsWith
  | tooFewCharacters _ => .minLength
  | tooFewItems _ => .minLength
  | nested _ => .properties
  | item _ _ => .items

namespace Failure

/-- The property under which a failure of the record itself is reported. -/
def rootProperty : String := "$root"

/-- The property that a failure is about. -/
def property : Failure → String
  | notObject => rootProperty
  | missing key => key
  | violated key _ => key

/-- The rule that a failure breaks. -/
def rule : Failure → Rule
  | notObject => .type
  | missing _ => .required
  | violated _ violation => violation.rule

end Failure

mutual

/-- The wording of a violation, as something said of the value. -/
def Violation.text : Violation → String
  | .wrongKind kind => "must be of type '" ++ kind.name ++ "'"
  | .notWhole => "must be an integer"
  | .wrongStart start => "must start with '" ++ start ++ "'"
  | .tooFewCharacters least => "must be at least " ++ toString least.toNat ++ " characters long"
  | .tooFewItems least => "must contain at least " ++ toString least.toNat ++ " items"
  | .nested failure => failure.detail
  | .item index violation =>
    "item at index " ++ toString index ++ " is invalid: " ++ violation.text

/-- The wording of a failure. -/
def Failure.detail : Failure → String
  | .notObject => "record must be of type 'object'"
  | .missing key => "missing required property '" ++ key ++ "'"
  | .violated key (.nested failure) =>
    "property '" ++ key ++ "' is invalid: " ++ failure.detail
  | .violated key violation => "property '" ++ key ++ "' " ++ violation.text

end

/-- A failure of a record of a type. -/
structure ValidationError where
  typeName : String
  failure : Failure

namespace ValidationError

/-- The property that the error is about. -/
def property (error : ValidationError) : String :=
  error.failure.property

/-- The rule that is broken. -/
def rule (error : ValidationError) : Rule :=
  error.failure.rule

/-- The wording of the error. -/
def message (error : ValidationError) : String :=
  "Validation failed for " ++ error.typeName ++ ": " ++ error.failure.detail ++ "."

/-- The error as a document value. -/
def toJson (error : ValidationError) : Json :=
  .object [("property", .string error.property), ("rule", .string error.rule.name),
    ("message", .string error.message)]

end ValidationError

end RecordSchema
