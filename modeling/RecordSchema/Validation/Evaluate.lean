import RecordSchema.Validation.Failure
import RecordSchema.Validation.Transform

/-!
# Evaluating a plan

A record is checked property by property, in the order of the plan. The value of
a property is read from the record as it was given, transformed, and checked
until a check fails; what has become of it by then takes its place in the
output. The output has the keys of the record in their order.

The two modes differ in what follows a failure: `Mode.assertion` stops there and
`Mode.verbose` goes on with the next property. Objects inside the record are
checked in the same mode, and of their failures only the first is reported.
-/

namespace RecordSchema

/-- What happens after a property has failed. -/
inductive Mode where
  /-- Nothing more is checked. -/
  | assertion
  /-- The properties behind it are checked as well. -/
  | verbose
  deriving DecidableEq

/-- What has become of a value, and the check that it did not pass. -/
structure Checked where
  value : Json
  violation : Option Violation

/-- The output of an evaluation and the failures, in order. -/
structure Evaluation where
  value : Json
  failures : List Failure

namespace Check

/-- A check that leaves the value alone: the violation unless `holds`. -/
def require (value : Json) (holds : Bool) (violation : Violation) : Checked :=
  ⟨value, if holds then none else some violation⟩

/-- Whether a value is a whole number. -/
def isWhole : Json → Bool
  | .number n => n.isWhole
  | _ => false

/-- Whether a text starts with another. -/
def textStarts (start text : String) : Bool :=
  start.toList.isPrefixOf text.toList

/-- Checks the start of a string. Other values pass. -/
def checkStart (start : String) (value : Json) : Checked :=
  match value with
  | .string text => require value (textStarts start text) (.wrongStart start)
  | _ => ⟨value, none⟩

/-- Checks the number of characters of a string or of elements of an array. Other
values pass. -/
def checkLength (least : UInt64) (value : Json) : Checked :=
  match value with
  | .string text => require value (decide (least.toNat ≤ text.length)) (.tooFewCharacters least)
  | .array elements =>
    require value (decide (least.toNat ≤ elements.length)) (.tooFewItems least)
  | _ => ⟨value, none⟩

/-- Checks the elements of an array from number `index` on, up to the first that
does not pass. Those behind it stay as they are. -/
def checkElements (check : Json → Checked) : Nat → List Json → List Json × Option Violation
  | _, [] => ([], none)
  | index, element :: rest =>
    let checked := check element
    match checked.violation with
    | some violation => (checked.value :: rest, some (.item index violation))
    | none =>
      let others := checkElements check (index + 1) rest
      (checked.value :: others.1, others.2)

/-- Checks the elements of an array. Other values pass. -/
def checkItems (check : Json → Checked) (value : Json) : Checked :=
  match value with
  | .array elements =>
    let checked := checkElements check 0 elements
    ⟨.array checked.1, checked.2⟩
  | _ => ⟨value, none⟩

/-- What an evaluation of an object says of it as a value. -/
def ofEvaluation (evaluation : Evaluation) : Checked :=
  ⟨evaluation.value, evaluation.failures.head?.map Violation.nested⟩

end Check

mutual

/-- Evaluates a value against a plan. -/
def ObjectPlan.evaluate (mode : Mode) : ObjectPlan → Json → Evaluation
  | ⟨_, properties⟩, .object record =>
    let result := PropertyPlan.evaluateAll mode properties record record
    ⟨.object result.1, result.2⟩
  | _, value => ⟨value, [.notObject]⟩

/-- Evaluates the properties of a record one by one, and puts what becomes of
their values into the output. -/
def PropertyPlan.evaluateAll (mode : Mode) :
    List PropertyPlan → Entries Json → Entries Json → Entries Json × List Failure
  | [], _, output => (output, [])
  | property :: rest, record, output =>
    let step := PropertyPlan.evaluate mode property record output
    match step.2 with
    | none => PropertyPlan.evaluateAll mode rest record step.1
    | some failure =>
      match mode with
      | .assertion => (step.1, [failure])
      | .verbose =>
        let others := PropertyPlan.evaluateAll mode rest record step.1
        (others.1, failure :: others.2)

/-- Evaluates one property of a record. -/
def PropertyPlan.evaluate (mode : Mode) :
    PropertyPlan → Entries Json → Entries Json → Entries Json × Option Failure
  | ⟨key, required, transforms, checks⟩, record, output =>
    match record.get? key with
    | none => (output, if required then some (.missing key) else none)
    | some raw =>
      let checked := Check.runAll mode checks (Transform.applyAll transforms raw)
      (output.put key checked.value, checked.violation.map (.violated key))

/-- Runs checks in order, up to the first that does not pass. -/
def Check.runAll (mode : Mode) : List Check → Json → Checked
  | [], value => ⟨value, none⟩
  | check :: rest, value =>
    let checked := Check.run mode check value
    match checked.violation with
    | some violation => ⟨checked.value, some violation⟩
    | none => Check.runAll mode rest checked.value

/-- Runs one check. -/
def Check.run (mode : Mode) : Check → Json → Checked
  | .kind kind, value => Check.require value (kind.holds value) (.wrongKind kind)
  | .integer, value => Check.require value (Check.isWhole value) .notWhole
  | .startsWith start, value => Check.checkStart start value
  | .minLength least, value => Check.checkLength least value
  | .fields plan, value => Check.ofEvaluation (ObjectPlan.evaluate mode plan value)
  | .reference plan, value => Check.ofEvaluation (ObjectPlan.evaluate mode plan value)
  | .items checks, value => Check.checkItems (Check.runAll mode checks) value

end

end RecordSchema
