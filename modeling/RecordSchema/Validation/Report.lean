import RecordSchema.Document.Position
import RecordSchema.Document.Settings
import RecordSchema.Validation.Evaluate

/-!
# Results of validation

`ObjectPlan.assert` gives the transformed record or the first error,
`ObjectPlan.report` all errors together with the transformed record, and
`ObjectPlan.validate` chooses between the two. `ObjectPlan.reports` validates the
transformed record again, until nothing changes.

The options say whether validation goes on behind the first error. They can be
read from a text, where other names are passed over.
-/

namespace RecordSchema

/-! ## Options -/

/-- How a record is to be validated. -/
structure ValidateOptions where
  verbose : Bool
  deriving DecidableEq

namespace ValidateOptions

/-- Validation that stops at the first error. -/
def standard : ValidateOptions := ⟨false⟩

/-- How options are written. -/
def format : SettingsFormat ValidateOptions where
  expectation := "struct ValidateOptions"
  names := ["verbose"]
  closed := false
  read := fun _ _ value _ => value.asBool.map ValidateOptions.mk

/-- The options that a text spells. -/
def ofText (text : String) : Except PlacedError ValidateOptions :=
  (format.ofText standard text).mapError (·.place text)

end ValidateOptions

/-! ## Results -/

/-- The errors of a record and what its transforms made of it. -/
structure Report where
  errors : List ValidationError
  value : Json

namespace Report

/-- Whether there are no errors. -/
def isValid (report : Report) : Bool :=
  report.errors.isEmpty

/-- The report as a document value. -/
def toJson (report : Report) : Json :=
  .object [("isValid", .boolean report.isValid),
    ("errors", .array (report.errors.map ValidationError.toJson)), ("value", report.value)]

end Report

/-- The result of a validation that did not stop at an error. -/
inductive Outcome where
  | valid (value : Json)
  | report (report : Report)

namespace Outcome

/-- Whether the record has no errors. -/
def isValid : Outcome → Bool
  | valid _ => true
  | report r => r.isValid

/-- What the transforms made of the record. -/
def value : Outcome → Json
  | valid v => v
  | report r => r.value

end Outcome

namespace ObjectPlan

/-- The transformed record, or the first error. -/
def assert (plan : ObjectPlan) (data : Json) : Except ValidationError Json :=
  let evaluation := plan.evaluate .assertion data
  match evaluation.failures with
  | [] => .ok evaluation.value
  | failure :: _ => .error ⟨plan.name, failure⟩

/-- All errors and the transformed record. -/
def report (plan : ObjectPlan) (data : Json) : Report :=
  let evaluation := plan.evaluate .verbose data
  ⟨evaluation.failures.map fun failure => ⟨plan.name, failure⟩, evaluation.value⟩

/-- Validates as the options say. Only an assertion fails. -/
def validate (plan : ObjectPlan) (data : Json) (options : ValidateOptions) :
    Except ValidationError Outcome :=
  if options.verbose then
    .ok (.report (plan.report data))
  else
    (plan.assert data).map .valid

/-- The reports of a record, of what its transforms made of it, and so on, until
the value stays the same or `limit` reports have been made. -/
def reports (plan : ObjectPlan) : Nat → Json → List Report
  | 0, _ => []
  | limit + 1, data =>
    let report := plan.report data
    report :: if report.value.same data then [] else reports plan limit report.value

end ObjectPlan

end RecordSchema
