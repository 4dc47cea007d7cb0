import RecordSchema.Validation.Report

/-!
# The two modes agree

Objects inside a record are evaluated in the mode of the record. So once something
inside a value is wrong, the two modes hold different values there: an assertion
has stopped and the verbose mode has transformed the rest. Nothing looks at that
value any more, since a violation ends the checks of its value in either mode.
Results agree in this sense if they have the same violation, and the same value
if there is none. All parts of an evaluation keep the agreement, whatever plan it
follows.
-/

namespace RecordSchema

/-- The result of an assertion agrees with that of the verbose mode. -/
structure Checked.Agrees (asserted verbose : Checked) : Prop where
  violation : asserted.violation = verbose.violation
  value : verbose.violation = none → asserted.value = verbose.value

/-- The evaluation of an assertion agrees with that of the verbose mode: it has the
first of its failures only. -/
structure Evaluation.Agrees (asserted verbose : Evaluation) : Prop where
  failures : asserted.failures = verbose.failures.head?.toList
  value : verbose.failures = [] → asserted.value = verbose.value

theorem Checked.Agrees.refl (checked : Checked) : Agrees checked checked :=
  ⟨rfl, fun _ => rfl⟩

namespace Check

theorem ofEvaluation_agrees {asserted verbose : Evaluation} (h : asserted.Agrees verbose) :
    (ofEvaluation asserted).Agrees (ofEvaluation verbose) := by
  constructor
  · rw [ofEvaluation, ofEvaluation, h.failures]
    cases verbose.failures <;> rfl
  · intro hnone
    apply h.value
    rwa [ofEvaluation, Option.map_eq_none_iff, List.head?_eq_none_iff] at hnone

/-- Elements are checked in the same way if each of them is. -/
theorem checkElements_agree {asserted verbose : Json → Checked}
    (h : ∀ element, (asserted element).Agrees (verbose element)) (index : Nat)
    (elements : List Json) :
    (checkElements asserted index elements).2 = (checkElements verbose index elements).2 ∧
      ((checkElements verbose index elements).2 = none →
        (checkElements asserted index elements).1 = (checkElements verbose index elements).1) := by
  induction elements generalizing index with
  | nil => exact ⟨rfl, fun _ => rfl⟩
  | cons element rest ih =>
      rw [checkElements, checkElements, (h element).violation]
      cases hviolation : (verbose element).violation with
      | some violation => exact ⟨rfl, fun hnone => by cases hnone⟩
      | none =>
          obtain ⟨hrest, hvalues⟩ := ih (index + 1)
          refine ⟨hrest, fun hnone => ?_⟩
          dsimp only
          rw [(h element).value hviolation, hvalues hnone]

theorem checkItems_agrees {asserted verbose : Json → Checked}
    (h : ∀ element, (asserted element).Agrees (verbose element)) (value : Json) :
    (checkItems asserted value).Agrees (checkItems verbose value) := by
  cases value with
  | array elements =>
      obtain ⟨hviolation, hvalues⟩ := checkElements_agree h 0 elements
      refine ⟨hviolation, fun hnone => ?_⟩
      rw [checkItems, checkItems]
      dsimp only
      rw [hvalues hnone]
  | _ => exact .refl _

end Check

/-! ## The induction over plans -/

mutual

theorem ObjectPlan.evaluate_agrees :
    ∀ (plan : ObjectPlan) (value : Json),
      (plan.evaluate .assertion value).Agrees (plan.evaluate .verbose value)
  | ⟨name, properties⟩, .object record => by
      obtain ⟨hfailures, hvalue⟩ := PropertyPlan.evaluateAll_agree properties record record
      rw [ObjectPlan.evaluate, ObjectPlan.evaluate]
      refine ⟨hfailures, fun hnone => ?_⟩
      dsimp only
      rw [hvalue hnone]
  | ⟨_, _⟩, .null => ⟨rfl, fun _ => rfl⟩
  | ⟨_, _⟩, .boolean _ => ⟨rfl, fun _ => rfl⟩
  | ⟨_, _⟩, .number _ => ⟨rfl, fun _ => rfl⟩
  | ⟨_, _⟩, .string _ => ⟨rfl, fun _ => rfl⟩
  | ⟨_, _⟩, .array _ => ⟨rfl, fun _ => rfl⟩

theorem PropertyPlan.evaluateAll_agree :
    ∀ (properties : List PropertyPlan) (record output : Entries Json),
      (PropertyPlan.evaluateAll .assertion properties record output).2 =
          (PropertyPlan.evaluateAll .verbose properties record output).2.head?.toList ∧
        ((PropertyPlan.evaluateAll .verbose properties record output).2 = [] →
          (PropertyPlan.evaluateAll .assertion properties record output).1 =
            (PropertyPlan.evaluateAll .verbose properties record output).1)
  | [], _, _ => ⟨rfl, fun _ => rfl⟩
  | property :: rest, record, output => by
      obtain ⟨hfailure, houtput⟩ := PropertyPlan.evaluate_agrees property record output
      rw [PropertyPlan.evaluateAll, PropertyPlan.evaluateAll, hfailure]
      cases hstep : (PropertyPlan.evaluate .verbose property record output).2 with
      | some failure => exact ⟨rfl, fun hnone => by cases hnone⟩
      | none =>
          dsimp only
          rw [houtput hstep]
          exact PropertyPlan.evaluateAll_agree rest record _

theorem PropertyPlan.evaluate_agrees :
    ∀ (property : PropertyPlan) (record output : Entries Json),
      (PropertyPlan.evaluate .assertion property record output).2 =
          (PropertyPlan.evaluate .verbose property record output).2 ∧
        ((PropertyPlan.evaluate .verbose property record output).2 = none →
          (PropertyPlan.evaluate .assertion property record output).1 =
            (PropertyPlan.evaluate .verbose property record output).1)
  | ⟨key, required, transforms, checks⟩, record, output => by
      rw [PropertyPlan.evaluate, PropertyPlan.evaluate]
      cases record.get? key with
      | none => exact ⟨rfl, fun _ => rfl⟩
      | some raw =>
          obtain ⟨hviolation, hvalue⟩ :=
            Check.runAll_agrees checks (Transform.applyAll transforms raw)
          dsimp only
          rw [hviolation]
          refine ⟨rfl, fun hnone => ?_⟩
          rw [hvalue (Option.map_eq_none_iff.mp hnone)]

theorem Check.runAll_agrees :
    ∀ (checks : List Check) (value : Json),
      (Check.runAll .assertion checks value).Agrees (Check.runAll .verbose checks value)
  | [], value => .refl _
  | check :: rest, value => by
      obtain ⟨hviolation, hvalue⟩ := Check.run_agrees check value
      rw [Check.runAll, Check.runAll, hviolation]
      cases hrun : (Check.run .verbose check value).violation with
      | some violation => exact ⟨rfl, fun hnone => by cases hnone⟩
      | none =>
          dsimp only
          rw [hvalue hrun]
          exact Check.runAll_agrees rest _

theorem Check.run_agrees :
    ∀ (check : Check) (value : Json),
      (Check.run .assertion check value).Agrees (Check.run .verbose check value)
  | .kind _, _ => .refl _
  | .integer, _ => .refl _
  | .startsWith _, _ => .refl _
  | .minLength _, _ => .refl _
  | .fields plan, value => by
      rw [Check.run, Check.run]
      exact Check.ofEvaluation_agrees (ObjectPlan.evaluate_agrees plan value)
  | .reference plan, value => by
      rw [Check.run, Check.run]
      exact Check.ofEvaluation_agrees (ObjectPlan.evaluate_agrees plan value)
  | .items checks, value => by
      rw [Check.run, Check.run]
      exact Check.checkItems_agrees (fun element => Check.runAll_agrees checks element) value

end

namespace ObjectPlan

/-- An assertion succeeds if and only if the report has no errors. -/
theorem assert_eq_ok_iff {plan : ObjectPlan} {data value : Json} :
    plan.assert data = .ok value ↔ plan.report data = ⟨[], value⟩ := by
  obtain ⟨hfailures, hvalue⟩ := plan.evaluate_agrees data
  rw [assert, report, hfailures]
  cases hreport : (plan.evaluate .verbose data).failures with
  | nil => simp [hvalue hreport]
  | cons failure rest => simp

/-- For every plan, built by hand or compiled, an assertion gives the value of the
report if the report has no errors and fails with its first error otherwise.
`validate` gives one or the other. No evaluation of an assertion, be it of a record
or of an object inside one, has more than one failure. -/
theorem assert_eq_first_of_report (plan : ObjectPlan) (data : Json) :
    plan.assert data =
        (match (plan.report data).errors with
        | [] => .ok (plan.report data).value
        | error :: _ => .error error) ∧
      plan.validate data ⟨false⟩ = (plan.assert data).map .valid ∧
      plan.validate data ⟨true⟩ = .ok (.report (plan.report data)) ∧
      (plan.evaluate .assertion data).failures.length ≤ 1 := by
  obtain ⟨hfailures, hvalue⟩ := plan.evaluate_agrees data
  refine ⟨?_, rfl, rfl, ?_⟩
  · rw [assert, report]
    dsimp only
    rw [hfailures]
    cases hreport : (plan.evaluate .verbose data).failures with
    | nil =>
        rw [hvalue hreport]
        rfl
    | cons failure rest => rfl
  · rw [hfailures]
    cases (plan.evaluate .verbose data).failures with
    | nil => exact Nat.zero_le 1
    | cons failure rest => exact Nat.le_refl 1

end ObjectPlan

end RecordSchema
