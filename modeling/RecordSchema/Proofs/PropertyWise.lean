import RecordSchema.Proofs.Report

/-!
# Reports property by property

All properties of a plan write into one output. They read the record as it was given,
though, so what a property finds and what it writes can be said without the others:
`PropertyPlan.failureAt` and `PropertyPlan.checkedAt` are functions of the raw value under
the property's own key. The errors of a report are the failures of its properties one behind
the other, and under a key the output holds what the last property of that key wrote.

Main statement: `ObjectPlan.report_eq_of_alone`, which puts a report together from those of
the plans that have one of the properties each.
-/

namespace RecordSchema

namespace PropertyPlan

/-! ## One property -/

/-- What has become of a property's value, and the check that it did not pass. -/
def checkedAt (property : PropertyPlan) (raw : Json) : Checked :=
  Check.runAll .verbose property.checks (Transform.applyAll property.transforms raw)

/-- The failure of a property with the raw value, or without one. -/
def failureAt (property : PropertyPlan) : Option Json → Option Failure
  | none => if property.required then some (.missing property.key) else none
  | some raw => (property.checkedAt raw).violation.map (.violated property.key)

theorem evaluate_failure (property : PropertyPlan) (record output : Entries Json) :
    (evaluate .verbose property record output).2 =
      property.failureAt (record.get? property.key) := by
  obtain ⟨key, required, transforms, checks⟩ := property
  rw [evaluate]
  cases record.get? key with
  | none => rfl
  | some raw => rfl

theorem evaluate_output_of_none {property : PropertyPlan} {record : Entries Json}
    (h : record.get? property.key = none) (output : Entries Json) :
    (evaluate .verbose property record output).1 = output := by
  obtain ⟨key, required, transforms, checks⟩ := property
  dsimp only at h
  rw [evaluate, h]

theorem evaluate_output_of_some {property : PropertyPlan} {record : Entries Json} {raw : Json}
    (h : record.get? property.key = some raw) (output : Entries Json) :
    (evaluate .verbose property record output).1 =
      output.put property.key (property.checkedAt raw).value := by
  obtain ⟨key, required, transforms, checks⟩ := property
  dsimp only at h
  rw [evaluate, h]
  rfl

/-- A property writes nothing under a key that is not its own. -/
theorem get?_evaluate_of_ne {property : PropertyPlan} {key : String} (h : property.key ≠ key)
    (record output : Entries Json) :
    (evaluate .verbose property record output).1.get? key = output.get? key := by
  cases hraw : record.get? property.key with
  | none => rw [evaluate_output_of_none hraw]
  | some raw => rw [evaluate_output_of_some hraw, Entries.get?_put_of_ne h]

/-- A property writes nothing under a key that the record does not have. -/
theorem get?_evaluate_of_absent {record : Entries Json} {key : String}
    (h : record.get? key = none) (property : PropertyPlan) (output : Entries Json) :
    (evaluate .verbose property record output).1.get? key = output.get? key := by
  by_cases hkey : property.key = key
  · subst hkey
    rw [evaluate_output_of_none h]
  · exact get?_evaluate_of_ne hkey record output

/-! ## All properties -/

theorem evaluateAll_failures (properties : List PropertyPlan) (record output : Entries Json) :
    (evaluateAll .verbose properties record output).2 =
      properties.flatMap fun property =>
        (property.failureAt (record.get? property.key)).toList := by
  induction properties generalizing output with
  | nil => rfl
  | cons property rest ih =>
      rw [evaluateAll_verbose_cons, List.flatMap_cons, ih, evaluate_failure]

theorem get?_evaluateAll_of_ne {properties : List PropertyPlan} {key : String}
    (h : ∀ property ∈ properties, property.key ≠ key) (record output : Entries Json) :
    (evaluateAll .verbose properties record output).1.get? key = output.get? key := by
  induction properties generalizing output with
  | nil => rfl
  | cons property rest ih =>
      obtain ⟨hproperty, hrest⟩ := List.forall_mem_cons.mp h
      rw [evaluateAll_verbose_cons, ih hrest, get?_evaluate_of_ne hproperty]

theorem get?_evaluateAll_of_absent {record : Entries Json} {key : String}
    (h : record.get? key = none) (properties : List PropertyPlan) (output : Entries Json) :
    (evaluateAll .verbose properties record output).1.get? key = output.get? key := by
  induction properties generalizing output with
  | nil => rfl
  | cons property rest ih =>
      rw [evaluateAll_verbose_cons, ih, get?_evaluate_of_absent h]

/-- Under a key that the record has, the output holds what the last property of that key has
written, whatever the properties in front of it have done. -/
theorem get?_evaluateAll_of_present {front back : List PropertyPlan} {property : PropertyPlan}
    (hlast : ∀ other ∈ back, other.key ≠ property.key) {record : Entries Json} {raw : Json}
    (hraw : record.get? property.key = some raw) (output : Entries Json) :
    (evaluateAll .verbose (front ++ property :: back) record output).1.get? property.key =
      some (property.checkedAt raw).value := by
  induction front generalizing output with
  | nil =>
      rw [List.nil_append, evaluateAll_verbose_cons, get?_evaluateAll_of_ne hlast,
        evaluate_output_of_some hraw, Entries.get?_put_self]
  | cons first rest ih => rw [List.cons_append, evaluateAll_verbose_cons, ih]

theorem get?_evaluateAll_of_last {front back : List PropertyPlan} {property : PropertyPlan}
    (hlast : ∀ other ∈ back, other.key ≠ property.key) (record : Entries Json) :
    (evaluateAll .verbose (front ++ property :: back) record record).1.get? property.key =
      (record.get? property.key).map fun raw => (property.checkedAt raw).value := by
  cases hraw : record.get? property.key with
  | none => rw [get?_evaluateAll_of_absent hraw, hraw, Option.map_none]
  | some raw => rw [get?_evaluateAll_of_present hlast hraw, Option.map_some]

/-- Of the properties of a key one is the last. -/
theorem exists_last_of_key {properties : List PropertyPlan} {key : String}
    (h : ∃ property ∈ properties, property.key = key) :
    ∃ front last back, properties = front ++ last :: back ∧ last.key = key ∧
      ∀ other ∈ back, other.key ≠ key := by
  induction properties using List.reverseRecOn with
  | nil =>
      obtain ⟨property, hmem, -⟩ := h
      cases hmem
  | append_singleton front last ih =>
      by_cases hlast : last.key = key
      · exact ⟨front, last, [], rfl, hlast, by simp⟩
      · have hfront : ∃ property ∈ front, property.key = key := by
          obtain ⟨property, hmem, hkey⟩ := h
          rcases List.mem_append.mp hmem with hmem | hmem
          · exact ⟨property, hmem, hkey⟩
          · exact absurd (List.mem_singleton.mp hmem ▸ hkey) hlast
        obtain ⟨front', last', back, rfl, hkey, hback⟩ := ih hfront
        refine ⟨front', last', back ++ [last], by simp, hkey, fun other hother => ?_⟩
        rcases List.mem_append.mp hother with hother | hother
        · exact hback other hother
        · rwa [List.mem_singleton.mp hother]

end PropertyPlan

/-- What the value of a report holds under a key. -/
def Report.output? (report : Report) (key : String) : Option Json :=
  report.value.members?.bind fun members => members.get? key

namespace ObjectPlan

/-! ## Reports -/

/-- The plan of the same name with one of the properties only. -/
def alone (plan : ObjectPlan) (property : PropertyPlan) : ObjectPlan :=
  ⟨plan.name, [property]⟩

theorem report_errors (plan : ObjectPlan) (record : Entries Json) :
    (plan.report (.object record)).errors =
      plan.properties.flatMap fun property =>
        ((property.failureAt (record.get? property.key)).map
          (ValidationError.mk plan.name)).toList := by
  obtain ⟨name, properties⟩ := plan
  rw [report, evaluate]
  dsimp only
  rw [PropertyPlan.evaluateAll_failures, List.map_flatMap]
  simp only [Option.toList_map]

theorem report_errors_alone (plan : ObjectPlan) (property : PropertyPlan)
    (record : Entries Json) :
    ((plan.alone property).report (.object record)).errors =
      ((property.failureAt (record.get? property.key)).map
        (ValidationError.mk plan.name)).toList := by
  rw [report_errors, alone, List.flatMap_singleton]

theorem report_output_of_last {plan : ObjectPlan} {front back : List PropertyPlan}
    {property : PropertyPlan} (hplan : plan.properties = front ++ property :: back)
    (hlast : ∀ other ∈ back, other.key ≠ property.key) (record : Entries Json) :
    (plan.report (.object record)).output? property.key =
      (record.get? property.key).map fun raw => (property.checkedAt raw).value := by
  obtain ⟨name, properties⟩ := plan
  rw [report, evaluate]
  dsimp only at hplan
  rw [hplan]
  exact PropertyPlan.get?_evaluateAll_of_last hlast record

theorem report_output_alone (plan : ObjectPlan) (property : PropertyPlan)
    (record : Entries Json) :
    ((plan.alone property).report (.object record)).output? property.key =
      (record.get? property.key).map fun raw => (property.checkedAt raw).value :=
  report_output_of_last (List.nil_append [property]).symm (by simp) record

/-- The report of an object is put together from those of the plans that have one property
each. Its errors are theirs, one behind the other, and each property gives at most one. Under a
key of the object that properties have, it holds what the last of them gives alone. So what a
property gives depends only on the raw value under its own key: an object with the same value
there gives the same error of the property and holds the same value there. -/
theorem report_eq_of_alone (plan : ObjectPlan) (record : Entries Json) :
    (plan.report (.object record)).errors =
      (plan.properties.flatMap fun property =>
        ((plan.alone property).report (.object record)).errors) ∧
    (∀ property ∈ plan.properties,
      ((plan.alone property).report (.object record)).errors.length ≤ 1) ∧
    (∀ key ∈ record.names, (∃ property ∈ plan.properties, property.key = key) →
      ∃ front last back, plan.properties = front ++ last :: back ∧ last.key = key ∧
        (∀ other ∈ back, other.key ≠ key) ∧
        ∃ value, (plan.report (.object record)).output? key = some value ∧
          ((plan.alone last).report (.object record)).output? key = some value) ∧
    (∀ property ∈ plan.properties, ∀ record' : Entries Json,
      record'.get? property.key = record.get? property.key →
        ((plan.alone property).report (.object record')).errors =
            ((plan.alone property).report (.object record)).errors ∧
          (plan.report (.object record')).output? property.key =
            (plan.report (.object record)).output? property.key) := by
  refine ⟨?_, fun property _ => ?_, fun key hkey hnamed => ?_,
    fun property hmem record' hsame => ?_⟩
  · rw [report_errors]
    exact congrArg plan.properties.flatMap (funext fun property =>
      (report_errors_alone plan property record).symm)
  · rw [report_errors_alone]
    exact Option.length_toList_le
  · obtain ⟨front, last, back, hplan, rfl, hback⟩ := PropertyPlan.exists_last_of_key hnamed
    obtain ⟨raw, hraw⟩ := Entries.exists_get?_of_mem_names hkey
    refine ⟨front, last, back, hplan, rfl, hback, (last.checkedAt raw).value, ?_, ?_⟩
    · rw [report_output_of_last hplan hback, hraw, Option.map_some]
    · rw [report_output_alone, hraw, Option.map_some]
  · obtain ⟨front, last, back, hplan, hkey, hback⟩ :=
      PropertyPlan.exists_last_of_key ⟨property, hmem, rfl⟩
    rw [← hkey] at hback
    refine ⟨?_, ?_⟩
    · rw [report_errors_alone, report_errors_alone, hsame]
    · rw [← hkey, report_output_of_last hplan hback, report_output_of_last hplan hback, hkey, hsame]

/-- A plan with two properties of one key, of which the first asks for what no text is. -/
def notes : ObjectPlan :=
  ⟨"Note", [⟨"text", true, [], [.kind .number]⟩, ⟨"text", false, [.trim], [.kind .string]⟩,
    ⟨"pages", true, [], []⟩]⟩

theorem report_eq_of_alone_notes :
    "text" ∈ Entries.names [("text", Json.string " a ")] ∧
    (∃ property ∈ notes.properties, property.key = "text") ∧
    (∃ front last back, notes.properties = front ++ last :: back ∧ last.key = "text" ∧
      (∀ other ∈ back, other.key ≠ "text") ∧
      ∃ value, (notes.report (.object [("text", .string " a ")])).output? "text" = some value ∧
        ((notes.alone last).report (.object [("text", .string " a ")])).output? "text" =
          some value) ∧
    (notes.report (.object [("text", .string " a ")])).output? "text" = some (.string "a") ∧
    (notes.report (.object [("text", .string " a ")])).errors.map
        (fun error => (error.property, error.rule)) =
      [("text", .type), ("pages", .required)] := by
  have hname : "text" ∈ Entries.names [("text", Json.string " a ")] := by decide
  have hnamed : ∃ property ∈ notes.properties, property.key = "text" :=
    ⟨_, List.mem_cons_self, rfl⟩
  exact ⟨hname, hnamed, (report_eq_of_alone notes _).2.2.1 "text" hname hnamed, rfl, rfl⟩

end ObjectPlan

end RecordSchema
