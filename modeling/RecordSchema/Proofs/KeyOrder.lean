import Mathlib.Data.List.Forall2
import Mathlib.Data.Option.Basic
import RecordSchema.Json.Printer
import RecordSchema.Proofs.Transform
import RecordSchema.Validation.Report

/-!
# The order of keys

`Json.Reordered` relates values that differ in nothing but the order of the members of their
objects. A plan looks at members by their keys only, and its failures follow the order of its
own properties. So two such values have the same failures in the same order, and what becomes
of them differs in nothing but the order of members again.

Main statement: `ObjectPlan.evaluate_of_reordered`, for every plan and both modes.
-/

namespace RecordSchema

/-- The values differ in nothing but the order of the members of their objects, at any depth.
Members are compared by what is found under their names, of which an object of a document has
each only once. -/
inductive Json.Reordered : Json → Json → Prop
  | null : Reordered .null .null
  | boolean (value : Bool) : Reordered (.boolean value) (.boolean value)
  | number (value : Number) : Reordered (.number value) (.number value)
  | string (value : String) : Reordered (.string value) (.string value)
  | array {elements elements' : List Json} :
      List.Forall₂ Reordered elements elements' → Reordered (.array elements) (.array elements')
  | object {members members' : Entries Json} :
      members.names.Perm members'.names →
      (∀ key value value', members.get? key = some value → members'.get? key = some value' →
        Reordered value value') →
      Reordered (.object members) (.object members')

namespace Json

mutual

theorem Reordered.refl : ∀ value : Json, value.Reordered value
  | .null => .null
  | .boolean value => .boolean value
  | .number value => .number value
  | .string value => .string value
  | .array elements => .array (reordered_elements elements)
  | .object members => .object (.refl _) fun key value value' h h' => by
      cases h.symm.trans h'
      exact reordered_member members key value h

theorem reordered_elements : ∀ elements : List Json, List.Forall₂ Reordered elements elements
  | [] => .nil
  | element :: rest => .cons (Reordered.refl element) (reordered_elements rest)

theorem reordered_member : ∀ (members : List (String × Json)) (key : String) (value : Json),
    Entries.get? members key = some value → value.Reordered value
  | (name, first) :: rest, key, value, h => by
      rw [Entries.get?_cons] at h
      split at h
      · cases h
        exact Reordered.refl first
      · exact reordered_member rest key value h

end

end Json

/-! ## Members -/

theorem Entries.names_put {α : Type} (entries : Entries α) (name : String) (value : α) :
    (entries.put name value).names =
      if name ∈ entries.names then entries.names else entries.names ++ [name] := by
  induction entries with
  | nil => rfl
  | cons entry rest ih =>
      obtain ⟨key, old⟩ := entry
      rw [put]
      by_cases hkey : key = name
      · simp [hkey]
      · rw [if_neg hkey, names_cons, ih]
        simp only [names_cons, List.mem_cons, Ne.symm hkey, false_or]
        split <;> rfl

/-- The members have the same names and related values. -/
structure Entries.Reordered (members members' : Entries Json) : Prop where
  names : members.names.Perm members'.names
  value : ∀ key value value', members.get? key = some value → members'.get? key = some value' →
    value.Reordered value'

namespace Entries.Reordered

variable {members members' : Entries Json}

theorem get? (h : Reordered members members') (key : String) :
    Option.Rel Json.Reordered (members.get? key) (members'.get? key) := by
  have hnone : members.get? key = none ↔ members'.get? key = none := by
    rw [get?_eq_none_iff, get?_eq_none_iff, h.names.mem_iff]
  cases hget : members.get? key with
  | none =>
      rw [hnone.mp hget]
      exact .none
  | some value =>
      cases hget' : members'.get? key with
      | none =>
          rw [hnone.mpr hget'] at hget
          cases hget
      | some value' => exact .some (h.value key value value' hget hget')

theorem put (h : Reordered members members') (key : String) {value value' : Json}
    (hvalue : value.Reordered value') :
    Reordered (members.put key value) (members'.put key value') := by
  constructor
  · rw [names_put, names_put]
    simp only [h.names.mem_iff]
    split
    · exact h.names
    · exact h.names.append_right [key]
  · intro name found found' hfound hfound'
    by_cases hname : key = name
    · subst hname
      rw [get?_put_self] at hfound hfound'
      cases hfound
      cases hfound'
      exact hvalue
    · rw [get?_put_of_ne hname] at hfound hfound'
      exact h.value name found found' hfound hfound'

end Entries.Reordered

/-- Members in their places, with related values, are found under the same names. -/
theorem Entries.Reordered.of_forall₂ {members moved : Entries Json}
    (h : List.Forall₂ (fun old new => new.1 = old.1 ∧ old.2.Reordered new.2) members moved) :
    Reordered members moved := by
  induction h with
  | nil => exact ⟨.refl _, fun _ _ _ hget => nomatch hget⟩
  | @cons old new rest rest' hmember _ ih =>
      obtain ⟨key, value⟩ := old
      obtain ⟨key', value'⟩ := new
      obtain ⟨rfl, hvalue⟩ := hmember
      refine ⟨ih.names.cons key', fun name found found' hfound hfound' => ?_⟩
      rw [get?_cons] at hfound hfound'
      split at hfound
      · case isTrue hname =>
          rw [if_pos hname] at hfound'
          cases hfound
          cases hfound'
          exact hvalue
      · case isFalse hname =>
          rw [if_neg hname] at hfound'
          exact ih.value name found found' hfound hfound'

/-- Where names are distinct, the members are what is found under the names. -/
theorem Entries.map_names_get? {entries : Entries Json} (hnodup : entries.names.Nodup) :
    entries.names.map (fun name => (name, (entries.get? name).getD .null)) = entries := by
  rw [names, List.map_map]
  refine (List.map_congr_left fun entry hentry => ?_).trans (List.map_id' entries)
  obtain ⟨name, value⟩ := entry
  rw [Function.comp_apply, get?_of_mem hnodup hentry, Option.getD_some]

/-- Objects with distinct names are related if the members of one, each with a related value,
can change places to give the other. -/
theorem Json.reordered_object_iff {members members' : Entries Json}
    (hnodup : members.names.Nodup) (hnodup' : members'.names.Nodup) :
    (object members).Reordered (object members') ↔
      ∃ moved : Entries Json,
        List.Forall₂ (fun old new => new.1 = old.1 ∧ old.2.Reordered new.2) members moved ∧
          moved.Perm members' := by
  constructor
  · rintro (_ | _ | _ | _ | _ | ⟨hnames, hvalue⟩)
    have h : Entries.Reordered members members' := ⟨hnames, hvalue⟩
    refine ⟨members.names.map fun name => (name, (members'.get? name).getD .null), ?_, ?_⟩
    · rw [Entries.names, List.map_map, List.forall₂_map_right_iff]
      refine List.forall₂_same.mpr fun member hmember => ⟨rfl, ?_⟩
      have hget := h.get? member.1
      rw [Entries.get?_of_mem hnodup hmember] at hget
      rw [Function.comp_apply]
      generalize members'.get? member.1 = found at hget
      cases hget with
      | some hfound => exact hfound
    · have hmoved := hnames.map fun name => (name, (members'.get? name).getD .null)
      rwa [Entries.map_names_get? hnodup'] at hmoved
  · rintro ⟨moved, hmoved, hperm⟩
    have h := Entries.Reordered.of_forall₂ hmoved
    refine .object (h.names.trans (hperm.map Prod.fst)) fun key value value' hget hget' => ?_
    rw [← Entries.get?_of_perm hperm (h.names.nodup_iff.mp hnodup)] at hget'
    exact h.value key value value' hget hget'

/-! ## Transforms and single checks -/

/-- Transforms keep the relation. They only change values without members. -/
theorem Json.Reordered.applyAll {value value' : Json} (h : value.Reordered value')
    (transforms : List Transform) :
    (Transform.applyAll transforms value).Reordered (Transform.applyAll transforms value') := by
  cases h with
  | array helements =>
      rw [Transform.applyAll_array, Transform.applyAll_array]
      exact .array helements
  | object hnames hvalue =>
      rw [Transform.applyAll_object, Transform.applyAll_object]
      exact .object hnames hvalue
  | _ => exact .refl _

/-- The same violation, if any, and values that are related. -/
structure Checked.Reordered (checked checked' : Checked) : Prop where
  violation : checked.violation = checked'.violation
  value : checked.value.Reordered checked'.value

/-- The same failures in the same order, and values that are related. -/
structure Evaluation.Reordered (evaluation evaluation' : Evaluation) : Prop where
  failures : evaluation.failures = evaluation'.failures
  value : evaluation.value.Reordered evaluation'.value

theorem ValueKind.holds_of_reordered {value value' : Json} (h : value.Reordered value')
    (kind : ValueKind) : kind.holds value = kind.holds value' := by
  cases h <;> cases kind <;> rfl

namespace Check

variable {value value' : Json}

theorem isWhole_of_reordered (h : value.Reordered value') : isWhole value = isWhole value' := by
  cases h <;> rfl

theorem require_of_reordered (h : value.Reordered value') {holds holds' : Bool}
    (hholds : holds = holds') (violation : Violation) :
    (require value holds violation).Reordered (require value' holds' violation) := by
  subst hholds
  exact ⟨rfl, h⟩

theorem checkStart_of_reordered (h : value.Reordered value') (start : String) :
    (checkStart start value).Reordered (checkStart start value') := by
  cases h with
  | string text => exact ⟨rfl, .string text⟩
  | array helements => exact ⟨rfl, .array helements⟩
  | object hnames hvalue => exact ⟨rfl, .object hnames hvalue⟩
  | _ => exact ⟨rfl, .refl _⟩

theorem checkLength_of_reordered (h : value.Reordered value') (least : UInt64) :
    (checkLength least value).Reordered (checkLength least value') := by
  cases h with
  | array helements =>
      exact require_of_reordered (.array helements) (by rw [helements.length_eq]) _
  | object hnames hvalue => exact ⟨rfl, .object hnames hvalue⟩
  | _ => exact ⟨rfl, .refl _⟩

theorem checkElements_of_reordered {check : Json → Checked} {elements elements' : List Json}
    (hcheck : ∀ value value' : Json, value.Reordered value' →
      (check value).Reordered (check value'))
    (helements : List.Forall₂ Json.Reordered elements elements') (index : Nat) :
    (checkElements check index elements).2 = (checkElements check index elements').2 ∧
      List.Forall₂ Json.Reordered (checkElements check index elements).1
        (checkElements check index elements').1 := by
  induction helements generalizing index with
  | nil => exact ⟨rfl, .nil⟩
  | @cons element element' _ _ helement hrest ih =>
      obtain ⟨hviolation, hvalue⟩ := hcheck element element' helement
      rw [checkElements, checkElements, hviolation]
      cases (check element').violation with
      | some violation => exact ⟨rfl, .cons hvalue hrest⟩
      | none =>
          obtain ⟨hothers, hvalues⟩ := ih (index + 1)
          exact ⟨hothers, .cons hvalue hvalues⟩

theorem checkItems_of_reordered {check : Json → Checked}
    (hcheck : ∀ value value' : Json, value.Reordered value' →
      (check value).Reordered (check value'))
    (h : value.Reordered value') :
    (checkItems check value).Reordered (checkItems check value') := by
  cases h with
  | array helements =>
      obtain ⟨hviolation, hvalues⟩ := checkElements_of_reordered hcheck helements 0
      exact ⟨hviolation, .array hvalues⟩
  | object hnames hvalue => exact ⟨rfl, .object hnames hvalue⟩
  | _ => exact ⟨rfl, .refl _⟩

theorem ofEvaluation_of_reordered {evaluation evaluation' : Evaluation}
    (h : evaluation.Reordered evaluation') :
    (ofEvaluation evaluation).Reordered (ofEvaluation evaluation') :=
  ⟨by rw [ofEvaluation, ofEvaluation, h.failures], h.value⟩

end Check

/-! ## The induction over plans -/

mutual

theorem ObjectPlan.evaluate_reordered (mode : Mode) :
    ∀ (plan : ObjectPlan) {data data' : Json}, data.Reordered data' →
      (plan.evaluate mode data).Reordered (plan.evaluate mode data')
  | ⟨_, properties⟩, _, _, .object hnames hvalue => by
      have hrecord : Entries.Reordered _ _ := ⟨hnames, hvalue⟩
      obtain ⟨hfailures, houtput⟩ :=
        PropertyPlan.evaluateAll_reordered mode properties hrecord hrecord
      rw [ObjectPlan.evaluate, ObjectPlan.evaluate]
      exact ⟨hfailures, .object houtput.names houtput.value⟩
  | ⟨_, _⟩, _, _, .null => ⟨rfl, .null⟩
  | ⟨_, _⟩, _, _, .boolean value => ⟨rfl, .boolean value⟩
  | ⟨_, _⟩, _, _, .number value => ⟨rfl, .number value⟩
  | ⟨_, _⟩, _, _, .string value => ⟨rfl, .string value⟩
  | ⟨_, _⟩, _, _, .array helements => ⟨rfl, .array helements⟩

theorem PropertyPlan.evaluateAll_reordered (mode : Mode) :
    ∀ (properties : List PropertyPlan) {record record' output output' : Entries Json},
      record.Reordered record' → output.Reordered output' →
        (PropertyPlan.evaluateAll mode properties record output).2 =
            (PropertyPlan.evaluateAll mode properties record' output').2 ∧
          Entries.Reordered (PropertyPlan.evaluateAll mode properties record output).1
            (PropertyPlan.evaluateAll mode properties record' output').1
  | [], _, _, _, _, _, houtput => ⟨rfl, houtput⟩
  | property :: rest, record, record', output, output', hrecord, houtput => by
      obtain ⟨hfailure, hstep⟩ :=
        PropertyPlan.evaluate_reordered mode property hrecord houtput
      obtain ⟨hfailures, hrest⟩ :=
        PropertyPlan.evaluateAll_reordered mode rest hrecord hstep
      rw [PropertyPlan.evaluateAll, PropertyPlan.evaluateAll, hfailure]
      cases (PropertyPlan.evaluate mode property record' output').2 with
      | none => exact ⟨hfailures, hrest⟩
      | some failure =>
          cases mode with
          | assertion => exact ⟨rfl, hstep⟩
          | verbose => exact ⟨congrArg (failure :: ·) hfailures, hrest⟩

theorem PropertyPlan.evaluate_reordered (mode : Mode) :
    ∀ (property : PropertyPlan) {record record' output output' : Entries Json},
      record.Reordered record' → output.Reordered output' →
        (PropertyPlan.evaluate mode property record output).2 =
            (PropertyPlan.evaluate mode property record' output').2 ∧
          Entries.Reordered (PropertyPlan.evaluate mode property record output).1
            (PropertyPlan.evaluate mode property record' output').1
  | ⟨key, required, transforms, checks⟩, record, record', output, output', hrecord, houtput => by
      have hget := hrecord.get? key
      rw [PropertyPlan.evaluate, PropertyPlan.evaluate]
      generalize record.get? key = raw, record'.get? key = raw' at hget
      cases hget with
      | none => exact ⟨rfl, houtput⟩
      | some hraw =>
          obtain ⟨hviolation, hvalue⟩ :=
            Check.runAll_reordered mode checks (hraw.applyAll transforms)
          exact ⟨congrArg (Option.map (Failure.violated key)) hviolation, houtput.put key hvalue⟩

theorem Check.runAll_reordered (mode : Mode) :
    ∀ (checks : List Check) {value value' : Json}, value.Reordered value' →
      (Check.runAll mode checks value).Reordered (Check.runAll mode checks value')
  | [], _, _, h => ⟨rfl, h⟩
  | check :: rest, value, value', h => by
      obtain ⟨hviolation, hvalue⟩ := Check.run_reordered mode check h
      rw [Check.runAll, Check.runAll, hviolation]
      cases (Check.run mode check value').violation with
      | some violation => exact ⟨rfl, hvalue⟩
      | none => exact Check.runAll_reordered mode rest hvalue

theorem Check.run_reordered (mode : Mode) :
    ∀ (check : Check) {value value' : Json}, value.Reordered value' →
      (Check.run mode check value).Reordered (Check.run mode check value')
  | .kind kind, _, _, h => Check.require_of_reordered h (kind.holds_of_reordered h) _
  | .integer, _, _, h => Check.require_of_reordered h (Check.isWhole_of_reordered h) _
  | .startsWith start, _, _, h => Check.checkStart_of_reordered h start
  | .minLength least, _, _, h => Check.checkLength_of_reordered h least
  | .fields plan, _, _, h =>
      Check.ofEvaluation_of_reordered (ObjectPlan.evaluate_reordered mode plan h)
  | .reference plan, _, _, h =>
      Check.ofEvaluation_of_reordered (ObjectPlan.evaluate_reordered mode plan h)
  | .items checks, _, _, h =>
      Check.checkItems_of_reordered (fun _ _ => Check.runAll_reordered mode checks) h

end

namespace ObjectPlan

/-- Values that differ in nothing but the order of keys have the same failures in the same
order, with the same messages, whatever the plan and in both modes, and what becomes of them
differs in nothing but the order of keys. -/
theorem evaluate_of_reordered (plan : ObjectPlan) (mode : Mode) {data data' : Json}
    (h : data.Reordered data') :
    (plan.evaluate mode data).failures = (plan.evaluate mode data').failures ∧
      (plan.evaluate mode data).failures.map (fun failure =>
          (ValidationError.mk plan.name failure).message) =
        (plan.evaluate mode data').failures.map (fun failure =>
          (ValidationError.mk plan.name failure).message) ∧
      (plan.evaluate mode data).value.Reordered (plan.evaluate mode data').value := by
  obtain ⟨hfailures, hvalue⟩ := plan.evaluate_reordered mode h
  exact ⟨hfailures, congrArg (List.map _) hfailures, hvalue⟩

/-- A plan with an object in an array. -/
def sales : ObjectPlan :=
  ⟨"Sale", [⟨"lines", true, [], [.kind .array, .items [.kind .object, .fields
      ⟨"Sale.lines[]", [⟨"item", true, [.trim], [.kind .string]⟩]⟩]]⟩,
    ⟨"id", true, [.trim], [.kind .string, .minLength 3]⟩]⟩

/-- Two orders of the keys of a sale, in the object and in an object inside it. The failures
follow the plan, which has the lines in front, and each output the order of its own value. -/
theorem evaluate_of_reordered_sales :
    let line : Json := .object [("note", .null), ("item", .string " tea ")]
    let line' : Json := .object [("item", .string " tea "), ("note", .null)]
    let data : Json := .object [("id", .string " 7 "), ("lines", .array [line, .null])]
    let data' : Json := .object [("lines", .array [line', .null]), ("id", .string " 7 ")]
    data.Reordered data' ∧
      (sales.evaluate .verbose data).failures = (sales.evaluate .verbose data').failures ∧
      (sales.evaluate .verbose data).value.Reordered (sales.evaluate .verbose data').value ∧
      (sales.report data).errors.map (fun error => (error.property, error.rule)) =
        [("lines", .items), ("id", .minLength)] ∧
      (sales.report data).value.compact =
        "\x7b\"id\":\"7\",\"lines\":[\x7b\"note\":null,\"item\":\"tea\"\x7d,null]\x7d" ∧
      (sales.report data').value.compact =
        "\x7b\"lines\":[\x7b\"item\":\"tea\",\"note\":null\x7d,null],\"id\":\"7\"\x7d" := by
  intro line line' data data'
  have hline : line.Reordered line' :=
    (Json.reordered_object_iff (by decide) (by decide)).mpr
      ⟨_, .cons ⟨rfl, .null⟩ (.cons ⟨rfl, .string " tea "⟩ .nil), .swap _ _ _⟩
  have hdata : data.Reordered data' :=
    (Json.reordered_object_iff (by decide) (by decide)).mpr
      ⟨[("id", .string " 7 "), ("lines", .array [line', .null])],
        .cons ⟨rfl, .string " 7 "⟩ (.cons ⟨rfl, .array (.cons hline (.cons .null .nil))⟩ .nil),
        .swap _ _ _⟩
  obtain ⟨hfailures, -, hvalue⟩ := sales.evaluate_of_reordered .verbose hdata
  exact ⟨hdata, hfailures, hvalue, by decide +kernel, by decide +kernel, by decide +kernel⟩

end ObjectPlan

end RecordSchema
