import RecordSchema.Proofs.Number.Whole
import RecordSchema.Proofs.Visits

/-!
# The rule `isInteger` behind `toInteger`

Transforms settle, so what comes out of a list with `toInteger` in it is what `toInteger` leaves
alone. A number that it leaves alone is whole, and integers of 64 bits are among them. In a
compiled plan the check for whole numbers asks only numbers, so a property with `toInteger` may
fail by its kind, but never by `isInteger`.

`ObjectPlan.Inside` relates the plans that the evaluation of a plan comes to, at any depth.

Main statement: `Transform.toInteger_settles_isInteger`.
-/

namespace RecordSchema

namespace Transform

/-! ## What comes out of `toInteger` -/

theorem apply_eq_null_iff (transform : Transform) (value : Json) :
    transform.apply value = .null ↔ value = .null := by
  cases value with
  | null => exact iff_of_true rfl rfl
  | boolean _ => exact iff_of_false (by rintro ⟨⟩) (by rintro ⟨⟩)
  | array _ => exact iff_of_false (by rintro ⟨⟩) (by rintro ⟨⟩)
  | object _ => exact iff_of_false (by rintro ⟨⟩) (by rintro ⟨⟩)
  | number n =>
      refine iff_of_false ?_ (by rintro ⟨⟩)
      rcases apply_number_cases transform n with h | h
      · rw [h]
        rintro ⟨⟩
      · rw [h]
        rintro ⟨⟩
  | string text =>
      refine iff_of_false ?_ (by rintro ⟨⟩)
      cases transform with
      | trim => rintro ⟨⟩
      | lowercase => rintro ⟨⟩
      | toInteger =>
          rcases apply_toInteger_string_cases text with ⟨-, h⟩ | ⟨n, -, h⟩
          · rw [h]
            rintro ⟨⟩
          · rw [h]
            rintro ⟨⟩

/-- Null comes out of null alone. -/
theorem applyAll_eq_null_iff (transforms : List Transform) (value : Json) :
    applyAll transforms value = .null ↔ value = .null := by
  induction transforms generalizing value with
  | nil => rfl
  | cons transform rest ih => rw [applyAll_cons, ih, apply_eq_null_iff]

variable {transforms : List Transform} {value : Json} {n : Number}

theorem truncate_of_applyAll (h : toInteger ∈ transforms)
    (hn : applyAll transforms value = .number n) : n.truncate = n := by
  have hkeep := apply_applyAll_of_mem h value
  rw [hn] at hkeep
  exact Json.number.inj hkeep

/-- The other transforms of a list do nothing to a number that `toInteger` makes. -/
theorem applyAll_of_apply_toInteger (h : toInteger ∈ transforms)
    (hn : toInteger.apply value = .number n) : applyAll transforms value = .number n := by
  have hkeep : n.truncate = n := by
    have happly := apply_apply toInteger value
    rw [hn] at happly
    exact Json.number.inj happly
  calc applyAll transforms value
      = toInteger.apply (applyAll transforms value) := (apply_applyAll_of_mem h value).symm
    _ = applyAll transforms (toInteger.apply value) :=
        apply_applyAll_comm toInteger transforms value
    _ = applyAll transforms (.number n) := by rw [hn]
    _ = .number n := applyAll_eq_self fun transform _ => apply_number_of_truncate hkeep transform

theorem apply_toInteger_of_integerText {text : String} {i : Integer}
    (h : IntegerText (Text.trim text.toList) i.value) :
    toInteger.apply (.string text) = .number (.integer i) := by
  rw [apply_toInteger_string, h.ofWholeText?]

end Transform

/-! ## Plans inside a plan -/

/-- The check has the plan, for the value itself or for the elements of an array. -/
inductive Check.Holds (nested : ObjectPlan) : Check → Prop
  | fields : Holds nested (.fields nested)
  | reference : Holds nested (.reference nested)
  | items {checks : List Check} {check : Check} (hmem : check ∈ checks) (h : Holds nested check) :
      Holds nested (.items checks)

/-- The plan is the other one, or a property of a plan inside that one has a check for it. -/
inductive ObjectPlan.Inside (plan : ObjectPlan) : ObjectPlan → Prop
  | self : Inside plan plan
  | deeper {middle nested : ObjectPlan} {property : PropertyPlan} {check : Check}
      (h : Inside plan middle) (hproperty : property ∈ middle.properties)
      (hcheck : check ∈ property.checks) (hholds : check.Holds nested) : Inside plan nested

theorem PropertyPlan.guarded_of_mem {properties : List PropertyPlan} (h : GuardedAll properties)
    {property : PropertyPlan} (hmem : property ∈ properties) : property.Guarded := by
  induction properties with
  | nil => cases hmem
  | cons first rest ih =>
      rw [GuardedAll] at h
      rcases List.mem_cons.mp hmem with rfl | hrest
      · exact h.1
      · exact ih h.2 hrest

namespace Check

theorem suits_of_mem {kind : ValueKind} {checks : List Check} (h : SuitAll kind checks)
    {check : Check} (hmem : check ∈ checks) : check.Suits kind := by
  induction checks with
  | nil => cases hmem
  | cons first rest ih =>
      rw [SuitAll] at h
      rcases List.mem_cons.mp hmem with rfl | hrest
      · exact h.1
      · exact ih h.2 hrest

theorem exists_suits_of_guardedAll {checks : List Check} (h : GuardedAll checks) :
    ∃ kind, ∀ check ∈ checks, check.Suits kind := by
  cases checks with
  | nil => cases h
  | cons first rest =>
      cases first with
      | kind kind =>
          rw [GuardedAll] at h
          exact ⟨kind, List.forall_mem_cons.mpr ⟨by rw [Suits]; trivial, fun _ => suits_of_mem h⟩⟩
      | _ => cases h

theorem Holds.guarded {nested : ObjectPlan} {check : Check} (h : check.Holds nested)
    {kind : ValueKind} (hsuits : check.Suits kind) : nested.Guarded := by
  induction h generalizing kind with
  | fields =>
      rw [Suits] at hsuits
      exact hsuits.2
  | reference =>
      rw [Suits] at hsuits
      exact hsuits.2
  | items hmem _ ih =>
      rw [Suits] at hsuits
      obtain ⟨kind', hall⟩ := exists_suits_of_guardedAll hsuits.2
      exact ih (hall _ hmem)

end Check

theorem ObjectPlan.Guarded.property {plan : ObjectPlan} (h : plan.Guarded)
    {property : PropertyPlan} (hmem : property ∈ plan.properties) :
    Check.GuardedAll property.checks := by
  obtain ⟨name, properties⟩ := plan
  rw [Guarded] at h
  obtain ⟨key, required, transforms, checks⟩ := property
  have hproperty := PropertyPlan.guarded_of_mem h hmem
  rwa [PropertyPlan.Guarded] at hproperty

theorem ObjectPlan.Inside.guarded {plan nested : ObjectPlan} (h : plan.Inside nested)
    (hplan : plan.Guarded) : nested.Guarded := by
  induction h with
  | self => exact hplan
  | deeper _ hproperty hcheck hholds ih =>
      obtain ⟨kind, hall⟩ := Check.exists_suits_of_guardedAll (ih.property hproperty)
      exact hholds.guarded (hall _ hcheck)

/-! ## The rule `isInteger` -/

namespace Check

variable {mode : Mode} {kind : ValueKind} {value : Json} {violation : Violation}

theorem eq_of_require {holds : Bool} {broken : Violation}
    (h : (require value holds broken).violation = some violation) : violation = broken := by
  cases holds <;> cases h
  rfl

theorem rule_of_checkStart {start : String}
    (h : (checkStart start value).violation = some violation) : violation.rule = .startsWith := by
  cases value with
  | string text => rw [eq_of_require h, Violation.rule]
  | _ => cases h

theorem rule_of_checkLength {least : UInt64}
    (h : (checkLength least value).violation = some violation) : violation.rule = .minLength := by
  cases value with
  | string text => rw [eq_of_require h, Violation.rule]
  | array elements => rw [eq_of_require h, Violation.rule]
  | _ => cases h

theorem rule_of_ofEvaluation {evaluation : Evaluation}
    (h : (ofEvaluation evaluation).violation = some violation) : violation.rule = .properties := by
  obtain ⟨failure, -, rfl⟩ := Option.map_eq_some_iff.mp h
  rfl

theorem rule_of_checkElements {check : Json → Checked} {index : Nat} {elements : List Json}
    (h : (checkElements check index elements).2 = some violation) : violation.rule = .items := by
  induction elements generalizing index with
  | nil => cases h
  | cons element rest ih =>
      rw [checkElements] at h
      dsimp only at h
      split at h
      · cases h
        rfl
      · exact ih h

theorem rule_of_checkItems {check : Json → Checked}
    (h : (checkItems check value).violation = some violation) : violation.rule = .items := by
  cases value with
  | array elements => exact rule_of_checkElements h
  | _ => cases h

/-- Only the check for whole numbers fails by `isInteger`. -/
theorem rule_of_run {check : Check} (hcheck : check ≠ .integer)
    (h : (run mode check value).violation = some violation) : violation.rule ≠ .isInteger := by
  cases check with
  | kind asked =>
      rw [eq_of_require h]
      rintro ⟨⟩
  | integer => exact absurd rfl hcheck
  | startsWith start =>
      rw [rule_of_checkStart h]
      decide
  | minLength least =>
      rw [rule_of_checkLength h]
      decide
  | fields plan =>
      rw [rule_of_ofEvaluation h]
      decide
  | reference plan =>
      rw [rule_of_ofEvaluation h]
      decide
  | items checks =>
      rw [rule_of_checkItems h]
      decide

/-- Checks for numbers leave the value alone. -/
theorem run_value_of_suits_number {check : Check} (h : check.Suits .number) :
    (run mode check value).value = value := by
  cases check with
  | kind asked => rfl
  | integer => rfl
  | startsWith start => exact checkStart_value start value
  | minLength least => exact checkLength_value least value
  | fields plan =>
      rw [Suits] at h
      cases h.1
  | reference plan =>
      rw [Suits] at h
      cases h.1
  | items checks =>
      rw [Suits] at h
      cases h.1

theorem rule_of_suitAll {checks : List Check} (hsuits : SuitAll kind checks)
    (hwhole : kind = .number → isWhole value = true)
    (h : (runAll mode checks value).violation = some violation) : violation.rule ≠ .isInteger := by
  induction checks generalizing value with
  | nil => cases h
  | cons check rest ih =>
      rw [SuitAll] at hsuits
      rw [runAll] at h
      split at h
      · case h_1 found hfound =>
          cases h
          by_cases hcheck : check = .integer
          · subst hcheck
            have hkind := hsuits.1
            rw [Suits] at hkind
            rw [run, hwhole hkind] at hfound
            cases hfound
          · exact rule_of_run hcheck hfound
      · refine ih hsuits.2 (fun hkind => ?_) h
        subst hkind
        rw [run_value_of_suits_number hsuits.1]
        exact hwhole rfl

/-- Guarded checks ask whether a number is whole of numbers only. -/
theorem rule_of_guardedAll {checks : List Check} (hguarded : GuardedAll checks)
    (hwhole : ∀ n, value = .number n → n.isWhole = true)
    (h : (runAll mode checks value).violation = some violation) : violation.rule ≠ .isInteger := by
  cases checks with
  | nil => cases h
  | cons check rest =>
      cases check with
      | kind kind =>
          rw [GuardedAll] at hguarded
          rw [runAll, run, require] at h
          cases hkind : kind.holds value with
          | false =>
              rw [hkind] at h
              cases h
              rintro ⟨⟩
          | true =>
              rw [hkind] at h
              refine rule_of_suitAll hguarded (fun hnumber => ?_) h
              subst hnumber
              cases value with
              | number n => exact hwhole n rfl
              | _ => cases hkind
      | _ => cases hguarded

end Check

/-- A property with `toInteger` among its transforms does not fail by `isInteger`, if its checks
are guarded. -/
theorem PropertyPlan.rule_of_toInteger {property : PropertyPlan}
    (hguarded : Check.GuardedAll property.checks) (htransform : .toInteger ∈ property.transforms)
    {mode : Mode} {record output : Entries Json} {failure : Failure}
    (h : (property.evaluate mode record output).2 = some failure) : failure.rule ≠ .isInteger := by
  obtain ⟨key, required, transforms, checks⟩ := property
  rw [evaluate] at h
  split at h
  · case h_1 =>
      cases required with
      | false => cases h
      | true =>
          cases h
          rintro ⟨⟩
  · case h_2 raw _ =>
      obtain ⟨violation, hviolation, rfl⟩ := Option.map_eq_some_iff.mp h
      exact Check.rule_of_guardedAll hguarded (fun n hn =>
        Number.isWhole_of_truncate (Transform.truncate_of_applyAll htransform hn)) hviolation

/-- `toInteger` settles whether a value is a whole number, wherever it stands in a list of
transforms. A number that comes out of the list is whole, and an integer if a signed word holds
it; integers of 64 bits and texts of digits that spell one come out as this integer; and null
comes out of null alone. So in a compiled plan, at any depth and in both modes, a property whose
transforms have `toInteger` among them does not fail by the rule `isInteger`. -/
theorem Transform.toInteger_settles_isInteger :
    (∀ transforms : List Transform, toInteger ∈ transforms →
      (∀ value n, applyAll transforms value = .number n →
        n.isWhole = true ∧ (∃ z : ℤ, n.value = z) ∧
          (-2 ^ 63 ≤ n.value → n.value < 2 ^ 63 → ∃ i, n = .integer i)) ∧
      (∀ i : Integer, applyAll transforms (.number (.integer i)) = .number (.integer i)) ∧
      (∀ (i : Integer) (text : String), IntegerText (Text.trim text.toList) i.value →
        applyAll transforms (.string text) = .number (.integer i)) ∧
      ∀ value, applyAll transforms value = .null → value = .null) ∧
    ∀ (schema : Schema) (compiled : CompiledSchema), schema.compile.outcome = .ok compiled →
      ∀ name plan, compiled.get? name = some plan →
        ∀ nested, plan.Inside nested → ∀ property ∈ nested.properties,
          .toInteger ∈ property.transforms → ∀ mode record output failure,
            (property.evaluate mode record output).2 = some failure →
              failure.rule ≠ .isInteger := by
  constructor
  · intro transforms hmem
    refine ⟨fun value n hn => ?_, fun i => ?_, fun i text htext => ?_, fun value h => ?_⟩
    · have hkeep := truncate_of_applyAll hmem hn
      have hwhole := Number.isWhole_of_truncate hkeep
      exact ⟨hwhole, n.isWhole_iff.mp hwhole, Number.exists_integer_of_truncate hkeep⟩
    · exact applyAll_of_apply_toInteger hmem rfl
    · exact applyAll_of_apply_toInteger hmem (apply_toInteger_of_integerText htext)
    · exact (applyAll_eq_null_iff transforms value).mp h
  · intro schema compiled hcompile name plan hget nested hinside property hproperty htransform
      mode record output failure hfailure
    rw [Schema.get?_of_compile hcompile] at hget
    split at hget
    · cases hget
      have hguarded := hinside.guarded (schema.planOf_guarded name)
      exact PropertyPlan.rule_of_toInteger (hguarded.property hproperty) htransform hfailure
    · cases hget

/-- Shipments of parcels, whose weights may be given as texts. -/
def Schema.shipments : Schema :=
  [("Shipment",
    [("parcels", .array (.object [("grams", ⟨.number true, true, [.trim, .toInteger]⟩)]))])]

theorem Schema.shipments_refersTo (owner target : String) : ¬ shipments.RefersTo owner target := by
  rintro ⟨properties, hget, hmentions⟩
  rw [← PropertySet.mem_referencesIn_iff target ""] at hmentions
  cases List.mem_singleton.mp (Entries.mem_of_get? hget)
  cases hmentions

theorem Schema.exists_compile_shipments :
    ∃ compiled, shipments.compile.outcome = .ok compiled := by
  refine (exists_compile_iff shipments).mpr ⟨closed_of_checkTargets rfl, fun name hcycle => ?_⟩
  obtain ⟨target, hrefers, -⟩ := Relation.TransGen.head'_iff.mp hcycle
  exact shipments_refersTo name target hrefers

/-- The weight of a parcel. -/
def gramsPlan : PropertyPlan :=
  ⟨"grams", true, [.trim, .toInteger], [.kind .number, .integer]⟩

/-- The greatest integer of a word is read from a text without rounding. In a shipment a weight
with its unit is no number, and that is what it fails by. -/
theorem Transform.toInteger_settles_isInteger_shipments :
    applyAll [.trim, .toInteger] (.string " +18446744073709551615\n") =
        .number (.integer ⟨18446744073709551615, by decide, by decide⟩) ∧
      ∃ compiled plan nested, Schema.shipments.compile.outcome = .ok compiled ∧
        compiled.get? "Shipment" = some plan ∧ plan.Inside nested ∧
        gramsPlan ∈ nested.properties ∧ .toInteger ∈ gramsPlan.transforms ∧
        ∃ failure, (gramsPlan.evaluate .verbose [("grams", .string "12.5 g")] []).2 =
          some failure ∧ failure.rule = .type ∧ failure.rule ≠ .isInteger := by
  obtain ⟨htransforms, hplans⟩ := toInteger_settles_isInteger
  obtain ⟨-, -, htexts, -⟩ := htransforms [.trim, .toInteger] (by decide)
  obtain ⟨compiled, hcompile⟩ := Schema.exists_compile_shipments
  have hget := Schema.get?_of_compile hcompile "Shipment"
  rw [if_pos (by decide)] at hget
  have hinside : (Schema.shipments.planOf "Shipment").Inside ⟨"Shipment.parcels[]", [gramsPlan]⟩ :=
    .deeper .self List.mem_cons_self (List.mem_cons_of_mem _ List.mem_cons_self)
      (.items (List.mem_cons_of_mem _ List.mem_cons_self) .fields)
  have hmem : .toInteger ∈ gramsPlan.transforms := by decide
  have htext : IntegerText (Text.trim " +18446744073709551615\n".toList) 18446744073709551615 := by
    have h := IntegerText.spelled .plus
      (show IsDigits "18446744073709551615".toList by decide) (by decide)
    convert h using 1 <;> decide +kernel
  refine ⟨htexts ⟨18446744073709551615, by decide, by decide⟩ _ htext, compiled, _, _, hcompile,
    hget, hinside, List.mem_cons_self, hmem, _, rfl, rfl, ?_⟩
  exact hplans _ _ hcompile _ _ hget _ hinside _ List.mem_cons_self hmem .verbose
    [("grams", .string "12.5 g")] [] _ rfl

end RecordSchema
