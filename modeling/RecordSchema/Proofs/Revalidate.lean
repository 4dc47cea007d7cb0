import RecordSchema.Proofs.Distinct
import RecordSchema.Proofs.Modes
import RecordSchema.Proofs.Report
import RecordSchema.Proofs.Transform

/-!
# Validating again

The value of a report has the same report. Where a value was left as its
transforms made it, they do not change it again; where an object or an array was
rewritten, each place holds what judging made of it, and judging that gives the
same verdict by induction along the walk of the interpreter. This includes the
records that do not pass: a walk that stopped at an element stops there again.

The properties of an object may not share a name. Otherwise the second of two
properties with one name would overwrite what the first one left.
-/

namespace RecordSchema

namespace Verdict

/-! ## Rewritten objects -/

/-- Verdicts that an object agrees with already do not change it. -/
theorem rewrite_eq_self {record : Entries Json} {verdicts : List Verdict}
    (h : ∀ verdict ∈ verdicts, ∀ value, verdict.value = some value →
      record.get? verdict.key = some value) :
    rewrite record verdicts = record := by
  induction verdicts with
  | nil => rfl
  | cons verdict rest ih =>
      have hrest := ih fun other hmem => h other (List.mem_cons_of_mem _ hmem)
      cases hvalue : verdict.value with
      | none => simpa [rewrite, hvalue] using hrest
      | some value =>
          have hput := Entries.put_eq_self (h verdict List.mem_cons_self value hvalue)
          simpa [rewrite, hvalue, hput] using hrest

end Verdict

namespace Schema

variable {schema : Schema}

/-- What becomes of the value of a property. -/
def judged (schema : Schema) (spec : PropertySpec) (raw : Json) : Checked :=
  schema.judge spec.type (Transform.applyAll spec.transforms raw)

/-- A property that no verdict is about keeps its value. -/
theorem get?_rewrite_of_not_mem {record : Entries Json} {properties : PropertySet} {name : String}
    (h : name ∉ properties.names) (output : Entries Json) :
    (Verdict.rewrite output (schema.judgeProperties record properties)).get? name =
      output.get? name := by
  induction properties generalizing output with
  | nil => rw [judgeProperties_nil, Verdict.rewrite_nil]
  | cons property rest ih =>
      obtain ⟨key, spec⟩ := property
      rw [Entries.names_cons, List.mem_cons, not_or] at h
      cases hget : record.get? key with
      | none => rw [judgeProperties_cons_of_none hget, Verdict.rewrite_ofMissing, ih h.2]
      | some raw =>
          rw [judgeProperties_cons_of_some hget, Verdict.rewrite_ofChecked, ih h.2,
            Entries.get?_put_of_ne (Ne.symm h.1)]

/-- The rewritten object holds what becomes of the value of each property. -/
theorem get?_rewrite_of_mem {record : Entries Json} {properties : PropertySet}
    (hnodup : properties.names.Nodup) {key : String} {spec : PropertySpec}
    (hmem : (key, spec) ∈ properties) {output : Entries Json}
    (houtput : output.get? key = record.get? key) :
    (Verdict.rewrite output (schema.judgeProperties record properties)).get? key =
      (record.get? key).map fun raw => (schema.judged spec raw).value := by
  induction properties generalizing output with
  | nil => cases hmem
  | cons property rest ih =>
      obtain ⟨first, spec'⟩ := property
      rw [Entries.names_cons, List.nodup_cons] at hnodup
      rcases List.mem_cons.mp hmem with heq | hrest
      · cases heq
        cases hget : record.get? key with
        | none =>
            rw [judgeProperties_cons_of_none hget, Verdict.rewrite_ofMissing,
              get?_rewrite_of_not_mem hnodup.1, houtput, hget]
            rfl
        | some raw =>
            rw [judgeProperties_cons_of_some hget, Verdict.rewrite_ofChecked,
              get?_rewrite_of_not_mem hnodup.1, Entries.get?_put_self]
            rfl
      · have hne : first ≠ key := by
          rintro rfl
          exact hnodup.1 (List.mem_map.mpr ⟨(first, spec), hrest, rfl⟩)
        cases hget : record.get? first with
        | none =>
            rw [judgeProperties_cons_of_none hget, Verdict.rewrite_ofMissing]
            exact ih hnodup.2 hrest houtput
        | some raw =>
            rw [judgeProperties_cons_of_some hget, Verdict.rewrite_ofChecked]
            apply ih hnodup.2 hrest
            rw [Entries.get?_put_of_ne hne, houtput]

/-- A verdict with a value is about a property of the record and says what becomes
of it. -/
theorem exists_of_mem_judgeProperties {record : Entries Json} {properties : PropertySet}
    {verdict : Verdict} (hmem : verdict ∈ schema.judgeProperties record properties)
    {value : Json} (hvalue : verdict.value = some value) :
    ∃ spec raw, (verdict.key, spec) ∈ properties ∧ record.get? verdict.key = some raw ∧
      value = (schema.judged spec raw).value := by
  induction properties with
  | nil =>
      rw [judgeProperties_nil] at hmem
      cases hmem
  | cons property rest ih =>
      obtain ⟨key, spec⟩ := property
      cases hget : record.get? key with
      | none =>
          rw [judgeProperties_cons_of_none hget] at hmem
          rcases List.mem_cons.mp hmem with rfl | hrest
          · cases hvalue
          · obtain ⟨spec', raw', hspec, hraw⟩ := ih hrest
            exact ⟨spec', raw', List.mem_cons_of_mem _ hspec, hraw⟩
      | some raw =>
          rw [judgeProperties_cons_of_some hget] at hmem
          rcases List.mem_cons.mp hmem with rfl | hrest
          · cases hvalue
            exact ⟨spec, raw, List.mem_cons_self, hget, rfl⟩
          · obtain ⟨spec', raw', hspec, hraw⟩ := ih hrest
            exact ⟨spec', raw', List.mem_cons_of_mem _ hspec, hraw⟩

/-- Each property has in `record'` the value that becomes of the one in `record`. -/
def IsRewritten (schema : Schema) (properties : PropertySet) (record record' : Entries Json) :
    Prop :=
  ∀ key spec, (key, spec) ∈ properties →
    record'.get? key = (record.get? key).map fun raw => (schema.judged spec raw).value

theorem isRewritten_rewrite {properties : PropertySet} (hnodup : properties.names.Nodup)
    (record : Entries Json) :
    schema.IsRewritten properties record
      (Verdict.rewrite record (schema.judgeProperties record properties)) :=
  fun _ _ hmem => get?_rewrite_of_mem hnodup hmem rfl

/-- An object whose properties have been rewritten is not changed by the same
verdicts again. -/
theorem rewrite_of_isRewritten {properties : PropertySet} {record record' : Entries Json}
    (h : schema.IsRewritten properties record record') :
    Verdict.rewrite record' (schema.judgeProperties record properties) = record' := by
  apply Verdict.rewrite_eq_self
  intro verdict hmem value hvalue
  obtain ⟨spec, raw, hspec, hget, rfl⟩ := exists_of_mem_judgeProperties hmem hvalue
  rw [h verdict.key spec hspec, hget, Option.map_some]

/-! ## Judging again -/

theorem judge_value_cases (schema : Schema) (type : PropertyType) (value : Json) :
    (schema.judge type value).value = value ∨
      (∃ elements, (schema.judge type value).value = .array elements) ∨
      ∃ members, (schema.judge type value).value = .object members := by
  rw [judge.eq_def]
  split
  · exact .inl rfl
  · exact .inl rfl
  · exact .inl rfl
  · exact .inr (.inr ⟨_, rfl⟩)
  · exact .inr (.inr ⟨_, rfl⟩)
  · split
    · exact .inl rfl
    · exact .inr (.inl ⟨_, rfl⟩)
  · exact .inl rfl

/-- The transforms of a property do not change what becomes of its value. -/
theorem applyAll_judged (spec : PropertySpec) (raw : Json) :
    Transform.applyAll spec.transforms (schema.judged spec raw).value =
      (schema.judged spec raw).value := by
  rcases judge_value_cases schema spec.type (Transform.applyAll spec.transforms raw) with
    hself | ⟨elements, harray⟩ | ⟨members, hobject⟩
  · rw [judged, hself, Transform.applyAll_applyAll]
  · rw [judged, harray, Transform.applyAll_array]
  · rw [judged, hobject, Transform.applyAll_object]

theorem length_judgeElements (schema : Schema) (type : PropertyType) (index : Nat)
    (elements : List Json) :
    (schema.judgeElements type index elements).1.length = elements.length := by
  induction elements generalizing index with
  | nil => rw [judgeElements]
  | cons element rest ih =>
      rw [judgeElements]
      dsimp only
      cases (schema.judge type element).violation with
      | some violation => rfl
      | none => simp [ih]

/-- Judging what has become of a value gives the same verdict again. -/
def TypeSettles (schema : Schema) (type : PropertyType) (value : Json) : Prop :=
  type.Distinct → schema.judge type (schema.judge type value).value = schema.judge type value

def ElementsSettle (schema : Schema) (type : PropertyType) (index : Nat) (elements : List Json) :
    Prop :=
  type.Distinct →
    schema.judgeElements type index (schema.judgeElements type index elements).1 =
      schema.judgeElements type index elements

def PropertiesSettle (schema : Schema) (record : Entries Json) (properties : PropertySet) : Prop :=
  (∀ key spec, (key, spec) ∈ properties → spec.type.Distinct) →
    ∀ record', schema.IsRewritten properties record record' →
      schema.judgeProperties record' properties = schema.judgeProperties record properties

/-- An object that has been rewritten is judged as before, and not rewritten again. -/
theorem PropertiesSettle.ofObject {record : Entries Json} {properties : PropertySet}
    (h : schema.PropertiesSettle record properties) (hdistinct : properties.Distinct) :
    let rewritten := Verdict.rewrite record (schema.judgeProperties record properties)
    schema.judgeProperties rewritten properties = schema.judgeProperties record properties ∧
      Verdict.rewrite rewritten (schema.judgeProperties record properties) = rewritten := by
  intro rewritten
  have hrewritten : schema.IsRewritten properties record rewritten :=
    isRewritten_rewrite hdistinct.nodup record
  exact ⟨h hdistinct.type rewritten hrewritten, rewrite_of_isRewritten hrewritten⟩

theorem settles (hschema : schema.Distinct) :
    (∀ type value, schema.TypeSettles type value) ∧
    (∀ type index elements, schema.ElementsSettle type index elements) ∧
    (∀ record properties, schema.PropertiesSettle record properties) := by
  apply judge.mutual_induct schema schema.TypeSettles schema.ElementsSettle
    schema.PropertiesSettle
  · intro minLength start text _
    rw [judge, judge]
  · intro isInteger n _
    rw [judge, judge]
  · intro truth _
    rw [judge, judge]
  · intro properties record ih hdistinct
    obtain ⟨hverdicts, hrewrite⟩ := ih.ofObject (PropertyType.distinct_object_iff.mp hdistinct)
    rw [judge, Verdict.ofObject]
    dsimp only
    rw [judge, Verdict.ofObject, hverdicts, hrewrite]
  · intro target record ih _
    obtain ⟨hverdicts, hrewrite⟩ := ih.ofObject (hschema.get?_getD target)
    rw [judge, Verdict.ofObject]
    dsimp only
    rw [judge, Verdict.ofObject, hverdicts, hrewrite]
  · intro minLength type required transforms elements violation hlength _
    rw [judge, hlength]
    dsimp only
    rw [judge, hlength]
  · -- judging keeps the number of elements, so that the least length holds again
    intro minLength type required transforms elements hlength ih hdistinct
    have hitems := ih (PropertyType.distinct_array_iff.mp hdistinct)
    rw [judge, hlength]
    dsimp only
    rw [judge, length_judgeElements, hlength]
    dsimp only
    rw [hitems]
  · intro type value hstring hnumber hboolean hobject hnamed harray _
    have hkind := PropertyType.kind_not_holds hstring hnumber hboolean hobject hnamed harray
    rw [judge_of_kind_not_holds hkind, judge_of_kind_not_holds hkind]
  · intro type index _
    rw [judgeElements, judgeElements]
  · -- the walk stopped at this element, and the rest is as it was
    intro type index element rest checked violation hviolation ih hdistinct
    rw [judgeElements]
    dsimp only
    rw [hviolation]
    dsimp only
    rw [judgeElements, ih hdistinct]
    dsimp only
    rw [hviolation]
  · intro type index element rest checked hviolation ih ihrest hdistinct
    rw [judgeElements]
    dsimp only
    rw [hviolation]
    dsimp only
    rw [judgeElements, ih hdistinct]
    dsimp only
    rw [hviolation]
    dsimp only
    rw [ihrest hdistinct]
  · intro record _ record' _
    rw [judgeProperties_nil, judgeProperties_nil]
  · intro record key spec rest hget ih hdistinct record' hrewritten
    have hget' := hrewritten key spec List.mem_cons_self
    rw [hget, Option.map_none] at hget'
    rw [judgeProperties_cons_of_none hget, judgeProperties_cons_of_none hget']
    rw [ih (fun key' spec' hmem => hdistinct key' spec' (List.mem_cons_of_mem _ hmem)) record'
      fun key' spec' hmem => hrewritten key' spec' (List.mem_cons_of_mem _ hmem)]
  · intro record key spec rest raw hget ih ihrest hdistinct record' hrewritten
    have hget' := hrewritten key spec List.mem_cons_self
    rw [hget, Option.map_some] at hget'
    have hspec := ih (hdistinct key spec List.mem_cons_self)
    rw [judgeProperties_cons_of_some hget, judgeProperties_cons_of_some hget', applyAll_judged,
      judged, hspec]
    rw [ihrest (fun key' spec' hmem => hdistinct key' spec' (List.mem_cons_of_mem _ hmem)) record'
      fun key' spec' hmem => hrewritten key' spec' (List.mem_cons_of_mem _ hmem)]

/-! ## Reports -/

theorem interpret_interpret (hschema : schema.Distinct) (name : String) (record : Json) :
    schema.interpret name (schema.interpret name record).value = schema.interpret name record := by
  cases record with
  | object members =>
      obtain ⟨hverdicts, hrewrite⟩ :=
        ((settles hschema).2.2 members _).ofObject (hschema.get?_getD name)
      rw [interpret]
      dsimp only
      rw [interpret, hverdicts, hrewrite]
  | _ => rfl

/-- For every schema that compiles, with distinct names in its property sets as
`PropertySet.insert` keeps them, and every record, valid or not, the value of the
report has the same report. So a value that an assertion has let through is let
through again, unchanged. -/
theorem compiled_report_settles {schema : Schema} {compiled : CompiledSchema}
    (hcompile : schema.compile.outcome = .ok compiled) (hdistinct : schema.Distinct)
    {name : String} (hname : name ∈ schema.names) :
    ∃ plan, compiled.get? name = some plan ∧
      ∀ record, plan.report (plan.report record).value = plan.report record ∧
        ∀ value, plan.assert record = .ok value → plan.assert value = .ok value := by
  obtain ⟨hclosed, hacyclic, -⟩ := of_compile_eq_ok hcompile
  refine ⟨schema.planOf name, ?_, fun record => ?_⟩
  · rw [get?_of_compile hcompile, if_pos hname]
  have hreport := report_planOf hclosed hacyclic hname
  have hsettled : (schema.planOf name).report ((schema.planOf name).report record).value =
      (schema.planOf name).report record := by
    rw [hreport, hreport, interpret_interpret hdistinct]
  refine ⟨hsettled, fun value hassert => ?_⟩
  rw [ObjectPlan.assert_eq_ok_iff] at hassert ⊢
  rwa [hassert] at hsettled

theorem orders_distinct : orders.Distinct := by
  intro name properties hmem
  rcases List.mem_pair.mp hmem with heq | heq
  · cases heq
    refine ⟨by decide, fun key spec hspec => ?_⟩
    cases List.mem_singleton.mp hspec
    exact .string _ _
  · cases heq
    refine ⟨by decide, fun key spec hspec => ?_⟩
    rcases List.mem_cons.mp hspec with heq | hspec
    · cases heq
      exact .number _
    rcases List.mem_pair.mp hspec with heq | heq
    · cases heq
      exact .named _
    · cases heq
      exact .array (.named _)

theorem compiled_report_settles_orders :
    ∃ compiled, orders.compile.outcome = .ok compiled ∧ orders.Distinct ∧
      "Order" ∈ orders.names ∧
      ∃ plan, compiled.get? "Order" = some plan ∧
        plan.report (plan.report (orderFor " A " [" Bo ", " C ", " Di "])).value =
          plan.report (orderFor " A " [" Bo ", " C ", " Di "]) ∧
        ∀ value, plan.assert (orderFor " Al " [" Bo "]) = .ok value →
          plan.assert value = .ok value := by
  obtain ⟨compiled, hcompile⟩ := exists_compile_orders
  have hname : "Order" ∈ orders.names := by decide
  obtain ⟨plan, hget, hsettles⟩ := compiled_report_settles hcompile orders_distinct hname
  exact ⟨compiled, hcompile, orders_distinct, hname, plan, hget, (hsettles _).1, (hsettles _).2⟩

end Schema

end RecordSchema
