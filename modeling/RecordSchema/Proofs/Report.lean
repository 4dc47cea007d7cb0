import RecordSchema.Proofs.Compile
import RecordSchema.Proofs.Interpret

/-!
# Compiled plans report what the schema says

The plan of a type, run in the verbose mode, gives the report that
`Schema.interpret` reads off the schema. The two are compared along a walk of the
interpreter, where a plan is looked up at the same place as the type: at a named
type `Schema.planOf_eq` puts the plan of the target in the form of its
properties.
-/

namespace RecordSchema

namespace Check

variable {mode : Mode} {value : Json}

/-! ## Runs of checks -/

theorem runAll_cons_of_some {check : Check} {violation : Violation}
    (h : (run mode check value).violation = some violation) (rest : List Check) :
    runAll mode (check :: rest) value = ⟨(run mode check value).value, some violation⟩ := by
  simp only [runAll, h]

theorem runAll_cons_of_none {check : Check} (h : (run mode check value).violation = none)
    (rest : List Check) :
    runAll mode (check :: rest) value = runAll mode rest (run mode check value).value := by
  simp only [runAll, h]

theorem runAll_singleton (check : Check) (value : Json) :
    runAll mode [check] value = run mode check value := by
  cases h : (run mode check value).violation with
  | none => rw [runAll_cons_of_none h, runAll, ← h]
  | some violation => rw [runAll_cons_of_some h, ← h]

theorem runAll_kind_of_holds {kind : ValueKind} (h : kind.holds value = true) (rest : List Check) :
    runAll mode (.kind kind :: rest) value = runAll mode rest value := by
  have hrun : run mode (.kind kind) value = ⟨value, none⟩ := by
    rw [run, require, if_pos h]
  rw [runAll_cons_of_none (by rw [hrun]), hrun]

theorem runAll_kind_of_not_holds {kind : ValueKind} (h : kind.holds value = false)
    (rest : List Check) :
    runAll mode (.kind kind :: rest) value = ⟨value, some (.wrongKind kind)⟩ := by
  have hrun : run mode (.kind kind) value = ⟨value, some (.wrongKind kind)⟩ := by
    rw [run, require, if_neg (by rw [h]; exact Bool.false_ne_true)]
  rw [runAll_cons_of_some (by rw [hrun]), hrun]

theorem require_of_broken {holds broken : Bool} (h : holds = !broken) (violation : Violation) :
    require value holds violation = ⟨value, if broken then some violation else none⟩ := by
  rw [require, h]
  cases broken <;> rfl

/-- A check that is there for a rule that may be absent. -/
theorem runAll_option_append {α : Type} {check : α → Check} {broken : α → Bool}
    {violation : α → Violation}
    (h : ∀ limit, run mode (check limit) value =
      ⟨value, if broken limit then some (violation limit) else none⟩)
    (limit : Option α) (rest : List Check) :
    runAll mode ((limit.map check).toList ++ rest) value =
      match (limit.filter broken).map violation with
      | some found => ⟨value, some found⟩
      | none => runAll mode rest value := by
  cases limit with
  | none => rfl
  | some limit =>
      have hrun := h limit
      rw [Option.map_some, Option.toList_some, List.singleton_append, Option.filter_some]
      cases hbroken : broken limit with
      | false =>
          rw [hbroken, if_neg Bool.false_ne_true] at hrun
          rw [runAll_cons_of_none (by rw [hrun]), hrun]
          rfl
      | true =>
          rw [hbroken, if_pos rfl] at hrun
          rw [runAll_cons_of_some (by rw [hrun]), hrun]
          rfl

/-! ## The checks of the primitives -/

theorem runAll_ofString (minLength : Option UInt64) (start : Option String) (text : String) :
    runAll mode (ofString minLength start) (.string text) =
      ⟨.string text, textViolation? minLength start text⟩ := by
  have hstart : ∀ start : String, run mode (.startsWith start) (.string text) =
      ⟨.string text,
        if decide (¬ start.toList <+: text.toList) then some (.wrongStart start) else none⟩ := by
    intro start
    rw [run, checkStart]
    refine require_of_broken ?_ _
    rw [textStarts, decide_not, Bool.not_not, Bool.eq_iff_iff, decide_eq_true_iff,
      List.isPrefixOf_iff_prefix]
  have hlength : ∀ least : UInt64, run mode (.minLength least) (.string text) =
      ⟨.string text,
        if decide (text.length < least.toNat) then some (.tooFewCharacters least) else none⟩ := by
    intro least
    rw [run, checkLength]
    refine require_of_broken ?_ _
    rw [← decide_not]
    exact decide_eq_decide.mpr Nat.not_lt.symm
  rw [ofString, List.append_assoc, List.singleton_append, runAll_kind_of_holds rfl,
    runAll_option_append hstart, ← List.append_nil (Option.toList _),
    runAll_option_append hlength, textViolation?]
  cases (start.filter fun start => decide (¬ start.toList <+: text.toList)) with
  | some start => rfl
  | none =>
      cases (minLength.filter fun least => decide (text.length < least.toNat)) with
      | some least => rfl
      | none => rfl

theorem runAll_ofNumber (isInteger : Bool) (n : Number) :
    runAll mode (ofNumber isInteger) (.number n) =
      ⟨.number n, numberViolation? isInteger n⟩ := by
  cases isInteger with
  | false =>
      rw [ofNumber, if_neg Bool.false_ne_true, runAll_kind_of_holds rfl]
      rfl
  | true =>
      rw [ofNumber, if_pos rfl, runAll_kind_of_holds rfl, runAll_singleton, run, isWhole,
        numberViolation?, require]
      cases n.isWhole <;> rfl

theorem runAll_ofArray (minLength : Option UInt64) (items : List Check) (elements : List Json) :
    runAll mode (ofArray minLength items) (.array elements) =
      match lengthViolation? minLength elements.length with
      | some violation => ⟨.array elements, some violation⟩
      | none =>
        let checked := checkElements (runAll mode items) 0 elements
        ⟨.array checked.1, checked.2⟩ := by
  have hlength : ∀ least : UInt64, run mode (.minLength least) (.array elements) =
      ⟨.array elements,
        if decide (elements.length < least.toNat) then some (.tooFewItems least) else none⟩ := by
    intro least
    rw [run, checkLength]
    refine require_of_broken ?_ _
    rw [← decide_not]
    exact decide_eq_decide.mpr Nat.not_lt.symm
  rw [ofArray, List.append_assoc, List.singleton_append, runAll_kind_of_holds rfl,
    runAll_option_append hlength, runAll_singleton, run, checkItems, lengthViolation?]

end Check

namespace PropertyPlan

/-- In the verbose mode the failures of a property stand in front of those of the
properties behind it. -/
theorem evaluateAll_verbose_cons (property : PropertyPlan) (rest : List PropertyPlan)
    (record output : Entries Json) :
    evaluateAll .verbose (property :: rest) record output =
      ((evaluateAll .verbose rest record (evaluate .verbose property record output).1).1,
        (evaluate .verbose property record output).2.toList ++
          (evaluateAll .verbose rest record (evaluate .verbose property record output).1).2) := by
  rw [evaluateAll]
  rcases evaluate .verbose property record output with ⟨output', _ | failure⟩
  · rfl
  · rfl

end PropertyPlan

/-! ## Values of other kinds -/

/-- A value that no line of the interpreter reads is of another kind than the type
asks for. -/
theorem PropertyType.kind_not_holds {type : PropertyType} {value : Json}
    (hstring : ∀ minLength start text,
      type = .string minLength start → value = .string text → False)
    (hnumber : ∀ isInteger n, type = .number isInteger → value = .number n → False)
    (hboolean : ∀ truth, type = .boolean → value = .boolean truth → False)
    (hobject : ∀ properties record, type = .object properties → value = .object record → False)
    (hnamed : ∀ target record, type = .named target → value = .object record → False)
    (harray : ∀ minLength items required transforms elements,
      type = .array minLength ⟨items, required, transforms⟩ → value = .array elements → False) :
    type.kind.holds value = false := by
  rw [Bool.eq_false_iff]
  intro hholds
  cases type with
  | string minLength start =>
      cases value with
      | string text => exact hstring minLength start text rfl rfl
      | _ => cases hholds
  | number isInteger =>
      cases value with
      | number n => exact hnumber isInteger n rfl rfl
      | _ => cases hholds
  | boolean =>
      cases value with
      | boolean truth => exact hboolean truth rfl rfl
      | _ => cases hholds
  | object properties =>
      cases value with
      | object record => exact hobject properties record rfl rfl
      | _ => cases hholds
  | named target =>
      cases value with
      | object record => exact hnamed target record rfl rfl
      | _ => cases hholds
  | array minLength items =>
      cases value with
      | array elements =>
          obtain ⟨items, required, transforms⟩ := items
          exact harray minLength items required transforms elements rfl rfl
      | _ => cases hholds

namespace Schema

theorem judge_of_kind_not_holds {schema : Schema} {type : PropertyType} {value : Json}
    (h : type.kind.holds value = false) :
    schema.judge type value = ⟨value, some (.wrongKind type.kind)⟩ := by
  apply judge.eq_7
  · rintro minLength start text rfl rfl
    cases h
  · rintro isInteger n rfl rfl
    cases h
  · rintro truth rfl rfl
    cases h
  · rintro properties record rfl rfl
    cases h
  · rintro target record rfl rfl
    cases h
  · rintro minLength items required transforms elements rfl rfl
    cases h

/-- The first check of a type is for its kind. -/
theorem exists_typeChecks_eq_cons (plan : String → ObjectPlan) (path : String)
    (type : PropertyType) :
    ∃ rest, typeChecks plan path type = .kind type.kind :: rest := by
  cases type with
  | string minLength start => exact ⟨_, rfl⟩
  | number isInteger => cases isInteger <;> exact ⟨_, rfl⟩
  | boolean => exact ⟨_, rfl⟩
  | object properties => exact ⟨_, rfl⟩
  | array minLength items => exact ⟨_, rfl⟩
  | named target => exact ⟨_, rfl⟩

theorem runAll_typeChecks_of_kind_not_holds {mode : Mode} {plan : String → ObjectPlan}
    {path : String} {type : PropertyType} {value : Json} (h : type.kind.holds value = false) :
    Check.runAll mode (typeChecks plan path type) value =
      ⟨value, some (.wrongKind type.kind)⟩ := by
  obtain ⟨rest, hchecks⟩ := exists_typeChecks_eq_cons plan path type
  rw [hchecks, Check.runAll_kind_of_not_holds h]

/-! ## The walk -/

variable {schema : Schema}

/-- Every name that occurs in the type is declared. -/
def Resolves (schema : Schema) (type : PropertyType) : Prop :=
  ∀ target, type.Mentions target → target ∈ schema.names

/-- Every name that occurs in the properties is declared. -/
def ResolvesAll (schema : Schema) (properties : PropertySet) : Prop :=
  ∀ target, properties.Mentions target → target ∈ schema.names

/-- The checks of a type find in a value what the interpreter finds. -/
def TypeAgrees (schema : Schema) (type : PropertyType) (value : Json) : Prop :=
  schema.Resolves type → ∀ path,
    Check.runAll .verbose (typeChecks schema.planOf path type) value = schema.judge type value

def ElementsAgree (schema : Schema) (type : PropertyType) (index : Nat)
    (elements : List Json) : Prop :=
  schema.Resolves type → ∀ path,
    Check.checkElements (Check.runAll .verbose (typeChecks schema.planOf path type)) index
      elements = schema.judgeElements type index elements

def PropertiesAgree (schema : Schema) (record : Entries Json) (properties : PropertySet) : Prop :=
  schema.ResolvesAll properties → ∀ path output,
    PropertyPlan.evaluateAll .verbose (propertyPlans schema.planOf path properties) record output =
      (Verdict.rewrite output (schema.judgeProperties record properties),
        Verdict.failures (schema.judgeProperties record properties))

/-- What the plans of the properties say of an object, as the check of a value. -/
theorem PropertiesAgree.ofEvaluation {record : Entries Json} {properties : PropertySet}
    (h : schema.PropertiesAgree record properties) (hresolves : schema.ResolvesAll properties)
    (name path : String) :
    Check.ofEvaluation (ObjectPlan.evaluate .verbose
        ⟨name, propertyPlans schema.planOf path properties⟩ (.object record)) =
      Verdict.ofObject record (schema.judgeProperties record properties) := by
  rw [ObjectPlan.evaluate, h hresolves]
  rfl

theorem agrees (hclosed : schema.Closed) (hacyclic : schema.Acyclic) :
    (∀ type value, schema.TypeAgrees type value) ∧
    (∀ type index elements, schema.ElementsAgree type index elements) ∧
    (∀ record properties, schema.PropertiesAgree record properties) := by
  apply judge.mutual_induct schema schema.TypeAgrees schema.ElementsAgree schema.PropertiesAgree
  · intro minLength start text _ path
    rw [typeChecks, Check.runAll_ofString, judge]
  · intro isInteger n _ path
    rw [typeChecks, Check.runAll_ofNumber, judge]
  · intro truth _ path
    rw [typeChecks, Check.runAll_kind_of_holds rfl, judge]
    rfl
  · intro properties record ih hresolves path
    have hproperties : schema.ResolvesAll properties := fun target hmentions =>
      hresolves target (PropertyType.mentions_object_iff.mpr hmentions)
    rw [typeChecks, Check.ofObject, Check.runAll_kind_of_holds rfl, Check.runAll_singleton,
      Check.run, ih.ofEvaluation hproperties, judge]
  · -- the plan of a declared type is looked up here, its properties by the interpreter
    intro target record ih hresolves path
    obtain ⟨properties, hget⟩ := Entries.exists_get?_of_mem_names (hresolves target .named)
    have hproperties : schema.ResolvesAll properties :=
      hclosed target properties (Entries.mem_of_get? hget)
    rw [hget, Option.getD_some] at ih
    rw [typeChecks, Check.ofReference, Check.runAll_kind_of_holds rfl, Check.runAll_singleton,
      Check.run, planOf_eq hclosed hacyclic hget, ih.ofEvaluation hproperties, judge, hget]
    rfl
  · intro minLength type required transforms elements violation hlength hresolves path
    rw [typeChecks, Check.runAll_ofArray, hlength, judge, hlength]
  · intro minLength type required transforms elements hlength ih hresolves path
    have hitems : schema.Resolves type := fun target hmentions =>
      hresolves target (.array hmentions)
    rw [typeChecks, specChecks, Check.runAll_ofArray, hlength, judge, hlength]
    dsimp only
    rw [ih hitems]
  · -- the value is of another kind, which the first check of every type finds
    intro type value hstring hnumber hboolean hobject hnamed harray _ path
    have hkind := PropertyType.kind_not_holds hstring hnumber hboolean hobject hnamed harray
    rw [runAll_typeChecks_of_kind_not_holds hkind, judge_of_kind_not_holds hkind]
  · intro type index _ path
    rw [Check.checkElements, judgeElements]
  · intro type index element rest checked violation hviolation ih hresolves path
    rw [Check.checkElements, judgeElements, ih hresolves path]
    dsimp only
    rw [hviolation]
  · intro type index element rest checked hviolation ih ihrest hresolves path
    rw [Check.checkElements, judgeElements, ih hresolves path]
    dsimp only
    rw [hviolation]
    dsimp only
    rw [ihrest hresolves path]
  · intro record _ path output
    rw [propertyPlans, PropertyPlan.evaluateAll, judgeProperties]
    rfl
  · intro record key spec rest hget ih hresolves path output
    have hrest : schema.ResolvesAll rest := fun target hmentions =>
      hresolves target (PropertySet.mentions_cons.mpr (.inr hmentions))
    rw [propertyPlans, PropertyPlan.evaluateAll_verbose_cons, PropertyPlan.evaluate, hget,
      ih hrest, judgeProperties_cons_of_none hget, Verdict.rewrite_ofMissing,
      Verdict.failures_cons]
    rfl
  · intro record key spec rest raw hget ih ihrest hresolves path output
    have hspec : schema.Resolves spec.type := fun target hmentions =>
      hresolves target (PropertySet.mentions_cons.mpr (.inl hmentions))
    have hrest : schema.ResolvesAll rest := fun target hmentions =>
      hresolves target (PropertySet.mentions_cons.mpr (.inr hmentions))
    rw [propertyPlans, PropertyPlan.evaluateAll_verbose_cons, PropertyPlan.evaluate, hget]
    dsimp only
    rw [specChecks_eq, ih hspec, ihrest hrest, judgeProperties_cons_of_some hget,
      Verdict.rewrite_ofChecked, Verdict.failures_cons]
    rfl

/-- The plan of a declared type reports what the schema says. -/
theorem report_planOf (hclosed : schema.Closed) (hacyclic : schema.Acyclic) {name : String}
    (hname : name ∈ schema.names) (record : Json) :
    (schema.planOf name).report record = schema.interpret name record := by
  obtain ⟨properties, hget⟩ := Entries.exists_get?_of_mem_names hname
  rw [planOf_eq hclosed hacyclic hget]
  cases record with
  | object members =>
      have hproperties := (agrees hclosed hacyclic).2.2 members properties
        (hclosed name properties (Entries.mem_of_get? hget)) name members
      rw [ObjectPlan.report, ObjectPlan.evaluate, hproperties, interpret, hget]
      rfl
  | _ =>
      rw [ObjectPlan.report, ObjectPlan.evaluate.eq_def]
      rfl

/-- For every schema that compiles, the compiled plan of a declared type reports on
every record what the interpreter reads off the schema: the same errors in the same
order, and the same value. -/
theorem compiled_report_eq_interpret {schema : Schema} {compiled : CompiledSchema}
    (hcompile : schema.compile.outcome = .ok compiled) {name : String}
    (hname : name ∈ schema.names) :
    ∃ plan, compiled.get? name = some plan ∧
      ∀ record, plan.report record = schema.interpret name record := by
  obtain ⟨hclosed, hacyclic, -⟩ := of_compile_eq_ok hcompile
  refine ⟨schema.planOf name, ?_, report_planOf hclosed hacyclic hname⟩
  rw [get?_of_compile hcompile, if_pos hname]

/-- Orders with a buyer and guests, who are customers. -/
def orders : Schema :=
  [("Customer", [("name", ⟨.string (some 2) none, true, [.trim]⟩)]),
    ("Order",
      [("id", ⟨.number true, true, []⟩),
        ("buyer", .named "Customer"),
        ("guests", (PropertySpec.array (.named "Customer")).optional)])]

theorem orders_refersTo {owner target : String} (h : orders.RefersTo owner target) :
    owner = "Order" ∧ target = "Customer" := by
  obtain ⟨properties, hget, hmentions⟩ := h
  rw [← PropertySet.mem_referencesIn_iff target ""] at hmentions
  rcases List.mem_pair.mp (Entries.mem_of_get? hget) with heq | heq
  · cases heq
    cases hmentions
  · cases heq
    refine ⟨rfl, ?_⟩
    rcases List.mem_pair.mp hmentions with hbuyer | hguests
    · exact hbuyer
    · exact hguests

theorem exists_compile_orders : ∃ compiled, orders.compile.outcome = .ok compiled := by
  have hclosed : orders.Closed := closed_of_checkTargets rfl
  have hacyclic : orders.Acyclic :=
    acyclic_of_refersTo_only (fun _ _ => orders_refersTo) (by decide)
  exact ⟨_, compile_of_acyclic hclosed hacyclic⟩

/-- A customer with a name. -/
def customer (name : String) : Json :=
  .object [("name", .string name)]

/-- An order by a buyer for some guests. -/
def orderFor (buyer : String) (guests : List String) : Json :=
  .object
    [("id", .number (.integer ⟨7, by decide, by decide⟩)), ("buyer", customer buyer),
      ("guests", .array (guests.map customer))]

theorem compiled_report_short_names :
    ∃ compiled, orders.compile.outcome = .ok compiled ∧ "Order" ∈ orders.names ∧
      ∃ plan, compiled.get? "Order" = some plan ∧
        plan.report (orderFor " A " [" Bo ", " C ", " Di "]) =
          orders.interpret "Order" (orderFor " A " [" Bo ", " C ", " Di "]) ∧
        (plan.report (orderFor " A " [" Bo ", " C ", " Di "])).errors.map
            (fun error => (error.property, error.rule)) =
          [("buyer", .properties), ("guests", .items)] ∧
        (plan.report (orderFor " A " [" Bo ", " C ", " Di "])).value =
          orderFor "A" ["Bo", "C", " Di "] := by
  obtain ⟨compiled, hcompile⟩ := exists_compile_orders
  have hname : "Order" ∈ orders.names := by decide
  obtain ⟨plan, hget, hreport⟩ := compiled_report_eq_interpret hcompile hname
  have hplan := hget.symm.trans (get?_of_compile hcompile "Order")
  rw [if_pos hname] at hplan
  cases hplan
  exact ⟨compiled, hcompile, hname, _, hget, hreport _, rfl, rfl⟩

end Schema

end RecordSchema
