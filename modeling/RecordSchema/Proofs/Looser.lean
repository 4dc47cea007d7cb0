import RecordSchema.Proofs.Larger
import RecordSchema.Proofs.Modes

/-!
# Looser schemas

A schema is loosened by dropping rules of its properties or weakening them, at any depth: a
property need not be there any more, a least length is lowered, a start is shortened, a number
need not be whole. Types, names, their order and the transforms stay. So both schemas are walked
in step, and as long as the first finds nothing wrong the second finds the same: its verdicts on
a record are equal, and with them what it makes of the record.

Main statements: equal verdicts, `Schema.looserAgrees`, and `Schema.compile_looser_accepts`.
-/

namespace RecordSchema

/-! ## Weaker rules -/

/-- The least length is dropped or lowered. -/
def LowersLength : Option UInt64 → Option UInt64 → Prop
  | _, none => True
  | some least, some least' => least' ≤ least
  | none, some _ => False

/-- The start is dropped or shortened to a prefix of itself. -/
def ShortensStart : Option String → Option String → Prop
  | _, none => True
  | some start, some start' => start'.toList <+: start.toList
  | none, some _ => False

mutual

/-- The second property has the transforms of the first and asks for no more. -/
inductive PropertySpec.LoosensTo : PropertySpec → PropertySpec → Prop
  | mk {type type' : PropertyType} {required required' : Bool} (transforms : List Transform) :
      PropertyType.LoosensTo type type' → (required' = true → required = true) →
        PropertySpec.LoosensTo ⟨type, required, transforms⟩ ⟨type', required', transforms⟩

/-- The second type is the first with weaker rules, at any depth. -/
inductive PropertyType.LoosensTo : PropertyType → PropertyType → Prop
  | string {least least' : Option UInt64} {start start' : Option String} :
      LowersLength least least' → ShortensStart start start' →
        PropertyType.LoosensTo (.string least start) (.string least' start')
  | number {isInteger isInteger' : Bool} :
      (isInteger' = true → isInteger = true) →
        PropertyType.LoosensTo (.number isInteger) (.number isInteger')
  | boolean : PropertyType.LoosensTo .boolean .boolean
  | object {properties properties' : List (String × PropertySpec)} :
      PropertySet.LoosensTo properties properties' →
        PropertyType.LoosensTo (.object properties) (.object properties')
  | array {least least' : Option UInt64} {items items' : PropertySpec} :
      LowersLength least least' → PropertySpec.LoosensTo items items' →
        PropertyType.LoosensTo (.array least items) (.array least' items')
  | named (target : String) : PropertyType.LoosensTo (.named target) (.named target)

/-- The second set has the same names, and each of its properties asks for no more. -/
inductive PropertySet.LoosensTo :
    List (String × PropertySpec) → List (String × PropertySpec) → Prop
  | nil : PropertySet.LoosensTo [] []
  | cons (key : String) {spec spec' : PropertySpec} {rest rest' : List (String × PropertySpec)} :
      PropertySpec.LoosensTo spec spec' → PropertySet.LoosensTo rest rest' →
        PropertySet.LoosensTo ((key, spec) :: rest) ((key, spec') :: rest')

end

/-- The second schema declares the same types, each with looser properties. -/
def Schema.LoosensTo (schema looser : Schema) : Prop :=
  List.Forall₂ (fun type type' => type'.1 = type.1 ∧ PropertySet.LoosensTo type.2 type'.2)
    schema looser

/-! ## The same references -/

namespace PropertySet.LoosensTo

theorem exists_of_mem {properties properties' : PropertySet}
    (h : PropertySet.LoosensTo properties properties') {key : String} {spec' : PropertySpec}
    (hmem : (key, spec') ∈ properties') :
    ∃ spec, (key, spec) ∈ properties ∧ spec.LoosensTo spec' := by
  induction properties generalizing properties' with
  | nil =>
      cases h
      cases hmem
  | cons property rest ih =>
      cases h with
      | cons _ hspec hrest =>
          rcases List.mem_cons.mp hmem with heq | hmem
          · cases heq
            exact ⟨_, List.mem_cons_self, hspec⟩
          · obtain ⟨spec, hmem, hloosens⟩ := ih hrest hmem
            exact ⟨spec, List.mem_cons_of_mem _ hmem, hloosens⟩

end PropertySet.LoosensTo

theorem PropertySpec.LoosensTo.type {spec spec' : PropertySpec} (h : spec.LoosensTo spec') :
    spec.type.LoosensTo spec'.type := by
  cases h with
  | mk _ htype _ => exact htype

/-- A looser type refers to nothing else. -/
theorem PropertyType.LoosensTo.mentions {type type' : PropertyType} (h : type.LoosensTo type')
    {target : String} (hmentions : type'.Mentions target) : type.Mentions target := by
  induction hmentions generalizing type with
  | named =>
      cases h
      exact .named
  | object hmem _ ih =>
      cases h with
      | object hproperties =>
          obtain ⟨spec, hmem', hspec⟩ := hproperties.exists_of_mem hmem
          exact .object hmem' (ih hspec.type)
  | array _ ih =>
      cases h with
      | array _ hitems => exact .array (ih hitems.type)

theorem PropertySet.LoosensTo.mentions {properties properties' : PropertySet}
    (h : PropertySet.LoosensTo properties properties') {target : String}
    (hmentions : PropertySet.Mentions properties' target) :
    PropertySet.Mentions properties target := by
  obtain ⟨key, spec', hmem, hspec'⟩ := hmentions
  obtain ⟨spec, hmem', hspec⟩ := h.exists_of_mem hmem
  exact ⟨key, spec, hmem', hspec.type.mentions hspec'⟩

namespace Schema

variable {schema looser : Schema}

namespace LoosensTo

theorem names_eq (h : schema.LoosensTo looser) : looser.names = schema.names := by
  induction h with
  | nil => rfl
  | cons htype _ ih => rw [Entries.names_cons, Entries.names_cons, htype.1, ih]

/-- The properties of a type are loosened wherever the type is looked up. -/
theorem get?_getD (h : schema.LoosensTo looser) (name : String) :
    PropertySet.LoosensTo ((schema.get? name).getD []) ((looser.get? name).getD []) := by
  induction h with
  | nil => exact .nil
  | @cons type type' _ _ htype _ ih =>
      obtain ⟨key, properties⟩ := type
      obtain ⟨key', properties'⟩ := type'
      obtain ⟨rfl, hproperties⟩ := htype
      rw [Entries.get?_cons, Entries.get?_cons]
      by_cases hkey : key' = name
      · rwa [if_pos hkey, if_pos hkey]
      · rwa [if_neg hkey, if_neg hkey]

theorem refersTo (h : schema.LoosensTo looser) {owner target : String}
    (hrefers : looser.RefersTo owner target) : schema.RefersTo owner target := by
  obtain ⟨properties', hget', hmentions⟩ := hrefers
  have hproperties := h.get?_getD owner
  obtain ⟨properties, hget⟩ := Entries.exists_get?_of_mem_names
    (h.names_eq ▸ Entries.mem_names_of_get? hget')
  rw [hget, hget'] at hproperties
  exact ⟨properties, hget, hproperties.mentions hmentions⟩

theorem exists_of_mem (h : schema.LoosensTo looser) {name : String} {properties' : PropertySet}
    (hmem : (name, properties') ∈ looser) :
    ∃ properties, (name, properties) ∈ schema ∧
      PropertySet.LoosensTo properties properties' := by
  induction h with
  | nil => cases hmem
  | @cons type type' _ _ htype _ ih =>
      obtain ⟨key, properties⟩ := type
      obtain ⟨rfl, hproperties⟩ := htype
      rcases List.mem_cons.mp hmem with heq | hmem
      · subst heq
        exact ⟨properties, List.mem_cons_self, hproperties⟩
      · obtain ⟨properties, hmem, hloosens⟩ := ih hmem
        exact ⟨properties, List.mem_cons_of_mem _ hmem, hloosens⟩

theorem closed (h : schema.LoosensTo looser) (hclosed : schema.Closed) : looser.Closed := by
  intro owner properties' hmem target hmentions
  obtain ⟨properties, hmem', hproperties⟩ := h.exists_of_mem hmem
  rw [h.names_eq]
  exact hclosed owner properties hmem' target (hproperties.mentions hmentions)

theorem acyclic (h : schema.LoosensTo looser) (hacyclic : schema.Acyclic) : looser.Acyclic :=
  fun name hcycle => hacyclic name (hcycle.lift id fun _ _ => h.refersTo)

end LoosensTo

end Schema

/-! ## Rules that hold -/

theorem LowersLength.filter_eq_none {least least' : Option UInt64} (h : LowersLength least least')
    {length : Nat} (hnone : (least.filter fun least => length < least.toNat) = none) :
    (least'.filter fun least => length < least.toNat) = none := by
  cases least' with
  | none => rfl
  | some least' =>
      cases least with
      | none => cases h
      | some least =>
          have hle : least'.toNat ≤ least.toNat := UInt64.le_iff_toNat_le.mp h
          simp only [Option.filter_eq_none_iff, Option.some.injEq, forall_eq', decide_eq_true_eq,
            not_lt] at hnone ⊢
          exact hle.trans hnone

theorem ShortensStart.filter_eq_none {start start' : Option String} (h : ShortensStart start start')
    {text : List Char} (hnone : (start.filter fun start => ¬ start.toList <+: text) = none) :
    (start'.filter fun start => ¬ start.toList <+: text) = none := by
  cases start' with
  | none => rfl
  | some start' =>
      cases start with
      | none => cases h
      | some start =>
          simp only [Option.filter_eq_none_iff, Option.some.injEq, forall_eq', decide_eq_true_eq,
            not_not] at hnone ⊢
          exact h.trans hnone

theorem textViolation?_eq_none_iff {least : Option UInt64} {start : Option String}
    {text : String} :
    textViolation? least start text = none ↔
      (start.filter fun start => ¬ start.toList <+: text.toList) = none ∧
        (least.filter fun least => text.length < least.toNat) = none := by
  rw [textViolation?, Option.orElse_eq_orElse, ← Option.or_eq_orElse, Option.or_eq_none_iff,
    Option.map_eq_none_iff, Option.map_eq_none_iff]

theorem textViolation?_of_looser {least least' : Option UInt64} {start start' : Option String}
    (hleast : LowersLength least least') (hstart : ShortensStart start start') {text : String}
    (hnone : textViolation? least start text = none) :
    textViolation? least' start' text = none := by
  obtain ⟨hstarts, hlong⟩ := textViolation?_eq_none_iff.mp hnone
  exact textViolation?_eq_none_iff.mpr
    ⟨hstart.filter_eq_none hstarts, hleast.filter_eq_none hlong⟩

theorem numberViolation?_of_looser {isInteger isInteger' : Bool}
    (h : isInteger' = true → isInteger = true) {n : Number}
    (hnone : numberViolation? isInteger n = none) : numberViolation? isInteger' n = none := by
  rw [numberViolation?, ite_eq_right_iff] at hnone ⊢
  exact fun hbroken => hnone ⟨h hbroken.1, hbroken.2⟩

theorem lengthViolation?_of_looser {least least' : Option UInt64}
    (h : LowersLength least least') {length : Nat}
    (hnone : lengthViolation? least length = none) : lengthViolation? least' length = none := by
  rw [lengthViolation?, Option.map_eq_none_iff] at hnone ⊢
  exact h.filter_eq_none hnone

namespace Verdict

theorem failures_eq_nil_of_ofObject {record : Entries Json} {verdicts : List Verdict}
    (h : (ofObject record verdicts).violation = none) : failures verdicts = [] := by
  rwa [ofObject, Option.map_eq_none_iff, List.head?_eq_none_iff] at h

theorem failures_cons_eq_nil_iff {verdict : Verdict} {rest : List Verdict} :
    failures (verdict :: rest) = [] ↔ verdict.failure = none ∧ failures rest = [] := by
  rw [failures_cons, List.append_eq_nil_iff, Option.toList_eq_nil_iff]

/-- A value that may be missing may be missing for every looser property. -/
theorem ofMissing_of_looser {required required' : Bool} (h : required' = true → required = true)
    {key : String} (hnone : (ofMissing key required).failure = none) :
    ofMissing key required' = ofMissing key required := by
  cases required with
  | true => cases hnone
  | false =>
      cases required' with
      | true => cases h rfl
      | false => rfl

end Verdict

/-! ## The two walks -/

namespace Schema

/-- As long as a type finds nothing wrong with a value, its looser forms find the same. -/
def TypeLoosens (schema looser : Schema) (type : PropertyType) (value : Json) : Prop :=
  ∀ type', type.LoosensTo type' → (schema.judge type value).violation = none →
    looser.judge type' value = schema.judge type value

def ElementsLoosen (schema looser : Schema) (type : PropertyType) (index : Nat)
    (elements : List Json) : Prop :=
  ∀ type', type.LoosensTo type' → (schema.judgeElements type index elements).2 = none →
    looser.judgeElements type' index elements = schema.judgeElements type index elements

def PropertiesLoosen (schema looser : Schema) (record : Entries Json)
    (properties : PropertySet) : Prop :=
  ∀ properties', PropertySet.LoosensTo properties properties' →
    Verdict.failures (schema.judgeProperties record properties) = [] →
      looser.judgeProperties record properties' = schema.judgeProperties record properties

variable {schema looser : Schema}

theorem looserAgrees (h : schema.LoosensTo looser) :
    (∀ type value, schema.TypeLoosens looser type value) ∧
    (∀ type index elements, schema.ElementsLoosen looser type index elements) ∧
    (∀ record properties, schema.PropertiesLoosen looser record properties) := by
  apply judge.mutual_induct schema (schema.TypeLoosens looser) (schema.ElementsLoosen looser)
    (schema.PropertiesLoosen looser)
  · intro least start text type' hloosens hnone
    cases hloosens with
    | string hleast hstart =>
        rw [judge] at hnone
        dsimp only at hnone
        rw [judge, judge, hnone, textViolation?_of_looser hleast hstart hnone]
  · intro isInteger n type' hloosens hnone
    cases hloosens with
    | number hinteger =>
        rw [judge] at hnone
        dsimp only at hnone
        rw [judge, judge, hnone, numberViolation?_of_looser hinteger hnone]
  · intro truth type' hloosens _
    cases hloosens
    rw [judge, judge]
  · intro properties record ih type' hloosens hnone
    cases hloosens with
    | object hproperties =>
        rw [judge] at hnone
        rw [judge, judge, ih _ hproperties (Verdict.failures_eq_nil_of_ofObject hnone)]
  · intro target record ih type' hloosens hnone
    cases hloosens
    rw [judge] at hnone
    rw [judge, judge, ih _ (h.get?_getD target) (Verdict.failures_eq_nil_of_ofObject hnone)]
  · -- too few items
    intro least type required transforms elements violation hlength type' _ hnone
    rw [judge, hlength] at hnone
    cases hnone
  · intro least type required transforms elements hlength ih type' hloosens hnone
    cases hloosens with
    | array hleast hitems =>
        obtain ⟨_, htype, _⟩ := hitems
        rw [judge, hlength] at hnone
        rw [judge, judge, hlength, lengthViolation?_of_looser hleast hlength]
        dsimp only
        rw [ih _ htype hnone]
  · -- a value of another kind is not accepted
    intro type value hstring hnumber hboolean hobject hnamed harray type' _ hnone
    have hkind := PropertyType.kind_not_holds hstring hnumber hboolean hobject hnamed harray
    rw [judge_of_kind_not_holds hkind] at hnone
    cases hnone
  · intro type index type' _ _
    rw [judgeElements, judgeElements]
  · intro type index element rest checked violation hviolation _ type' _ hnone
    rw [judgeElements] at hnone
    dsimp only at hnone
    rw [hviolation] at hnone
    cases hnone
  · intro type index element rest checked hviolation ih ihrest type' htype hnone
    rw [judgeElements] at hnone
    dsimp only at hnone
    rw [hviolation] at hnone
    rw [judgeElements, judgeElements, ih type' htype hviolation]
    dsimp only
    rw [hviolation]
    dsimp only
    rw [ihrest type' htype hnone]
  · intro record properties' hloosens _
    cases hloosens
    rw [judgeProperties_nil, judgeProperties_nil]
  · intro record key spec rest hget ih properties' hloosens hnone
    cases hloosens with
    | cons _ hspec hrest =>
        obtain ⟨transforms, htype, hrequired⟩ := hspec
        rw [judgeProperties_cons_of_none hget] at hnone
        obtain ⟨hmissing, hnone⟩ := Verdict.failures_cons_eq_nil_iff.mp hnone
        rw [judgeProperties_cons_of_none hget, judgeProperties_cons_of_none hget,
          ih _ hrest hnone, Verdict.ofMissing_of_looser hrequired hmissing]
  · intro record key spec rest raw hget ih ihrest properties' hloosens hnone
    cases hloosens with
    | cons _ hspec hrest =>
        obtain ⟨transforms, htype, hrequired⟩ := hspec
        rw [judgeProperties_cons_of_some hget] at hnone
        obtain ⟨hvalue, hnone⟩ := Verdict.failures_cons_eq_nil_iff.mp hnone
        rw [judgeProperties_cons_of_some hget, judgeProperties_cons_of_some hget,
          ihrest _ hrest hnone, ih _ htype (Option.map_eq_none_iff.mp hvalue)]

/-- A record without errors keeps its report. -/
theorem interpret_of_looser (h : schema.LoosensTo looser) {name : String} {record value : Json}
    (hvalid : schema.interpret name record = ⟨[], value⟩) :
    looser.interpret name record = ⟨[], value⟩ := by
  cases record with
  | object members =>
      have hfailures : Verdict.failures
          (schema.judgeProperties members ((schema.get? name).getD [])) = [] :=
        List.map_eq_nil_iff.mp (congrArg Report.errors hvalid)
      have hagrees := (looserAgrees h).2.2 members _ _ (h.get?_getD name) hfailures
      rw [interpret, hagrees, ← hvalid, interpret]
  | _ => cases hvalid

/-- Loosening a schema never rejects more. A looser form of a schema that compiles compiles, and
for every type, each record that an assertion under the first accepts is accepted under the
second with the same value. The reports of the two are equal then, and have this value. -/
theorem compile_looser_accepts {schema looser : Schema} (h : schema.LoosensTo looser)
    {compiled : CompiledSchema} (hcompile : schema.compile.outcome = .ok compiled) :
    ∃ compiled', looser.compile.outcome = .ok compiled' ∧
      ∀ name ∈ schema.names, ∃ plan plan',
        compiled.get? name = some plan ∧ compiled'.get? name = some plan' ∧
          ∀ record value, plan.assert record = .ok value →
            plan'.assert record = .ok value ∧ plan'.report record = plan.report record ∧
              (plan.report record).value = value := by
  obtain ⟨hclosed, hacyclic, -⟩ := of_compile_eq_ok hcompile
  have hclosed' := h.closed hclosed
  have hacyclic' := h.acyclic hacyclic
  have hcompile' := compile_of_acyclic hclosed' hacyclic'
  refine ⟨_, hcompile', fun name hname => ?_⟩
  have hname' : name ∈ looser.names := h.names_eq ▸ hname
  refine ⟨schema.planOf name, looser.planOf name, ?_, ?_, ?_⟩
  · rw [get?_of_compile hcompile, if_pos hname]
  · rw [get?_of_compile hcompile', if_pos hname']
  · intro record value hassert
    have hreport := ObjectPlan.assert_eq_ok_iff.mp hassert
    have hvalid : schema.interpret name record = ⟨[], value⟩ := by
      rwa [← report_planOf hclosed hacyclic hname]
    have hreport' : (looser.planOf name).report record = ⟨[], value⟩ := by
      rw [report_planOf hclosed' hacyclic' hname', interpret_of_looser h hvalid]
    exact ⟨ObjectPlan.assert_eq_ok_iff.mpr hreport', hreport'.trans hreport.symm,
      congrArg Report.value hreport⟩

/-- Looser orders: short names will do, and the number may be a fraction or left out. -/
def looserOrders : Schema :=
  [("Customer", [("name", ⟨.string (some 1) none, true, [.trim]⟩)]),
    ("Order",
      [("id", ⟨.number false, false, []⟩),
        ("buyer", .named "Customer"),
        ("guests", (PropertySpec.array (.named "Customer")).optional)])]

theorem compile_looser_accepts_orders :
    ∃ compiled compiled', orders.LoosensTo looserOrders ∧
      orders.compile.outcome = .ok compiled ∧ looserOrders.compile.outcome = .ok compiled' ∧
      "Order" ∈ orders.names ∧
      ∃ plan plan', compiled.get? "Order" = some plan ∧ compiled'.get? "Order" = some plan' ∧
        plan.assert (orderFor " Abe " [" Bo "]) = .ok (orderFor "Abe" ["Bo"]) ∧
        plan'.assert (orderFor " Abe " [" Bo "]) = .ok (orderFor "Abe" ["Bo"]) ∧
        plan'.report (orderFor " Abe " [" Bo "]) = plan.report (orderFor " Abe " [" Bo "]) := by
  obtain ⟨compiled, hcompile⟩ := exists_compile_orders
  have hcustomer : PropertySpec.LoosensTo (.named "Customer") (.named "Customer") :=
    .mk [] (.named "Customer") id
  have hname : PropertySpec.LoosensTo ⟨.string (some 2) none, true, [.trim]⟩
      ⟨.string (some 1) none, true, [.trim]⟩ :=
    .mk [.trim] (.string (by decide : (1 : UInt64) ≤ 2) trivial) id
  have hnumber : PropertySpec.LoosensTo ⟨.number true, true, []⟩ ⟨.number false, false, []⟩ :=
    .mk [] (.number fun _ => rfl) fun _ => rfl
  have hguests : PropertySpec.LoosensTo (PropertySpec.array (.named "Customer")).optional
      (PropertySpec.array (.named "Customer")).optional :=
    .mk [] (.array trivial hcustomer) id
  have hloosens : orders.LoosensTo looserOrders :=
    .cons ⟨rfl, .cons "name" hname .nil⟩ (.cons
      ⟨rfl, .cons "id" hnumber (.cons "buyer" hcustomer (.cons "guests" hguests .nil))⟩ .nil)
  have hmem : "Order" ∈ orders.names := by decide
  obtain ⟨compiled', hcompile', haccepts⟩ := compile_looser_accepts hloosens hcompile
  obtain ⟨plan, plan', hget, hget', hplans⟩ := haccepts "Order" hmem
  have hplan := hget.symm.trans (get?_of_compile hcompile "Order")
  rw [if_pos hmem] at hplan
  cases hplan
  have hassert : (orders.planOf "Order").assert (orderFor " Abe " [" Bo "]) =
      .ok (orderFor "Abe" ["Bo"]) := rfl
  obtain ⟨hassert', hreport, -⟩ := hplans _ _ hassert
  exact ⟨compiled, compiled', hloosens, hcompile, hcompile', hmem, _, plan', hget, hget', hassert,
    hassert', hreport⟩

end Schema

end RecordSchema
