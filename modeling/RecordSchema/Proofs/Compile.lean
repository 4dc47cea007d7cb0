import RecordSchema.Proofs.PlanOf
import RecordSchema.Proofs.Search

/-!
# What compiling gives

`Schema.compile` keeps the plans that it has made and shares them. That this
changes nothing rests on one invariant of its state: every plan that is kept is
the plan of its type, `Schema.KeepsPlans`. A step of compilation that succeeds
from every such state, with a value that does not depend on it, is said to yield
the value.

Main statements: compiling a closed and acyclic schema gives `Schema.planOf` of
its types in order, `Schema.compile_of_acyclic`, and a schema that is not closed
or not acyclic is refused for just that reason.
-/

namespace RecordSchema

namespace Compiling

variable {α β : Type} {inv : Entries ObjectPlan → Prop}

/-- From every state with the invariant the step succeeds with the value, and the
invariant holds again. -/
def Yields (inv : Entries ObjectPlan → Prop) (step : Compiling α) (value : α) : Prop :=
  ∀ kept, inv kept → ∃ kept', (step.run kept).outcome = .ok (value, kept') ∧ inv kept'

theorem yields_pure (value : α) : Yields inv (pure value) value :=
  fun kept hkept => ⟨kept, rfl, hkept⟩

theorem yields_report (event : Event) : Yields inv (report event) () :=
  fun kept hkept => ⟨kept, rfl, hkept⟩

theorem yields_modify {f : Entries ObjectPlan → Entries ObjectPlan}
    (h : ∀ kept, inv kept → inv (f kept)) : Yields inv (modify f) () :=
  fun kept hkept => ⟨f kept, rfl, h kept hkept⟩

theorem Yields.bind {step : Compiling α} {value : α} {next : α → Compiling β} {value' : β}
    (h : Yields inv step value) (hnext : Yields inv (next value) value') :
    Yields inv (step >>= next) value' := by
  intro kept hkept
  obtain ⟨kept', hstep, hkept'⟩ := h kept hkept
  obtain ⟨kept'', hstep', hkept''⟩ := hnext kept' hkept'
  refine ⟨kept'', ?_, hkept''⟩
  rw [StateT.run_bind, Logged.bind_def, Logged.outcome_bind, hstep]
  exact hstep'

end Compiling

namespace Schema

open Compiling

/-! ## Compiling a property tree -/

section Tree

variable {inv : Entries ObjectPlan → Prop} {resolve : String → Compiling ObjectPlan}
  {plan : String → ObjectPlan}

mutual

/-- Where the types that occur in a property are resolved to their plans, its
checks are those made from these plans. -/
theorem compileSpec_yields (path : String) :
    ∀ spec : PropertySpec,
      (∀ target, spec.type.Mentions target → Yields inv (resolve target) (plan target)) →
      Yields inv (compileSpec resolve path spec) (specChecks plan path spec)
  | ⟨type, _, _⟩, h => by
      rw [compileSpec, specChecks]
      exact compileType_yields path type h

theorem compileType_yields (path : String) :
    ∀ type : PropertyType,
      (∀ target, type.Mentions target → Yields inv (resolve target) (plan target)) →
      Yields inv (compileType resolve path type) (typeChecks plan path type)
  | .string _ _, _ => yields_pure _
  | .number _, _ => yields_pure _
  | .boolean, _ => yields_pure _
  | .object properties, h => by
      rw [compileType, typeChecks]
      refine (compileProperties_yields path properties fun target hmentions => ?_).bind
        (yields_pure _)
      exact h target (PropertyType.mentions_object_iff.mpr hmentions)
  | .array minLength items, h => by
      rw [compileType, typeChecks]
      have hitems := compileSpec_yields (path ++ "[]") items fun target hmentions =>
        h target (.array hmentions)
      have hchecks : Yields inv
          (compileSpec resolve (path ++ "[]") items >>= fun checks =>
            pure (Check.ofArray minLength checks))
          (Check.ofArray minLength (specChecks plan (path ++ "[]") items)) :=
        hitems.bind (yields_pure _)
      -- transforms of the items are reported and have no effect
      cases hempty : items.transforms.isEmpty with
      | true => simpa [hempty] using hchecks
      | false => simpa [hempty] using (yields_report _).bind hchecks
  | .named name, h => by
      rw [compileType, typeChecks]
      exact (h name .named).bind (yields_pure _)

theorem compileProperties_yields (path : String) :
    ∀ properties : List (String × PropertySpec),
      (∀ target, PropertySet.Mentions properties target →
        Yields inv (resolve target) (plan target)) →
      Yields inv (compileProperties resolve path properties) (propertyPlans plan path properties)
  | [], _ => yields_pure _
  | (key, spec) :: rest, h => by
      rw [compileProperties, propertyPlans]
      have hspec := compileSpec_yields (path ++ "." ++ key) spec fun target hmentions =>
        h target (PropertySet.mentions_cons.mpr (.inl hmentions))
      have hrest := compileProperties_yields path rest fun target hmentions =>
        h target (PropertySet.mentions_cons.mpr (.inr hmentions))
      exact hspec.bind (hrest.bind (yields_pure _))

end

end Tree

/-! ## Compiling types -/

/-- Every plan that is kept is that of its type. -/
def KeepsPlans (schema : Schema) (kept : Entries ObjectPlan) : Prop :=
  ∀ name plan, (name, plan) ∈ kept → plan = schema.planOf name

theorem keepsPlans_nil (schema : Schema) : schema.KeepsPlans [] :=
  fun _ _ hmem => (List.not_mem_nil hmem).elim

theorem KeepsPlans.append {schema : Schema} {kept : Entries ObjectPlan}
    (h : schema.KeepsPlans kept) (name : String) :
    schema.KeepsPlans (kept ++ [(name, schema.planOf name)]) := by
  intro name' plan hmem
  rcases List.mem_append.mp hmem with hmem | hmem
  · exact h name' plan hmem
  · cases List.mem_singleton.mp hmem
    rfl

/-- A type that is compiled is taken from the plans that are kept. -/
theorem typePlan_run_of_kept {schema : Schema} {fuel : Nat} {name : String}
    {kept : Entries ObjectPlan} {plan : ObjectPlan} (h : kept.get? name = some plan) :
    (typePlan schema (fuel + 1) name).run kept = Logged.ok (plan, kept) := by
  rw [typePlan, StateT.run_bind, StateT.run_get, Logged.pure_def, Logged.bind_def, Logged.ok_bind,
    h]
  rfl

/-- A type that is not compiled yet is compiled and kept. -/
theorem typePlan_run_of_new {schema : Schema} {fuel : Nat} {name : String}
    {kept : Entries ObjectPlan} {properties : PropertySet} (h : kept.get? name = none)
    (hget : schema.get? name = some properties) :
    (typePlan schema (fuel + 1) name).run kept =
      StateT.run (do
        let plans ← compileProperties (typePlan schema fuel) name properties
        Compiling.report (.compiledType name properties.length)
        modify fun kept => kept ++ [(name, ⟨name, plans⟩)]
        return ⟨name, plans⟩ : Compiling ObjectPlan) kept := by
  rw [typePlan, StateT.run_bind, StateT.run_get, Logged.pure_def, Logged.bind_def, Logged.ok_bind,
    h, hget]

/-- Compiling a type yields its plan if the bound on the types on the way is
above its rank. -/
theorem typePlan_yields {schema : Schema} (hclosed : schema.Closed) (hacyclic : schema.Acyclic)
    {fuel : Nat} {name : String} (hname : name ∈ schema.names)
    (hfuel : rank schema name < fuel) :
    Yields schema.KeepsPlans (typePlan schema fuel name) (schema.planOf name) := by
  induction fuel generalizing name with
  | zero => omega
  | succ fuel ih =>
      intro kept hkept
      obtain ⟨properties, hget⟩ := Entries.exists_get?_of_mem_names hname
      have hplan := planOf_eq hclosed hacyclic hget
      have hproperties : Yields schema.KeepsPlans
          (compileProperties (typePlan schema fuel) name properties)
          (propertyPlans schema.planOf name properties) := by
        apply compileProperties_yields
        intro target hmentions
        have hrefers : schema.RefersTo name target := ⟨properties, hget, hmentions⟩
        have hlt := rank_lt_of_refersTo hclosed hacyclic hrefers
        exact ih (hclosed.target_mem_names hrefers) (by omega)
      cases hkeep : kept.get? name with
      | some plan =>
          rw [typePlan_run_of_kept hkeep, hkept name plan (Entries.mem_of_get? hkeep)]
          exact ⟨kept, rfl, hkept⟩
      | none =>
          rw [typePlan_run_of_new hkeep hget, hplan]
          have hkeeps : Yields schema.KeepsPlans (modify fun kept =>
              kept ++ [(name, ⟨name, propertyPlans schema.planOf name properties⟩)]) () := by
            apply yields_modify
            intro kept hkept
            rw [← hplan]
            exact hkept.append name
          refine hproperties.bind ?_ kept hkept
          refine (yields_report _).bind ?_
          refine hkeeps.bind ?_
          exact yields_pure _

theorem typePlans_yields {schema : Schema} (hclosed : schema.Closed) (hacyclic : schema.Acyclic)
    (names : List String) (hnames : ∀ name ∈ names, name ∈ schema.names) :
    Yields schema.KeepsPlans (typePlans schema names) (names.map schema.planOf) := by
  induction names with
  | nil => exact yields_pure _
  | cons name rest ih =>
      have hname := hnames name List.mem_cons_self
      have hrest := ih fun name hname => hnames name (List.mem_cons_of_mem _ hname)
      rw [typePlans, List.map_cons]
      exact (typePlan_yields hclosed hacyclic hname (rank_lt_length hacyclic hname)).bind
        (hrest.bind (yields_pure _))

/-! ## Compiling a schema -/

/-- The check of the references passes exactly the closed and acyclic schemas. -/
theorem checkReferences_eq_ok_iff {schema : Schema} :
    schema.checkReferences = .ok () ↔ schema.Closed ∧ schema.Acyclic := by
  rw [checkReferences]
  by_cases hclosed : schema.Closed
  · rw [checkTargets_of_closed hclosed]
    by_cases hacyclic : schema.Acyclic
    · exact iff_of_true (checkCircles_of_acyclic hacyclic) ⟨hclosed, hacyclic⟩
    · obtain ⟨nodes, hfail⟩ := checkCircles_of_not_acyclic hacyclic
      refine iff_of_false ?_ fun h => hacyclic h.2
      intro hok
      cases hfail.symm.trans hok
  · obtain ⟨owner, property, target, hfail⟩ := checkTargets_of_not_closed hclosed
    rw [hfail]
    refine iff_of_false ?_ fun h => hclosed h.1
    rintro ⟨⟩

/-- Compiling a closed and acyclic schema gives the plans of its types, in the
order of declaration. -/
theorem compile_of_acyclic {schema : Schema} (hclosed : schema.Closed)
    (hacyclic : schema.Acyclic) :
    schema.compile.outcome = .ok ⟨schema.names.map schema.planOf⟩ := by
  obtain ⟨kept, hplans, -⟩ :=
    typePlans_yields hclosed hacyclic schema.names (fun _ h => h) [] schema.keepsPlans_nil
  have hcheck := checkReferences_eq_ok_iff.mpr ⟨hclosed, hacyclic⟩
  rw [compile, hcheck]
  simp only [Logged.bind_def, Logged.outcome_bind, Logged.ofExcept, hplans]
  rfl

/-- A schema whose references are refused is not compiled. -/
theorem compile_of_checkReferences_error {schema : Schema} {error : SchemaError}
    (h : schema.checkReferences = .error error) : schema.compile.outcome = .error error := by
  rw [compile, h]
  rfl

theorem compile_of_not_closed {schema : Schema} (h : ¬ schema.Closed) :
    ∃ owner property target,
      schema.compile.outcome = .error (.unknownType owner property target) := by
  obtain ⟨owner, property, target, hfail⟩ := checkTargets_of_not_closed h
  refine ⟨owner, property, target, compile_of_checkReferences_error ?_⟩
  rw [checkReferences, hfail]
  rfl

theorem compile_of_not_acyclic {schema : Schema} (hclosed : schema.Closed)
    (h : ¬ schema.Acyclic) :
    ∃ nodes, schema.compile.outcome = .error (.cyclicType nodes) := by
  obtain ⟨nodes, hfail⟩ := checkCircles_of_not_acyclic h
  refine ⟨nodes, compile_of_checkReferences_error ?_⟩
  rw [checkReferences, checkTargets_of_closed hclosed]
  exact hfail

theorem compile_cases (schema : Schema) :
    (schema.Closed ∧ schema.Acyclic ∧
      schema.compile.outcome = .ok ⟨schema.names.map schema.planOf⟩) ∨
    (¬ schema.Closed ∧ ∃ owner property target,
      schema.compile.outcome = .error (.unknownType owner property target)) ∨
    (schema.Closed ∧ ¬ schema.Acyclic ∧
      ∃ nodes, schema.compile.outcome = .error (.cyclicType nodes)) := by
  by_cases hclosed : schema.Closed
  · by_cases hacyclic : schema.Acyclic
    · exact .inl ⟨hclosed, hacyclic, compile_of_acyclic hclosed hacyclic⟩
    · exact .inr (.inr ⟨hclosed, hacyclic, compile_of_not_acyclic hclosed hacyclic⟩)
  · exact .inr (.inl ⟨hclosed, compile_of_not_closed hclosed⟩)

/-- A schema that compiles is closed and acyclic, and its plans are those of its
types. -/
theorem of_compile_eq_ok {schema : Schema} {compiled : CompiledSchema}
    (h : schema.compile.outcome = .ok compiled) :
    schema.Closed ∧ schema.Acyclic ∧ compiled.plans = schema.names.map schema.planOf := by
  rcases compile_cases schema with ⟨hclosed, hacyclic, hok⟩ | ⟨-, _, _, _, hfail⟩ |
    ⟨-, -, _, hfail⟩
  · cases hok.symm.trans h
    exact ⟨hclosed, hacyclic, rfl⟩
  · cases hfail.symm.trans h
  · cases hfail.symm.trans h

/-- A schema compiles if and only if it is closed and acyclic. -/
theorem exists_compile_iff (schema : Schema) :
    (∃ compiled, schema.compile.outcome = .ok compiled) ↔ schema.Closed ∧ schema.Acyclic := by
  constructor
  · rintro ⟨compiled, hcompile⟩
    obtain ⟨hclosed, hacyclic, -⟩ := of_compile_eq_ok hcompile
    exact ⟨hclosed, hacyclic⟩
  · rintro ⟨hclosed, hacyclic⟩
    exact ⟨_, compile_of_acyclic hclosed hacyclic⟩

theorem typeNames_of_compile {schema : Schema} {compiled : CompiledSchema}
    (h : schema.compile.outcome = .ok compiled) : compiled.typeNames = schema.names := by
  rw [CompiledSchema.typeNames, (of_compile_eq_ok h).2.2, List.map_map]
  have hname : ObjectPlan.name ∘ schema.planOf = id := funext (planOf_name schema)
  rw [hname, List.map_id]

theorem find?_map_planOf (schema : Schema) (names : List String) (name : String) :
    (names.map schema.planOf).find? (fun plan => plan.name == name) =
      if name ∈ names then some (schema.planOf name) else none := by
  induction names with
  | nil => rfl
  | cons first rest ih =>
      rw [List.map_cons, List.find?_cons, planOf_name, ih]
      by_cases h : first = name
      · subst h
        simp
      · rw [beq_false_of_ne h]
        simp [Ne.symm h]

/-- A schema that compiles has the plan of a type for each declared name, and for no
other name. -/
theorem get?_of_compile {schema : Schema} {compiled : CompiledSchema}
    (h : schema.compile.outcome = .ok compiled) (name : String) :
    compiled.get? name = if name ∈ schema.names then some (schema.planOf name) else none := by
  rw [CompiledSchema.get?, (of_compile_eq_ok h).2.2, find?_map_planOf]

/-- Types without properties compile, whatever their names. -/
theorem compile_without_properties (names : List String) :
    (Schema.compile (names.map fun name => (name, []))).outcome =
      .ok ⟨names.map fun name => ⟨name, []⟩⟩ := by
  let schema : Schema := names.map fun name => (name, [])
  have hempty : ∀ owner properties, (owner, properties) ∈ schema → properties = [] := by
    intro owner properties hmem
    obtain ⟨name, -, heq⟩ := List.mem_map.mp hmem
    exact (Prod.mk.inj heq).2.symm
  have hmentions : ∀ owner properties, (owner, properties) ∈ schema →
      ∀ target, ¬ PropertySet.Mentions properties target := by
    intro owner properties hmem target
    rw [hempty owner properties hmem]
    exact PropertySet.not_mentions_nil target
  have hclosed : schema.Closed := fun owner properties hmem target h =>
    absurd h (hmentions owner properties hmem target)
  have hacyclic : schema.Acyclic := by
    intro name hcycle
    obtain ⟨other, ⟨properties, hget, h⟩, -⟩ := Relation.TransGen.head'_iff.mp hcycle
    exact hmentions _ _ (Entries.mem_of_get? hget) other h
  have hnames : schema.names = names := by
    simp [schema, Entries.names, Function.comp_def]
  have hplan : ∀ name ∈ names, schema.planOf name = ⟨name, []⟩ := by
    intro name hname
    obtain ⟨properties, hget⟩ := Entries.exists_get?_of_mem_names (hnames.symm ▸ hname)
    rw [planOf_eq hclosed hacyclic hget, hempty name properties (Entries.mem_of_get? hget),
      propertyPlans]
  rw [compile_of_acyclic hclosed hacyclic, hnames, List.map_congr_left hplan]

/-- Compiling accepts exactly the closed and acyclic schemas. A schema that is not
closed fails at an unknown type, whether it has circles or not; a closed one with
circles fails at a circle; no schema is malformed. The search for circles ends for
every schema, by its measure `unvisited`. The bound of `typePlan` on the types on
the way is never what ends it: every bound from the number of types on gives the
same plan, whatever plans are kept so far. -/
theorem compile_accepts_closed_acyclic (schema : Schema) :
    ((∃ compiled, schema.compile.outcome = .ok compiled) ↔ schema.Closed ∧ schema.Acyclic) ∧
    ((∃ owner property target,
        schema.compile.outcome = .error (.unknownType owner property target)) ↔
      ¬ schema.Closed) ∧
    ((∃ nodes, schema.compile.outcome = .error (.cyclicType nodes)) ↔
      schema.Closed ∧ ¬ schema.Acyclic) ∧
    (∀ reason, schema.compile.outcome ≠ .error (.malformed reason)) ∧
    (schema.Closed ∧ schema.Acyclic → ∀ name ∈ schema.names,
      ∀ bound, schema.length ≤ bound → ∀ kept, schema.KeepsPlans kept →
        ∃ kept', ((typePlan schema bound name).run kept).outcome =
            .ok (schema.planOf name, kept') ∧ schema.KeepsPlans kept') := by
  have hbound : schema.Closed ∧ schema.Acyclic → ∀ name ∈ schema.names,
      ∀ bound, schema.length ≤ bound →
        Yields schema.KeepsPlans (typePlan schema bound name) (schema.planOf name) := by
    rintro ⟨hclosed, hacyclic⟩ name hname bound hle
    exact typePlan_yields hclosed hacyclic hname
      (lt_of_lt_of_le (rank_lt_length hacyclic hname) hle)
  rcases compile_cases schema with ⟨hclosed, hacyclic, hok⟩ |
    ⟨hclosed, owner, property, target, hfail⟩ | ⟨hclosed, hacyclic, nodes, hfail⟩
  · refine ⟨?_, ?_, ?_, ?_, hbound⟩ <;> simp [hclosed, hacyclic, hok]
  · refine ⟨?_, ?_, ?_, ?_, hbound⟩ <;> simp [hclosed, hfail]
  · refine ⟨?_, ?_, ?_, ?_, hbound⟩ <;> simp [hclosed, hacyclic, hfail]

end Schema

end RecordSchema
