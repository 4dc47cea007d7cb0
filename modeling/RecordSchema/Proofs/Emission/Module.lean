import RecordSchema.Proofs.Emission.Declaration
import RecordSchema.Proofs.Emission.Rebuild
import RecordSchema.Proofs.Report
import RecordSchema.Validation.Report

/-!
# What an emitted module holds

The statics of a module are read with the terms of their initialisers. A static that is
cloned in an initialiser stands for the plan of its own initialiser, so that
`Source.planWithin` runs initialisers as far down as references lead. The routines are
read with the statics that they hand to the runtime.

Main statement: an emitted module holds the plans that it was emitted for, and its
routines validate as these plans do, `emitted_module_rebuilds_plans`.
-/

namespace RecordSchema

namespace Emission

namespace Declaration

/-- A static that holds a plan, with the term that its initialiser builds. -/
def initialiser? (declaration : Declaration) : Option (String × Term) :=
  if declaration.signature = staticSignature then
    (Term.ofTokens? declaration.body).map fun term => (declaration.name, term)
  else none

/-- The static that a routine hands to the runtime of a crate, with its own arguments. -/
def target? (crate : String) (declaration : Declaration) : Option String :=
  if declaration.signature = routineSignature then
    match declaration.body.dropPrefix? (runtimeCall crate) with
    | some [.word static, .symbol ',', .word "data", .symbol ',', .word "options", .symbol ')'] =>
      some static
    | _ => none
  else none

end Declaration

namespace Source

/-- The statics of a text with the terms that their initialisers build, in order. -/
def initialisers? (text : String) : Option (Entries Term) :=
  ((declarations text).filter fun declaration => declaration.keyword == "static").mapM
    Declaration.initialiser?

/-- The plan that a static holds, if the initialisers of at most `depth` statics are
run on the way. -/
def planWithin (initialisers : Entries Term) : Nat → String → Option ObjectPlan
  | 0, _ => none
  | depth + 1, static =>
    match initialisers.get? static with
    | some (.call "Arc::new" [plan]) => plan.plan? (planWithin initialisers depth)
    | _ => none

/-- The plan that a static holds. -/
def planOf? (initialisers : Entries Term) (static : String) : Option ObjectPlan :=
  planWithin initialisers initialisers.length static

/-- The statics of a text with the plans that they hold, in order. -/
def plans? (text : String) : Option (Entries ObjectPlan) := do
  let initialisers ← initialisers? text
  initialisers.names.mapM fun static =>
    (planOf? initialisers static).map fun plan => (static, plan)

/-- What a routine of a text says of a record, where `crate` is the crate that the
runtime comes from. -/
def validate? (crate text routine : String) (data : Json) (options : ValidateOptions) :
    Option (Except ValidationError Outcome) := do
  let initialisers ← initialisers? text
  let declaration ← (declarations text).find? fun declaration =>
    declaration.keyword == "fn" && declaration.name == routine
  let static ← declaration.target? crate
  let plan ← planOf? initialisers static
  return plan.validate data options

end Source

/-! ## Reading lists -/

theorem mapM_eq_some_map {α β : Type} {f : α → Option β} {g : α → β} {items : List α}
    (h : ∀ item ∈ items, f item = some (g item)) : items.mapM f = some (items.map g) := by
  induction items with
  | nil => rfl
  | cons item rest ih =>
      obtain ⟨hitem, hrest⟩ := List.forall_mem_cons.mp h
      rw [List.mapM_cons, hitem, ih hrest]
      rfl

/-- The value that belongs to an item is found under its name if no other item has it. -/
theorem get?_map_of_unique {α β : Type} (name : α → String) (value : α → β) {items : List α}
    {item : α} (hitem : item ∈ items)
    (hunique : ∀ other ∈ items, name other = name item → other = item) :
    Entries.get? (items.map fun item => (name item, value item)) (name item) =
      some (value item) := by
  induction items with
  | nil => cases hitem
  | cons first rest ih =>
      rw [List.map_cons, Entries.get?_cons]
      split
      · case isTrue heq => rw [hunique first List.mem_cons_self heq]
      · case isFalse hne =>
          have hrest : item ∈ rest :=
            (List.mem_cons.mp hitem).resolve_left fun heq => hne (congrArg name heq.symm)
          exact ih hrest fun other hother => hunique other (List.mem_cons_of_mem _ hother)

/-! ## The declarations of a module -/

section Declarations

variable {statics : Entries String} {crate : String} {plans : List ObjectPlan}

theorem filter_static : ((plans.flatMap fun plan =>
      [staticDeclaration statics plan, routineDeclaration crate plan.name]).filter
        fun declaration => declaration.keyword == "static") =
    plans.map (staticDeclaration statics) := by
  induction plans with
  | nil => rfl
  | cons plan rest ih =>
      have hstatic : ((staticDeclaration statics plan).keyword == "static") = true := rfl
      have hroutine : ((routineDeclaration crate plan.name).keyword == "static") = false := by
        change ("fn" == "static") = false
        decide
      simp [ih, hstatic, hroutine]

/-- A routine is found under its name. Another type with the same routine would have the
same static. -/
theorem find?_routine {name : String} (hname : name ∈ plans.map ObjectPlan.name) :
    ((plans.flatMap fun plan =>
      [staticDeclaration statics plan, routineDeclaration crate plan.name]).find?
        fun declaration => declaration.keyword == "fn" &&
          declaration.name == (TypeNames.of name).routine) =
      some (routineDeclaration crate name) := by
  induction plans with
  | nil => cases hname
  | cons plan rest ih =>
      have hstatic : ((staticDeclaration statics plan).keyword == "fn") = false := by
        change ("static" == "fn") = false
        decide
      rw [List.flatMap_cons, List.cons_append, List.cons_append, List.nil_append,
        List.find?_cons_of_neg (by simp [hstatic])]
      by_cases heq : (TypeNames.of plan.name).routine = (TypeNames.of name).routine
      · have hsnake : snakeCase plan.name = snakeCase name := TypeNames.routineName_inj.mp heq
        rw [List.find?_cons_of_pos (by simp [routineDeclaration, heq]),
          routineDeclaration, routineDeclaration, TypeNames.of, hsnake]
        rfl
      · rw [List.find?_cons_of_neg (by simp [routineDeclaration, heq])]
        refine ih ((List.mem_cons.mp hname).resolve_left ?_)
        rintro rfl
        exact heq rfl

theorem target?_routineDeclaration (crate name : String) :
    (routineDeclaration crate name).target? crate = some (TypeNames.of name).static := by
  rw [routineDeclaration, Declaration.target?, if_pos rfl, handover,
    List.dropPrefix?_append_of_beq _ (beq_self_eq_true _)]
  rfl

theorem initialiser?_staticDeclaration (statics : Entries String) (plan : ObjectPlan) :
    (staticDeclaration statics plan).initialiser? =
      (Term.ofTokens? (initialiserOf statics plan).tokens).map fun term =>
        ((TypeNames.of plan.name).static, term) := by
  simp only [Declaration.initialiser?, staticDeclaration, if_true]

/-- The initialiser for a plan is read as a term that builds the plan. -/
theorem exists_term_initialiserOf {resolve : String → Option ObjectPlan} {plan : ObjectPlan}
    (h : plan.AllShared (IsResolved statics resolve)) :
    ∃ term, Term.ofTokens? (initialiserOf statics plan).tokens = some (.call "Arc::new" [term]) ∧
      term.plan? resolve = some plan := by
  obtain ⟨term, hread, hplan⟩ := exists_term_planExpression plan h
  refine ⟨term, ofTokens?_of_readsAs ?_, hplan⟩
  rw [initialiserOf]
  exact readsAs_call (fun _ _ => rfl) _ (ReadAs.cons hread readAs_nil)

/-- All statics are read where all plans that they share are resolved. -/
theorem exists_terms {resolve : String → Option ObjectPlan}
    (h : ∀ plan ∈ plans, plan.AllShared (IsResolved statics resolve)) :
    ∃ term : ObjectPlan → Term,
      (plans.map (staticDeclaration statics)).mapM Declaration.initialiser? =
          some (plans.map fun plan => ((TypeNames.of plan.name).static, term plan)) ∧
        ∀ plan ∈ plans, Term.ofTokens? (initialiserOf statics plan).tokens = some (term plan) := by
  have hterm : ∀ plan, ∃ term, plan ∈ plans →
      Term.ofTokens? (initialiserOf statics plan).tokens = some term := by
    intro plan
    by_cases hplan : plan ∈ plans
    · obtain ⟨term, hread, -⟩ := exists_term_initialiserOf (h plan hplan)
      exact ⟨_, fun _ => hread⟩
    · exact ⟨.word "", fun hmem => absurd hmem hplan⟩
  obtain ⟨term, hterm⟩ := Classical.skolem.mp hterm
  refine ⟨term, ?_, hterm⟩
  rw [List.mapM_map]
  apply mapM_eq_some_map
  intro plan hplan
  rw [Function.comp_apply, initialiser?_staticDeclaration, hterm plan hplan]
  rfl

end Declarations

/-! ## The plans of a module -/

section Plans

variable {schema : Schema}

/-- The plan of a type is resolved where its static holds it. -/
theorem isResolved_planOf {resolve : String → Option ObjectPlan} {name : String}
    (hname : name ∈ schema.names)
    (h : resolve (TypeNames.of name).static = some (schema.planOf name)) :
    IsResolved (staticsOf schema.names) resolve (schema.planOf name) := by
  refine ⟨(TypeNames.of name).static, ?_, TypeNames.static_ne_empty name,
    TypeNames.isTail_of_mem_static name, h⟩
  rw [Schema.planOf_name]
  exact get?_staticsOf hname

theorem eq_of_static_eq (hnameable : TypeNames.Nameable schema.names) {name name' : String}
    (hname : name ∈ schema.names) (hname' : name' ∈ schema.names)
    (h : (TypeNames.of name).static = (TypeNames.of name').static) : name = name' :=
  List.inj_on_of_nodup_map hnameable.nodup hname hname' (TypeNames.snakeCase_eq_of_static_eq h)

/-- The statics of the types with terms from which their plans are read. -/
def IsInitialised (schema : Schema) (initialisers : Entries Term) : Prop :=
  ∃ term : ObjectPlan → Term,
    initialisers = (schema.names.map schema.planOf).map
        (fun plan => ((TypeNames.of plan.name).static, term plan)) ∧
      ∀ plan ∈ schema.names.map schema.planOf,
        Term.ofTokens? (initialiserOf (staticsOf schema.names) plan).tokens = some (term plan)

theorem IsInitialised.length_eq {initialisers : Entries Term}
    (h : IsInitialised schema initialisers) : initialisers.length = schema.length := by
  obtain ⟨term, rfl, -⟩ := h
  simp [Entries.names]

theorem IsInitialised.names_eq {initialisers : Entries Term}
    (h : IsInitialised schema initialisers) :
    initialisers.names = schema.names.map fun name => (TypeNames.of name).static := by
  obtain ⟨term, rfl, -⟩ := h
  rw [Entries.names, List.map_map, List.map_map]
  exact List.map_congr_left fun name _ => by
    rw [Function.comp_apply, Function.comp_apply, Schema.planOf_name]

/-- The static of a type holds the type's plan, as far down as references of the type
lead. -/
theorem planWithin_static (hclosed : schema.Closed) (hacyclic : schema.Acyclic)
    (hnameable : TypeNames.Nameable schema.names) {initialisers : Entries Term}
    (hinitialisers : IsInitialised schema initialisers) {depth : Nat} {name : String}
    (hname : name ∈ schema.names) (hdepth : schema.rank name < depth) :
    Source.planWithin initialisers depth (TypeNames.of name).static =
      some (schema.planOf name) := by
  induction depth generalizing name with
  | zero => omega
  | succ depth ih =>
      have hshared : (schema.planOf name).AllShared (IsResolved (staticsOf schema.names)
          (Source.planWithin initialisers depth)) := by
        apply Schema.planOf_allShared hclosed hacyclic hname
        intro target hrefers
        have htarget := hclosed.target_mem_names hrefers
        have hlt := Schema.rank_lt_of_refersTo hclosed hacyclic hrefers
        exact isResolved_planOf htarget (ih htarget (by omega))
      obtain ⟨term, hread, hplan⟩ := exists_term_initialiserOf hshared
      obtain ⟨terms, rfl, hterms⟩ := hinitialisers
      have hmem : schema.planOf name ∈ schema.names.map schema.planOf := List.mem_map_of_mem hname
      have hget := get?_map_of_unique (fun plan => (TypeNames.of plan.name).static) terms hmem (by
        intro other hother hstatic
        obtain ⟨name', hname', rfl⟩ := List.mem_map.mp hother
        rw [Schema.planOf_name, Schema.planOf_name] at hstatic
        rw [eq_of_static_eq hnameable hname' hname hstatic])
      rw [Schema.planOf_name] at hget
      have hterm : terms (schema.planOf name) = .call "Arc::new" [term] := by
        have hsame := hterms _ hmem
        rw [hread] at hsame
        exact (Option.some.inj hsame).symm
      rw [Source.planWithin, hget, hterm]
      exact hplan

/-- The static of a type holds the type's plan. -/
theorem planOf?_static (hclosed : schema.Closed) (hacyclic : schema.Acyclic)
    (hnameable : TypeNames.Nameable schema.names) {initialisers : Entries Term}
    (hinitialisers : IsInitialised schema initialisers) {name : String}
    (hname : name ∈ schema.names) :
    Source.planOf? initialisers (TypeNames.of name).static = some (schema.planOf name) := by
  rw [Source.planOf?, hinitialisers.length_eq]
  exact planWithin_static hclosed hacyclic hnameable hinitialisers hname
    (Schema.rank_lt_length hacyclic hname)

/-- The statics of the types can be read, whatever plans are shared. -/
theorem exists_initialisers (hclosed : schema.Closed) (hacyclic : schema.Acyclic)
    (hnameable : TypeNames.Nameable schema.names) :
    ∃ initialisers, ((schema.names.map schema.planOf).map
        (staticDeclaration (staticsOf schema.names))).mapM Declaration.initialiser? =
          some initialisers ∧ IsInitialised schema initialisers := by
  -- any way to resolve all statics will do here, since terms do not depend on it
  let resolve : String → Option ObjectPlan := fun static =>
    (schema.names.find? fun name => (TypeNames.of name).static == static).map schema.planOf
  have hresolve : ∀ name ∈ schema.names,
      resolve (TypeNames.of name).static = some (schema.planOf name) := by
    intro name hname
    cases hfind : schema.names.find? fun other =>
        (TypeNames.of other).static == (TypeNames.of name).static with
    | none =>
        exact absurd (List.find?_eq_none.mp hfind name hname) (by simp)
    | some other =>
        have hother : other = name := eq_of_static_eq hnameable (List.mem_of_find?_eq_some hfind)
          hname (by simpa using List.find?_some hfind)
        simp only [resolve, hfind, hother, Option.map_some]
  have hshared : ∀ plan ∈ schema.names.map schema.planOf,
      plan.AllShared (IsResolved (staticsOf schema.names) resolve) := by
    intro plan hplan
    obtain ⟨name, hname, rfl⟩ := List.mem_map.mp hplan
    apply Schema.planOf_allShared hclosed hacyclic hname
    intro target hrefers
    have htarget := hclosed.target_mem_names hrefers
    exact isResolved_planOf htarget (hresolve target htarget)
  obtain ⟨term, hread, hterm⟩ := exists_terms hshared
  exact ⟨_, hread, term, rfl, hterm⟩

end Plans

/-- Every module that is emitted for a schema holds the plans of the schema, in the order
of declaration: they are read from the statics of its text and are equal to those that
were compiled. The routine of each type validates every record as the type's plan does,
under all options. -/
theorem emitted_module_rebuilds_plans {schema : Schema} {compiled : CompiledSchema}
    {options : EmitOptions} {text : String} (hcompile : schema.compile.outcome = .ok compiled)
    (hemit : (compiled.emit options).outcome = .ok text)
    (hnames : ∀ name ∈ schema.names, '\n' ∉ name.toList)
    (hcrate : CratePath.isValid options.runtimeCrate = true) :
    compiled.typeNames = schema.names ∧
      Source.plans? text =
        some (compiled.plans.map fun plan => ((TypeNames.of plan.name).static, plan)) ∧
      ∀ typeName ∈ schema.names, ∃ plan, compiled.get? typeName = some plan ∧
        ∀ (data : Json) (validateOptions : ValidateOptions),
          Source.validate? options.runtimeCrate text (TypeNames.of typeName).routine data
            validateOptions = some (plan.validate data validateOptions) := by
  obtain ⟨hclosed, hacyclic, hplans⟩ := Schema.of_compile_eq_ok hcompile
  have htypeNames := Schema.typeNames_of_compile hcompile
  have hnameable := (CompiledSchema.emit_eq_ok_iff.mp hemit).1
  rw [htypeNames] at hnameable
  have hdeclarations := declarations_of_emit hcrate (htypeNames ▸ hnames) hemit
  rw [htypeNames, hplans] at hdeclarations
  obtain ⟨initialisers, hread, hinitialised⟩ :=
    exists_initialisers hclosed hacyclic hnameable
  have hinitialisers : Source.initialisers? text = some initialisers := by
    rw [Source.initialisers?, hdeclarations, filter_static, hread]
  have hheld : ∀ name ∈ schema.names,
      Source.planOf? initialisers (TypeNames.of name).static = some (schema.planOf name) :=
    fun _ => planOf?_static hclosed hacyclic hnameable hinitialised
  refine ⟨htypeNames, ?_, ?_⟩
  · rw [Source.plans?, hinitialisers, hplans, Option.bind_eq_bind, Option.bind_some,
      hinitialised.names_eq, List.mapM_map, List.map_map]
    apply mapM_eq_some_map
    intro name hname
    rw [Function.comp_apply, hheld name hname, Function.comp_apply, Schema.planOf_name]
    rfl
  · intro typeName hname
    refine ⟨schema.planOf typeName, ?_, fun data validateOptions => ?_⟩
    · rw [Schema.get?_of_compile hcompile, if_pos hname]
    · have hmem : typeName ∈ (schema.names.map schema.planOf).map ObjectPlan.name := by
        rw [← hplans, ← CompiledSchema.typeNames, htypeNames]
        exact hname
      rw [Source.validate?, hinitialisers, hdeclarations, Option.bind_eq_bind, Option.bind_some,
        find?_routine hmem, Option.bind_eq_bind, Option.bind_some, target?_routineDeclaration,
        Option.bind_eq_bind, Option.bind_some, hheld typeName hname]
      rfl

theorem emitted_orders_rebuild_plans :
    ∃ compiled text, Schema.orders.compile.outcome = .ok compiled ∧
      (compiled.emit .standard).outcome = .ok text ∧
      (∀ name ∈ Schema.orders.names, '\n' ∉ name.toList) ∧
      CratePath.isValid EmitOptions.standard.runtimeCrate = true ∧
      (Source.plans? text).map Entries.names = some ["CUSTOMER_PLAN", "ORDER_PLAN"] ∧
      ∃ plan, compiled.get? "Order" = some plan ∧ ∀ data validateOptions,
        Source.validate? "assertify" text "validate_order" data validateOptions =
          some (plan.validate data validateOptions) := by
  obtain ⟨compiled, hcompile⟩ := Schema.exists_compile_orders
  have hnames : ∀ name ∈ Schema.orders.names, '\n' ∉ name.toList := by decide
  have hcrate : CratePath.isValid EmitOptions.standard.runtimeCrate = true := by decide
  have htypeNames := Schema.typeNames_of_compile hcompile
  have hnameable : TypeNames.Nameable compiled.typeNames := by
    rw [htypeNames]
    exact ⟨by decide, by decide⟩
  obtain ⟨text, hemit⟩ : ∃ text, (compiled.emit .standard).outcome = .ok text :=
    ⟨_, CompiledSchema.emit_eq_ok_iff.mpr ⟨hnameable, rfl⟩⟩
  obtain ⟨-, hplans, hroutines⟩ := emitted_module_rebuilds_plans hcompile hemit hnames hcrate
  refine ⟨compiled, text, hcompile, hemit, hnames, hcrate, ?_, ?_⟩
  · rw [hplans, (Schema.of_compile_eq_ok hcompile).2.2]
    decide +kernel
  · have hroutine : (TypeNames.of "Order").routine = "validate_order" := by decide +kernel
    rw [← hroutine]
    exact hroutines "Order" (by decide)

end Emission

end RecordSchema
