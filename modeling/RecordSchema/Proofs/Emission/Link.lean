import RecordSchema.Proofs.Emission.Clone
import RecordSchema.Proofs.Emission.Module

/-!
# How an emitted module holds together

A static of an emitted module clones others, and a routine hands one over. `Source.IsLinked`
says that all of them are there, that each is the one of the type that is meant, and that
no static leads back to itself, so that none waits for its own initialiser.

Main statement: every emitted module is linked in this way, `emitted_module_isLinked`.
-/

namespace RecordSchema

namespace Emission

/-- The name of the plan that the initialiser of a static builds. -/
def Declaration.planName? (declaration : Declaration) : Option String :=
  match declaration.body.dropPrefix? (tokens "Arc::new(ObjectPlan::new(") with
  | some (.literal name :: _) => some name
  | _ => none

namespace Source

/-- The statics that a text declares. -/
def statics (text : String) : List Declaration :=
  (declarations text).filter fun declaration => declaration.keyword == "static"

/-- The routines that a text declares. -/
def routines (text : String) : List Declaration :=
  (declarations text).filter fun declaration => declaration.keyword == "fn"

/-- A static of the name is declared and builds the plan of the type. -/
def IsStaticOf (text static typeName : String) : Prop :=
  ∃ declaration ∈ statics text,
    declaration.name = static ∧ declaration.planName? = some typeName

/-- The initialiser of one static clones the other. -/
def Clones (text static other : String) : Prop :=
  ∃ declaration ∈ statics text, declaration.name = static ∧ other ∈ clones declaration.body

/-- How a text with the plans of a schema holds together; `crate` is the crate that its
runtime comes from. -/
structure IsLinked (schema : Schema) (crate text : String) : Prop where
  /-- Whatever the text clones, it clones in the initialisers of its statics. -/
  cloned_inside : clones (tokens text) = (statics text).flatMap fun declaration =>
    clones declaration.body
  /-- There is one static for each type, which clones the statics of the types that the
  references of the type name, one by one. -/
  cloned_for_references : List.Forall₂ (fun declaration type =>
    declaration.planName? = some type.1 ∧
      List.Forall₂ (IsStaticOf text) (clones declaration.body)
        ((PropertySet.references type.2).map Reference.target)) (statics text) schema
  /-- What is cloned is declared once. -/
  declared_once : ∀ static ∈ clones (tokens text),
    ((statics text).map Declaration.name).count static = 1
  /-- There is one routine for each type, which hands over the static of the type. -/
  handed_over : List.Forall₂ (fun declaration typeName =>
    declaration.name = (TypeNames.of typeName).routine ∧
      ∃ static, declaration.target? crate = some static ∧ IsStaticOf text static typeName)
    (routines text) schema.names
  /-- No static leads back to itself. -/
  no_return : ∀ static, ¬ Relation.TransGen (Clones text) static static

end Source

/-! ## The declarations of a module -/

theorem filter_routine {statics : Entries String} {crate : String} {plans : List ObjectPlan} :
    ((plans.flatMap fun plan =>
      [staticDeclaration statics plan, routineDeclaration crate plan.name]).filter
        fun declaration => declaration.keyword == "fn") =
    plans.map fun plan => routineDeclaration crate plan.name := by
  induction plans with
  | nil => rfl
  | cons plan rest ih =>
      have hstatic : ((staticDeclaration statics plan).keyword == "fn") = false := by
        change ("static" == "fn") = false
        decide
      have hroutine : ((routineDeclaration crate plan.name).keyword == "fn") = true := rfl
      simp [ih, hstatic, hroutine]

theorem planName?_staticDeclaration (statics : Entries String) (plan : ObjectPlan) :
    (staticDeclaration statics plan).planName? = some plan.name := by
  obtain ⟨name, properties⟩ := plan
  obtain ⟨rest, hbody⟩ : ∃ rest, (initialiserOf statics ⟨name, properties⟩).tokens =
      tokens "Arc::new(ObjectPlan::new(" ++ .literal name :: rest := by
    rw [initialiserOf, planExpression]
    exact ⟨_, rfl⟩
  rw [staticDeclaration, Declaration.planName?, hbody,
    List.dropPrefix?_append_of_beq _ (beq_self_eq_true _)]

section Module

variable {schema : Schema} {text : String}

/-- The statics of a module are those of the types of a schema, in order. -/
def HoldsStatics (schema : Schema) (text : String) : Prop :=
  Source.statics text = schema.names.map fun name =>
    staticDeclaration (staticsOf schema.names) (schema.planOf name)

theorem HoldsStatics.isStaticOf (h : HoldsStatics schema text) {name : String}
    (hname : name ∈ schema.names) :
    Source.IsStaticOf text (TypeNames.of name).static name := by
  refine ⟨staticDeclaration (staticsOf schema.names) (schema.planOf name), ?_, ?_, ?_⟩
  · rw [h]
    exact List.mem_map_of_mem hname
  · rw [staticDeclaration, Schema.planOf_name]
  · rw [planName?_staticDeclaration, Schema.planOf_name]

theorem HoldsStatics.names_eq (h : HoldsStatics schema text) :
    (Source.statics text).map Declaration.name =
      schema.names.map fun name => (TypeNames.of name).static := by
  rw [h, List.map_map]
  apply List.map_congr_left
  intro name _
  rw [Function.comp_apply, staticDeclaration, Schema.planOf_name]

/-- A static that clones another belongs to a type that refers to the type of the other. -/
theorem HoldsStatics.refersTo_of_clones (h : HoldsStatics schema text)
    (hclosed : schema.Closed) (hacyclic : schema.Acyclic) {static other : String}
    (hclones : Source.Clones text static other) :
    ∃ name target, static = (TypeNames.of name).static ∧ other = (TypeNames.of target).static ∧
      schema.RefersTo name target := by
  obtain ⟨declaration, hmem, rfl, hother⟩ := hclones
  rw [h] at hmem
  obtain ⟨name, hname, rfl⟩ := List.mem_map.mp hmem
  obtain ⟨properties, hget⟩ := Entries.exists_get?_of_mem_names hname
  rw [staticDeclaration, clones_initialiserOf hclosed hacyclic hget] at hother
  obtain ⟨reference, hreference, rfl⟩ := List.mem_map.mp hother
  refine ⟨name, reference.target, ?_, rfl, properties, hget, ?_⟩
  · rw [staticDeclaration, Schema.planOf_name]
  · rw [← PropertySet.mem_referencesIn_iff _ ""]
    exact List.mem_map_of_mem hreference

theorem HoldsStatics.isStaticOf_references (h : HoldsStatics schema text)
    (hclosed : schema.Closed) {name : String} {properties : PropertySet}
    (hget : schema.get? name = some properties) :
    List.Forall₂ (Source.IsStaticOf text) (referenceStatics properties.references)
      (properties.references.map Reference.target) := by
  rw [referenceStatics, List.forall₂_map_left_iff, List.forall₂_map_right_iff, List.forall₂_same]
  intro reference hreference
  apply h.isStaticOf
  refine hclosed.target_mem_names ⟨properties, hget, ?_⟩
  rw [← PropertySet.mem_referencesIn_iff _ ""]
  exact List.mem_map_of_mem hreference

theorem HoldsStatics.cloned_for_references (h : HoldsStatics schema text)
    (hclosed : schema.Closed) (hacyclic : schema.Acyclic) (hnodup : schema.names.Nodup) :
    List.Forall₂ (fun declaration type => declaration.planName? = some type.1 ∧
      List.Forall₂ (Source.IsStaticOf text) (clones declaration.body)
        ((PropertySet.references type.2).map Reference.target)) (Source.statics text) schema := by
  have hnames : Source.statics text = schema.map fun type =>
      staticDeclaration (staticsOf schema.names) (schema.planOf type.1) := by
    rw [h]
    exact List.map_map
  rw [hnames, List.forall₂_map_left_iff, List.forall₂_same]
  rintro ⟨name, properties⟩ hmem
  have hget := Entries.get?_of_mem hnodup hmem
  have hclones := clones_initialiserOf hclosed hacyclic hget
  refine ⟨?_, ?_⟩
  · rw [planName?_staticDeclaration, Schema.planOf_name]
  · rw [staticDeclaration, hclones]
    exact h.isStaticOf_references hclosed hget

theorem HoldsStatics.declared_once (h : HoldsStatics schema text) (hclosed : schema.Closed)
    (hacyclic : schema.Acyclic) (hnameable : TypeNames.Nameable schema.names)
    {static other : String} (hclones : Source.Clones text static other) :
    ((Source.statics text).map Declaration.name).count other = 1 := by
  obtain ⟨_, target, _, hother, hrefers⟩ := h.refersTo_of_clones hclosed hacyclic hclones
  have hinjective : ∀ name ∈ schema.names, ∀ name' ∈ schema.names,
      (TypeNames.of name).static = (TypeNames.of name').static → name = name' :=
    fun name hname name' hname' => eq_of_static_eq hnameable hname hname'
  have hnames : schema.names.Nodup := hnameable.nodup.of_map
  have hnodup : (schema.names.map fun name => (TypeNames.of name).static).Nodup :=
    hnames.map_on hinjective
  have hmem : (TypeNames.of target).static ∈
      schema.names.map fun name => (TypeNames.of name).static :=
    List.mem_map.mpr ⟨target, hclosed.target_mem_names hrefers, rfl⟩
  rw [h.names_eq, hother]
  exact List.count_eq_one_of_mem hnodup hmem

theorem HoldsStatics.transGen_refersTo (h : HoldsStatics schema text) (hclosed : schema.Closed)
    (hacyclic : schema.Acyclic) (hnameable : TypeNames.Nameable schema.names)
    {static other : String} (hleads : Relation.TransGen (Source.Clones text) static other) :
    ∃ name target, static = (TypeNames.of name).static ∧ other = (TypeNames.of target).static ∧
      name ∈ schema.names ∧ target ∈ schema.names ∧
      Relation.TransGen schema.RefersTo name target := by
  induction hleads with
  | single hclones =>
      obtain ⟨name, target, hstatic, hother, hrefers⟩ :=
        h.refersTo_of_clones hclosed hacyclic hclones
      exact ⟨name, target, hstatic, hother, hrefers.mem_names, hclosed.target_mem_names hrefers,
        .single hrefers⟩
  | tail _ hclones ih =>
      obtain ⟨name, between, hstatic, hbetween, hname, hmem, hleads⟩ := ih
      obtain ⟨between', target, hbetween', hother, hrefers⟩ :=
        h.refersTo_of_clones hclosed hacyclic hclones
      -- types with the same static are the same type
      have heq : between = between' := eq_of_static_eq hnameable hmem hrefers.mem_names
        (hbetween.symm.trans hbetween')
      subst heq
      exact ⟨name, target, hstatic, hother, hname, hclosed.target_mem_names hrefers,
        .tail hleads hrefers⟩

theorem HoldsStatics.no_return (h : HoldsStatics schema text) (hclosed : schema.Closed)
    (hacyclic : schema.Acyclic) (hnameable : TypeNames.Nameable schema.names) (static : String) :
    ¬ Relation.TransGen (Source.Clones text) static static := by
  intro hleads
  obtain ⟨name, target, hstatic, hother, hname, htarget, hrefers⟩ :=
    h.transGen_refersTo hclosed hacyclic hnameable hleads
  have heq : name = target := eq_of_static_eq hnameable hname htarget (hstatic.symm.trans hother)
  subst heq
  exact hacyclic name hrefers

end Module

/-- Every module that is emitted for a schema is linked: it declares once whatever it clones,
each reference of the schema is a clone of the static of its type, each routine hands over the
static of its own type, and no static leads back to itself. -/
theorem emitted_module_isLinked {schema : Schema} {compiled : CompiledSchema}
    {options : EmitOptions} {text : String} (hcompile : schema.compile.outcome = .ok compiled)
    (hemit : (compiled.emit options).outcome = .ok text)
    (hnames : ∀ name ∈ schema.names, '\n' ∉ name.toList)
    (hcrate : CratePath.isValid options.runtimeCrate = true) :
    Source.IsLinked schema options.runtimeCrate text := by
  obtain ⟨hclosed, hacyclic, hplans⟩ := Schema.of_compile_eq_ok hcompile
  have htypeNames := Schema.typeNames_of_compile hcompile
  have hnameable := (CompiledSchema.emit_eq_ok_iff.mp hemit).1
  rw [htypeNames] at hnameable
  have hdeclarations := declarations_of_emit hcrate (htypeNames ▸ hnames) hemit
  have hclones := clones_of_emit hcrate (htypeNames ▸ hnames) hemit
  rw [htypeNames, hplans] at hdeclarations hclones
  have hholds : HoldsStatics schema text := by
    rw [HoldsStatics, Source.statics, hdeclarations, filter_static, List.map_map]
    rfl
  have hroutines : Source.routines text = schema.names.map fun name =>
      routineDeclaration options.runtimeCrate name := by
    rw [Source.routines, hdeclarations, filter_routine, List.map_map]
    exact List.map_congr_left fun name _ => by rw [Function.comp_apply, Schema.planOf_name]
  have hinside : clones (tokens text) = (Source.statics text).flatMap fun declaration =>
      clones declaration.body := by
    rw [hclones, hholds, List.flatMap_map, List.flatMap_map]
    rfl
  refine ⟨hinside, ?_, ?_, ?_, ?_⟩
  · exact hholds.cloned_for_references hclosed hacyclic hnameable.nodup.of_map
  · intro static hstatic
    rw [hinside, List.mem_flatMap] at hstatic
    obtain ⟨declaration, hmem, hother⟩ := hstatic
    exact hholds.declared_once hclosed hacyclic hnameable ⟨declaration, hmem, rfl, hother⟩
  · rw [hroutines, List.forall₂_map_left_iff, List.forall₂_same]
    intro name hname
    exact ⟨rfl, (TypeNames.of name).static, target?_routineDeclaration _ name,
      hholds.isStaticOf hname⟩
  · exact hholds.no_return hclosed hacyclic hnameable

theorem exists_emit_orders : ∃ compiled text, Schema.orders.compile.outcome = .ok compiled ∧
    (compiled.emit .standard).outcome = .ok text := by
  obtain ⟨compiled, hcompile⟩ := Schema.exists_compile_orders
  have hnameable : TypeNames.Nameable compiled.typeNames := by
    rw [Schema.typeNames_of_compile hcompile]
    exact ⟨by decide, by decide⟩
  exact ⟨compiled, _, hcompile, CompiledSchema.emit_eq_ok_iff.mpr ⟨hnameable, rfl⟩⟩

theorem emitted_orders_isLinked :
    ∃ compiled text, Schema.orders.compile.outcome = .ok compiled ∧
      (compiled.emit .standard).outcome = .ok text ∧
      (∀ name ∈ Schema.orders.names, '\n' ∉ name.toList) ∧
      CratePath.isValid EmitOptions.standard.runtimeCrate = true ∧
      Source.IsLinked Schema.orders "assertify" text ∧
      clones (tokens text) = ["CUSTOMER_PLAN", "CUSTOMER_PLAN"] := by
  obtain ⟨compiled, text, hcompile, hemit⟩ := exists_emit_orders
  have hnames : ∀ name ∈ Schema.orders.names, '\n' ∉ name.toList := by decide
  have hcrate : CratePath.isValid EmitOptions.standard.runtimeCrate = true := by decide
  have hclones := clones_of_emit hcrate (Schema.typeNames_of_compile hcompile ▸ hnames) hemit
  refine ⟨compiled, text, hcompile, hemit, hnames, hcrate,
    emitted_module_isLinked hcompile hemit hnames hcrate, ?_⟩
  rw [hclones, Schema.typeNames_of_compile hcompile, (Schema.of_compile_eq_ok hcompile).2.2]
  decide +kernel

end Emission

end RecordSchema
