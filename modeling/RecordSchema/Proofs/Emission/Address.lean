import RecordSchema.Proofs.Emission.Name
import RecordSchema.Proofs.Storage.Sharing

/-!
# Emission by addresses

Emission clones a static where a check is a reference and builds a plan in place where it is not.
It can be told by addresses as well: a place whose plan stands at the address of a declared type
clones the static of this type, and every other place builds its plan. `heldPlan` writes a plan
in this way, from the statics that hold the plans at its slots, and does not ask what the checks
are.

Main statement: a schema that compiles is emitted as this text, `Schema.emit_eq_addressedModule`,
since the types at the addresses of slots are those that the checks refer to.
-/

namespace RecordSchema

namespace Emission

/-- The expression for a place that holds a plan: a clone of the static that holds it, or the plan
itself. The first of `holders` is that of the place; those that are left come back. -/
def heldNested (build : List (Option String) → Expression × List (Option String)) :
    List (Option String) → Expression × List (Option String)
  | some static :: rest => (.call "Arc::clone" .inline [.word ("&*" ++ static)], rest)
  | none :: rest => (.call "Arc::new" .inline [(build rest).1], (build rest).2)
  | [] => (.call "Arc::new" .inline [(build []).1], [])

mutual

/-- The expression for a plan. For each place in it that holds a plan, in depth and in order,
`holders` has the static that holds this plan as well, if there is one; those that are left come
back. -/
def heldPlan : ObjectPlan → List (Option String) → Expression × List (Option String)
  | ⟨name, properties⟩, holders =>
    let (items, rest) := heldProperties properties holders
    (.call "ObjectPlan::new" .block [.literal name, .vector .block items], rest)

def heldProperties : List PropertyPlan → List (Option String) →
    List Expression × List (Option String)
  | [], holders => ([], holders)
  | property :: others, holders =>
    let (item, rest) := heldProperty property holders
    let (items, rest) := heldProperties others rest
    (item :: items, rest)

def heldProperty : PropertyPlan → List (Option String) → Expression × List (Option String)
  | ⟨key, required, transforms, checks⟩, holders =>
    let (items, rest) := heldChecks checks holders
    (.call "PropertyPlan::new" .block
      [.literal key, .word (if required then "true" else "false"),
        transformsExpression transforms, .vector (checksLayout checks) items], rest)

def heldChecks : List Check → List (Option String) → List Expression × List (Option String)
  | [], holders => ([], holders)
  | check :: others, holders =>
    let (item, rest) := heldCheck check holders
    let (items, rest) := heldChecks others rest
    (item :: items, rest)

def heldCheck : Check → List (Option String) → Expression × List (Option String)
  | .kind kind, holders => (.call "Check::Kind" .inline [.word (kindWord kind)], holders)
  | .integer, holders => (.word "Check::Integer", holders)
  | .startsWith start, holders => (.call "Check::Prefix" .inline [.owned start], holders)
  | .minLength length, holders =>
    (.call "Check::MinLength" .inline [.word (toString length.toNat)], holders)
  | .fields plan, holders =>
    let (item, rest) := heldNested (heldPlan plan) holders
    (.call "Check::Fields" .inline [item], rest)
  | .reference plan, holders =>
    let (item, rest) := heldNested (heldPlan plan) holders
    (.call "Check::Fields" .inline [item], rest)
  | .items checks, holders =>
    let (items, rest) := heldChecks checks holders
    (.call "Check::Items" .inline
      [.call "Box::new" .inline
        [.call "ItemPlan::new" .inline [.vector (checksLayout checks) items]]], rest)

end

/-! ## By constructors -/

/-- The static that holds the plan of a check as well: that of the type which the check refers
to. -/
def holder? (statics : Entries String) : Check → Option String
  | .reference plan => statics.get? plan.name
  | _ => none

@[simp] theorem holder?_reference (statics : Entries String) (plan : ObjectPlan) :
    holder? statics (.reference plan) = statics.get? plan.name := rfl

@[simp] theorem holder?_fields (statics : Entries String) (plan : ObjectPlan) :
    holder? statics (.fields plan) = none := rfl

/-- A plan that the check refers to has a static. -/
def HasStatic (statics : Entries String) (check : Check) : Prop :=
  ∀ plan, check = .reference plan → ∃ static, statics.get? plan.name = some static

section Held

variable {statics : Entries String}

mutual

/-- With the statics of the types that its checks refer to, a plan is written as it is emitted. -/
theorem heldPlan_eq : ∀ (plan : ObjectPlan) (rest : List (Option String)),
    (∀ check ∈ plan.nested, HasStatic statics check) →
    heldPlan plan (plan.nested.map (holder? statics) ++ rest) =
      (planExpression statics plan, rest)
  | ⟨name, properties⟩, rest, h => by
      rw [ObjectPlan.nested] at h ⊢
      rw [heldPlan, heldProperties_eq properties rest h, planExpression]

theorem heldProperties_eq : ∀ (properties : List PropertyPlan) (rest : List (Option String)),
    (∀ check ∈ PropertyPlan.nestedIn properties, HasStatic statics check) →
    heldProperties properties ((PropertyPlan.nestedIn properties).map (holder? statics) ++ rest) =
      (propertyExpressions statics properties, rest)
  | [], _, _ => rfl
  | property :: others, rest, h => by
      rw [PropertyPlan.nestedIn, List.forall_mem_append] at h
      rw [PropertyPlan.nestedIn, List.map_append, List.append_assoc, heldProperties,
        heldProperty_eq property _ h.1]
      dsimp only
      rw [heldProperties_eq others rest h.2, propertyExpressions]

theorem heldProperty_eq : ∀ (property : PropertyPlan) (rest : List (Option String)),
    (∀ check ∈ PropertyPlan.nested property, HasStatic statics check) →
    heldProperty property ((PropertyPlan.nested property).map (holder? statics) ++ rest) =
      (propertyExpression statics property, rest)
  | ⟨key, required, transforms, checks⟩, rest, h => by
      rw [PropertyPlan.nested] at h ⊢
      rw [heldProperty, heldChecks_eq checks rest h, propertyExpression]

theorem heldChecks_eq : ∀ (checks : List Check) (rest : List (Option String)),
    (∀ check ∈ Check.nestedIn checks, HasStatic statics check) →
    heldChecks checks ((Check.nestedIn checks).map (holder? statics) ++ rest) =
      (checkExpressions statics checks, rest)
  | [], _, _ => rfl
  | check :: others, rest, h => by
      rw [Check.nestedIn, List.forall_mem_append] at h
      rw [Check.nestedIn, List.map_append, List.append_assoc, heldChecks,
        heldCheck_eq check _ h.1]
      dsimp only
      rw [heldChecks_eq others rest h.2, checkExpressions]

theorem heldCheck_eq : ∀ (check : Check) (rest : List (Option String)),
    (∀ nested ∈ Check.nested check, HasStatic statics nested) →
    heldCheck check ((Check.nested check).map (holder? statics) ++ rest) =
      (checkExpression statics check, rest)
  | .kind _, _, _ => rfl
  | .integer, _, _ => rfl
  | .startsWith _, _, _ => rfl
  | .minLength _, _, _ => rfl
  | .fields plan, rest, h => by
      rw [Check.nested, List.forall_mem_cons] at h
      rw [Check.nested, List.map_cons, List.cons_append, holder?_fields, heldCheck, heldNested,
        heldPlan_eq plan rest h.2, checkExpression]
  | .reference plan, rest, h => by
      rw [Check.nested, List.forall_mem_singleton] at h
      obtain ⟨static, hstatic⟩ := h plan rfl
      rw [Check.nested, List.map_singleton, List.singleton_append, holder?_reference, hstatic,
        heldCheck, heldNested, checkExpression, hstatic]
  | .items checks, rest, h => by
      rw [Check.nested] at h ⊢
      rw [heldCheck, heldChecks_eq checks rest h, checkExpression]

end

end Held

/-! ## By addresses -/

/-- The expression for the plan of a stored type, where the static of a type is cloned at each slot
that has the address of the type. -/
def addressedExpression (types : List StoredPlan) (statics : Entries String) (type : StoredPlan) :
    Expression :=
  (heldPlan type.plan
    (type.slots.map fun slot => (typeOf? types slot.address).bind statics.get?)).1

/-- The static and the routine of a stored type, by addresses. -/
def addressedType (crate : String) (types : List StoredPlan) (type : StoredPlan) : String :=
  let statics := staticsOf (types.map fun type => type.plan.name)
  let names := TypeNames.of type.plan.name
  "\n" ++ initialisedStatic names.static (addressedExpression types statics type) ++ "\n" ++
    routineText crate names type.plan.name

/-- The module for stored types, by addresses. -/
def addressedModule (options : EmitOptions) (types : List StoredPlan) : String :=
  (if options.header then headerText else "") ++ importsText options.runtimeCrate ++
    String.join (types.map (addressedType options.runtimeCrate types))

end Emission

open Emission

namespace Schema

/-- The static for the type at a site is the one that holds the plan of the site's check. -/
theorem holder?_of_holds {compiled : CompiledSchema} {statics : Entries String} {site : Site}
    {check : Check} (h : site.Holds compiled.get? check) :
    site.target.bind statics.get? = holder? statics check := by
  rw [Site.Holds] at h
  cases htarget : site.target with
  | none =>
      rw [htarget] at h
      obtain ⟨properties, rfl⟩ := h
      rfl
  | some target =>
      rw [htarget] at h
      obtain ⟨plan, hget, rfl⟩ := h
      have hname : plan.name = target := by simpa using List.find?_some hget
      rw [Option.bind_some, holder?_reference, hname]

/-- A plan that a check refers to is that of a declared type. -/
theorem mem_names_of_holds {schema : Schema} {compiled : CompiledSchema}
    (h : schema.compile.outcome = .ok compiled) {site : Site} {plan : ObjectPlan}
    (hsite : site.Holds compiled.get? (.reference plan)) : plan.name ∈ schema.names := by
  rw [Site.Holds] at hsite
  cases htarget : site.target with
  | none =>
      rw [htarget] at hsite
      obtain ⟨properties, hcheck⟩ := hsite
      cases hcheck
  | some target =>
      rw [htarget] at hsite
      obtain ⟨plan', hget, hcheck⟩ := hsite
      cases hcheck
      rw [← typeNames_of_compile h]
      exact List.mem_map_of_mem (List.mem_of_find?_eq_some hget)

/-- Choosing by the addresses of stored types gives the expressions that are emitted, whatever the
statics of the types are called. -/
theorem IsStored.addressedExpression_eq {schema : Schema} {compiled : CompiledSchema}
    {types : List StoredPlan} {kept : Entries StoredPlan}
    (hstored : schema.IsStored compiled types kept)
    (h : schema.compile.outcome = .ok compiled) {statics : Entries String}
    (hstatics : ∀ name ∈ schema.names, ∃ static, statics.get? name = some static)
    {type : StoredPlan} (htype : type ∈ types) :
    addressedExpression types statics type = planExpression statics type.plan := by
  obtain ⟨properties, -, hsites, hholds, -, hslots⟩ := hstored.exists_sites h htype
  have hholders : type.slots.map (fun slot => (typeOf? types slot.address).bind statics.get?) =
      type.plan.nested.map (holder? statics) :=
    calc type.slots.map (fun slot => (typeOf? types slot.address).bind statics.get?)
        = (type.slots.map Slot.site).map fun site => site.target.bind statics.get? := by
          rw [List.map_map]
          exact List.map_congr_left fun slot hslot => by rw [hslots slot hslot, Function.comp_apply]
      _ = type.plan.nested.map (holder? statics) := by
          rw [hsites, ← List.forall₂_eq_eq_eq, List.forall₂_map_left_iff,
            List.forall₂_map_right_iff]
          exact hholds.imp fun _ _ => holder?_of_holds
  have hnested : ∀ check ∈ type.plan.nested, HasStatic statics check := by
    rintro check hcheck plan rfl
    obtain ⟨index, hlt, hcheck⟩ := List.getElem_of_mem hcheck
    have hsite := hholds.get (hholds.length_eq ▸ hlt) hlt
    rw [List.get_eq_getElem, List.get_eq_getElem, hcheck] at hsite
    exact hstatics _ (mem_names_of_holds h hsite)
  have hplan := heldPlan_eq type.plan [] hnested
  rw [List.append_nil, ← hholders] at hplan
  rw [addressedExpression, hplan]

/-- A schema that compiles is emitted as the module of its stored types, by addresses. -/
theorem emit_eq_addressedModule {schema : Schema} {compiled : CompiledSchema}
    (h : schema.compile.outcome = .ok compiled) {options : EmitOptions} {text : String}
    (hemit : (compiled.emit options).outcome = .ok text) :
    ∃ types, schema.store = ⟨schema.compile.events, .ok types⟩ ∧
      types.map StoredPlan.plan = compiled.plans ∧ text = addressedModule options types := by
  obtain ⟨types, kept, hstored⟩ := exists_isStored h
  refine ⟨types, hstored.store, hstored.plans, ?_⟩
  have hnames : types.map (fun type => type.plan.name) = schema.names := by
    rw [← typeNames_of_compile h, CompiledSchema.typeNames, ← hstored.plans, List.map_map]
    rfl
  have htexts : typeTexts options.runtimeCrate compiled.plans =
      types.map (addressedType options.runtimeCrate types) := by
    rw [typeTexts, ← CompiledSchema.typeNames, typeNames_of_compile h, ← hstored.plans,
      List.map_map]
    refine List.map_congr_left fun type htype => ?_
    have hexpression := hstored.addressedExpression_eq h
      (fun name hname => ⟨_, get?_staticsOf hname⟩) htype
    rw [Function.comp_apply, typeText, staticText, addressedType, hnames, hexpression]
  rw [(CompiledSchema.emit_eq_ok_iff.mp hemit).2, htexts, addressedModule]

end Schema

end RecordSchema
