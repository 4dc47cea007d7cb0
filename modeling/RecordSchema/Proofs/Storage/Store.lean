import RecordSchema.Plan.Compile
import RecordSchema.Proofs.Occurrence

/-!
# Compiling into a store

Plans are values, and a value does not tell whether two places hold one plan or two equal
ones. `Schema.store` compiles a schema into a store, where every plan that is made gets an
address of its own and a kept plan is handed out with the address that it has. A compiled
plan comes with its slots, which are the places in it that hold a plan, in depth and in order;
plans of declared types are not entered.

That this is compilation and nothing else is `Schema.compile_eq_store`: without the addresses
it gives the same plans, errors and events.
-/

namespace RecordSchema

/-- A place in a plan that holds the plan of an object: the path under which the object is
compiled and, if it is one of a declared type, the name of the type. -/
structure Site where
  path : String
  target : Option String
  deriving DecidableEq

/-- A site with the address of the plan that it holds. -/
structure Slot where
  site : Site
  address : Nat

/-- What has been compiled, with its slots. -/
structure Stored (α : Type) where
  value : α
  slots : List Slot

/-- The plan of a declared type in a store. -/
structure StoredPlan where
  plan : ObjectPlan
  slots : List Slot
  address : Nat

/-- The plan of a type, put together from those of its properties. -/
def StoredPlan.ofProperties (name : String) (plans : Stored (List PropertyPlan)) (address : Nat) :
    StoredPlan :=
  ⟨⟨name, plans.value⟩, plans.slots, address⟩

/-- The plans of the types compiled so far. The addresses below `next` are taken. -/
structure Store where
  next : Nat
  kept : Entries StoredPlan

/-- The plans that are kept, without their addresses. -/
def Store.plans (store : Store) : Entries ObjectPlan :=
  store.kept.map fun (name, type) => (name, type.plan)

/-- A step of compilation into a store. -/
abbrev Storing := StateT Store (Logged SchemaError)

namespace Storing

/-- Reports an event. -/
def report (event : Event) : Storing Unit :=
  StateT.lift (Logged.report event)

/-- Reports an event if the condition does not hold. -/
def reportUnless (holds : Bool) (event : Event) : Storing Unit :=
  if holds then pure () else report event

/-- Fails. -/
def fail {α : Type} (error : SchemaError) : Storing α :=
  StateT.lift (Logged.fail error)

/-- An address that is not taken yet. -/
def allocate : Storing Nat :=
  modifyGet fun store => (store.next, { store with next := store.next + 1 })

/-- Keeps the plan of a type. -/
def keep (name : String) (type : StoredPlan) : Storing Unit :=
  modify fun store => { store with kept := store.kept ++ [(name, type)] }

end Storing

namespace Schema

mutual

/-- Compiles a property at a path; `resolve` gives the plan of a type. -/
def storeSpec (resolve : String → Storing StoredPlan) (path : String) :
    PropertySpec → Storing (Stored (List Check))
  | ⟨type, _, _⟩ => storeType resolve path type

/-- Compiles a property type at a path. An inline object gets a plan of its own, behind those
inside of it. -/
def storeType (resolve : String → Storing StoredPlan) (path : String) :
    PropertyType → Storing (Stored (List Check))
  | .string minLength startsWith => return ⟨Check.ofString minLength startsWith, []⟩
  | .number isInteger => return ⟨Check.ofNumber isInteger, []⟩
  | .boolean => return ⟨[.kind .boolean], []⟩
  | .object properties => do
    let plans ← storeProperties resolve path properties
    let address ← Storing.allocate
    return ⟨Check.ofObject ⟨path, plans.value⟩, ⟨⟨path, none⟩, address⟩ :: plans.slots⟩
  | .array minLength items => do
    Storing.reportUnless items.transforms.isEmpty (.ignoredItemTransform path)
    let checks ← storeSpec resolve (path ++ "[]") items
    return ⟨Check.ofArray minLength checks.value, checks.slots⟩
  | .named target => do
    let type ← resolve target
    return ⟨Check.ofReference type.plan, [⟨⟨path, some target⟩, type.address⟩]⟩

/-- Compiles the properties of an object at a path. -/
def storeProperties (resolve : String → Storing StoredPlan) (path : String) :
    List (String × PropertySpec) → Storing (Stored (List PropertyPlan))
  | [] => return ⟨[], []⟩
  | (key, spec) :: rest => do
    let checks ← storeSpec resolve (path ++ "." ++ key) spec
    let plans ← storeProperties resolve path rest
    return ⟨⟨key, spec.required, spec.transforms, checks.value⟩ :: plans.value,
      checks.slots ++ plans.slots⟩

end

/-- Compiles a type, or takes its plan from those that are kept. -/
def storeTypePlan (schema : Schema) : Nat → String → Storing StoredPlan
  | 0, name => Storing.fail (.malformed (.undeclaredType name))
  | fuel + 1, name => do
    let store ← get
    match store.kept.get? name with
    | some type => return type
    | none =>
      match schema.get? name with
      | none => Storing.fail (.malformed (.undeclaredType name))
      | some properties => do
        let plans ← storeProperties (storeTypePlan schema fuel) name properties
        let address ← Storing.allocate
        Storing.report (.compiledType name properties.length)
        Storing.keep name (.ofProperties name plans address)
        return .ofProperties name plans address

/-- Compiles the given types. -/
def storeTypePlans (schema : Schema) : List String → Storing (List StoredPlan)
  | [] => return []
  | name :: rest => do
    let type ← storeTypePlan schema schema.length name
    let types ← storeTypePlans schema rest
    return type :: types

/-- The plans of all types of a schema, compiled into an empty store. -/
def store (schema : Schema) : Logged SchemaError (List StoredPlan) := do
  Logged.ofExcept schema.checkReferences
  let (types, _) ← (storeTypePlans schema schema.names).run ⟨0, []⟩
  Logged.report (.compiledSchema types.length)
  return types

end Schema

/-! ## Without addresses -/

/-- The computation with its result changed. -/
def Logged.mapResult {ε α β : Type} (f : α → β) (logged : Logged ε α) : Logged ε β :=
  ⟨logged.events, logged.outcome.map f⟩

theorem Logged.mapResult_bind {ε α β γ δ : Type} {f : α → γ} {g : β → δ} {first : Logged ε α}
    {next : α → Logged ε β} {next' : γ → Logged ε δ}
    (h : ∀ value, next' (f value) = (next value).mapResult g) :
    (first.mapResult f).bind next' = (first.bind next).mapResult g := by
  obtain ⟨events, outcome⟩ := first
  cases outcome with
  | error error => rfl
  | ok value =>
      rw [Logged.mapResult, Logged.bind, Logged.bind]
      simp only [Except.map, h]
      rfl

namespace Storing

variable {α β γ δ : Type} {f : α → γ} {g : β → δ}

/-- Without addresses, the step is the given step of compilation: `f` takes them from its
value. -/
def Forgets (f : α → γ) (storing : Storing α) (compiling : Compiling γ) : Prop :=
  ∀ store : Store, compiling.run store.plans =
    (storing.run store).mapResult fun (value, store') => (f value, store'.plans)

theorem forgets_pure {value : α} {value' : γ} (h : f value = value') :
    Forgets f (pure value) (pure value') := by
  intro store
  rw [← h]
  rfl

theorem forgets_report (event : Event) : Forgets id (report event) (Compiling.report event) :=
  fun _ => rfl

theorem forgets_fail (error : SchemaError) :
    Forgets f (fail error) (Compiling.fail error) :=
  fun _ => rfl

theorem Forgets.bind {first : Storing α} {first' : Compiling γ} {next : α → Storing β}
    {next' : γ → Compiling δ} (h : Forgets f first first')
    (hnext : ∀ value, Forgets g (next value) (next' (f value))) :
    Forgets g (first >>= next) (first' >>= next') := by
  intro store
  rw [StateT.run_bind, StateT.run_bind, h store]
  exact Logged.mapResult_bind fun (value, store') => hnext value store'

/-- Taking an address is not seen. -/
theorem Forgets.allocate {next : Nat → Storing β} {compiling : Compiling δ}
    (h : ∀ address, Forgets g (next address) compiling) :
    Forgets g (Storing.allocate >>= next) compiling := by
  intro store
  have hrun : (Storing.allocate >>= next).run store =
      (next store.next).run { store with next := store.next + 1 } := by
    rw [StateT.run_bind]
    exact Logged.ok_bind _ _
  rw [hrun]
  exact h store.next { store with next := store.next + 1 }

theorem forgets_keep (name : String) (type : StoredPlan) :
    Forgets id (keep name type) (modify fun kept => kept ++ [(name, type.plan)]) := by
  intro store
  have hplans : (Store.mk store.next (store.kept ++ [(name, type)])).plans =
      store.plans ++ [(name, type.plan)] := List.map_append
  change Logged.ok ((), store.plans ++ [(name, type.plan)]) = _
  rw [← hplans]
  rfl

end Storing

namespace Schema

open Storing

section Tree

variable {resolve : String → Storing StoredPlan} {resolve' : String → Compiling ObjectPlan}

mutual

theorem storeSpec_forgets
    (h : ∀ target, Forgets StoredPlan.plan (resolve target) (resolve' target)) (path : String) :
    ∀ spec : PropertySpec,
      Forgets Stored.value (storeSpec resolve path spec) (compileSpec resolve' path spec)
  | ⟨type, _, _⟩ => by
      rw [storeSpec, compileSpec]
      exact storeType_forgets h path type

theorem storeType_forgets
    (h : ∀ target, Forgets StoredPlan.plan (resolve target) (resolve' target)) (path : String) :
    ∀ type : PropertyType,
      Forgets Stored.value (storeType resolve path type) (compileType resolve' path type)
  | .string _ _ => forgets_pure rfl
  | .number _ => forgets_pure rfl
  | .boolean => forgets_pure rfl
  | .object properties => by
      rw [storeType, compileType]
      refine (storeProperties_forgets h path properties).bind fun plans => ?_
      exact .allocate fun address => forgets_pure rfl
  | .array minLength items => by
      rw [storeType, compileType]
      have hchecks : Forgets Stored.value
          (storeSpec resolve (path ++ "[]") items >>= fun checks =>
            pure ⟨Check.ofArray minLength checks.value, checks.slots⟩)
          (compileSpec resolve' (path ++ "[]") items >>= fun checks =>
            pure (Check.ofArray minLength checks)) :=
        (storeSpec_forgets h (path ++ "[]") items).bind fun checks => forgets_pure rfl
      cases hempty : items.transforms.isEmpty with
      | true => exact hchecks
      | false => exact (forgets_report _).bind fun _ => hchecks
  | .named target => by
      rw [storeType, compileType]
      exact (h target).bind fun type => forgets_pure rfl

/-- Where types are compiled without their addresses, so are properties that refer to them. -/
theorem storeProperties_forgets
    (h : ∀ target, Forgets StoredPlan.plan (resolve target) (resolve' target)) (path : String) :
    ∀ properties : List (String × PropertySpec),
      Forgets Stored.value (storeProperties resolve path properties)
        (compileProperties resolve' path properties)
  | [] => forgets_pure rfl
  | (key, spec) :: rest => by
      rw [storeProperties, compileProperties]
      refine (storeSpec_forgets h (path ++ "." ++ key) spec).bind fun checks => ?_
      exact (storeProperties_forgets h path rest).bind fun plans => forgets_pure rfl

end

end Tree

theorem storeTypePlan_forgets (schema : Schema) (fuel : Nat) (name : String) :
    Forgets StoredPlan.plan (storeTypePlan schema fuel name) (typePlan schema fuel name) := by
  induction fuel generalizing name with
  | zero => exact forgets_fail _
  | succ fuel ih =>
      intro store
      rw [storeTypePlan, typePlan, StateT.run_bind, StateT.run_bind, StateT.run_get,
        StateT.run_get, Logged.pure_def, Logged.pure_def, Logged.bind_def, Logged.bind_def,
        Logged.ok_bind, Logged.ok_bind]
      have hkept : store.plans.get? name = (store.kept.get? name).map StoredPlan.plan :=
        Entries.get?_map StoredPlan.plan store.kept name
      cases hget : store.kept.get? name with
      | some type =>
          rw [hget] at hkept
          rw [hkept]
          rfl
      | none =>
          rw [hget] at hkept
          rw [hkept]
          cases schema.get? name with
          | none => rfl
          | some properties =>
              have hplans := storeProperties_forgets ih name properties
              refine hplans.bind (fun plans => .allocate fun address => ?_) store
              refine (forgets_report _).bind fun _ => ?_
              exact (forgets_keep name (.ofProperties name plans address)).bind
                fun _ => forgets_pure rfl

theorem storeTypePlans_forgets (schema : Schema) (names : List String) :
    Forgets (List.map StoredPlan.plan) (storeTypePlans schema names) (typePlans schema names) := by
  induction names with
  | nil => exact forgets_pure rfl
  | cons name rest ih =>
      rw [storeTypePlans, typePlans]
      refine (storeTypePlan_forgets schema schema.length name).bind fun type => ?_
      exact ih.bind fun types => forgets_pure rfl

/-- Compiling a schema is compiling it into a store and forgetting the addresses. -/
theorem compile_eq_store (schema : Schema) :
    schema.compile = schema.store.mapResult fun types => ⟨types.map StoredPlan.plan⟩ := by
  rw [compile, store]
  cases schema.checkReferences with
  | error error => rfl
  | ok _ =>
      have hplans : (typePlans schema schema.names).run [] = _ :=
        storeTypePlans_forgets schema schema.names ⟨0, []⟩
      simp only [Logged.ofExcept]
      change (Logged.ok ()).bind _ = ((Logged.ok ()).bind _).mapResult _
      rw [Logged.ok_bind, Logged.ok_bind, hplans]
      refine Logged.mapResult_bind fun (types, store') => ?_
      simp only [List.length_map]
      rfl

end Schema

end RecordSchema
