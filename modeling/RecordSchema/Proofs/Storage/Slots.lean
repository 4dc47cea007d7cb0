import Mathlib.Data.List.Forall2
import RecordSchema.Proofs.PlanOf
import RecordSchema.Proofs.Storage.Store

/-!
# The slots of a plan

An object or a reference in a property tree is a site of the compiled plan, and these are all
its sites, in the order of the tree: `PropertySet.sites`. Compilation into a store gives one
slot for each, `Schema.storeProperties_sites`, and a compiled plan has one nested check for
each, `Schema.propertyPlans_hold`: the plan of the declared type for a reference, and a plan
named by the path for an inline object.
-/

namespace RecordSchema

/-! ## Sites of a property tree -/

/-- The site that a spec at a path makes in the plan of `owner`. -/
def Site.of? (owner : String) (entry : PropertyPath × PropertySpec) : Option Site :=
  match entry.2.type with
  | .object _ => some ⟨entry.1.text owner, none⟩
  | .named target => some ⟨entry.1.text owner, some target⟩
  | _ => none

/-- A reference makes a site. -/
theorem Site.of?_of_target {spec : PropertySpec} {target : String}
    (h : spec.target? = some target) (owner : String) (path : PropertyPath) :
    Site.of? owner (path, spec) = some ⟨path.text owner, some target⟩ := by
  obtain ⟨type, required, transforms⟩ := spec
  cases type <;> cases h
  rfl

/-- The sites in the plan of `owner`, whose properties are given. -/
def PropertySet.sites (owner : String) (properties : PropertySet) : List Site :=
  properties.tree.filterMap (Site.of? owner)

/-! ## Runs -/

namespace Storing

variable {α β : Type}

/-- From a store the step comes to a value and another store, and reports the events. -/
def Runs (step : Storing α) (store : Store) (events : List Event) (value : α) (store' : Store) :
    Prop :=
  step.run store = ⟨events, .ok (value, store')⟩

variable {store store' : Store} {events : List Event}

theorem runs_pure_iff {value value' : α} :
    Runs (pure value) store events value' store' ↔
      events = [] ∧ value' = value ∧ store' = store := by
  rw [Runs, StateT.run_pure, Logged.pure_def, Logged.ok]
  simp only [Logged.mk.injEq, Except.ok.injEq, Prod.mk.injEq, eq_comm]

theorem runs_pure (value : α) (store : Store) : Runs (pure value) store [] value store :=
  rfl

theorem runs_report (event : Event) (store : Store) : Runs (report event) store [event] () store :=
  rfl

theorem runs_allocate (store : Store) :
    Runs allocate store [] store.next { store with next := store.next + 1 } :=
  rfl

theorem runs_keep (name : String) (type : StoredPlan) (store : Store) :
    Runs (keep name type) store [] () { store with kept := store.kept ++ [(name, type)] } :=
  rfl

theorem runs_bind_iff {first : Storing α} {next : α → Storing β} {value : β} :
    Runs (first >>= next) store events value store' ↔
      ∃ events₁ value₁ store₁ events₂, Runs first store events₁ value₁ store₁ ∧
        Runs (next value₁) store₁ events₂ value store' ∧ events = events₁ ++ events₂ := by
  simp only [Runs, StateT.run_bind, Logged.bind_def]
  obtain ⟨reported, outcome⟩ := first.run store
  cases outcome with
  | error error => simp [Logged.bind]
  | ok result =>
      obtain ⟨value₁, store₁⟩ := result
      constructor
      · intro h
        refine ⟨reported, value₁, store₁, ((next value₁).run store₁).events, rfl, ?_, ?_⟩
        · rw [← (Logged.mk.inj h).2]
        · exact (Logged.mk.inj h).1.symm
      · rintro ⟨_, _, _, events₂, hfirst, hnext, rfl⟩
        cases hfirst
        simp only [Logged.bind, hnext]

theorem Runs.bind {first : Storing α} {next : α → Storing β} {value : α} {value' : β}
    {store'' : Store} {events' : List Event} (h : Runs first store events value store')
    (hnext : Runs (next value) store' events' value' store'') :
    Runs (first >>= next) store (events ++ events') value' store'' :=
  runs_bind_iff.mpr ⟨events, value, store', events', h, hnext, rfl⟩

/-- A step that ends with a value made from that of the step in front of it. -/
theorem Runs.bind_pure {first : Storing α} {value : α} (h : Runs first store events value store')
    (f : α → β) : Runs (first >>= fun value => pure (f value)) store events (f value) store' := by
  rw [← List.append_nil events]
  exact h.bind (runs_pure _ _)

end Storing

namespace Schema

open Storing

section Slots

variable {resolve : String → Storing StoredPlan} {owner : String}

mutual

theorem storeSpec_sites (path : PropertyPath) :
    ∀ (spec : PropertySpec) {store store' : Store} {events : List Event}
      {checks : Stored (List Check)},
      Runs (storeSpec resolve (path.text owner) spec) store events checks store' →
      checks.slots.map Slot.site = (PropertySet.specTree path spec).filterMap (Site.of? owner)
  | ⟨type, required, transforms⟩, _, _, _, _, hrun => by
      rw [storeSpec] at hrun
      rw [PropertySet.specTree, storeType_sites path type required transforms hrun]

/-- A property type is compiled with a slot for each site of it. -/
theorem storeType_sites (path : PropertyPath) :
    ∀ (type : PropertyType) (required : Bool) (transforms : List Transform)
      {store store' : Store} {events : List Event} {checks : Stored (List Check)},
      Runs (storeType resolve (path.text owner) type) store events checks store' →
      checks.slots.map Slot.site =
        ((path, ⟨type, required, transforms⟩) :: PropertySet.typeTree path type).filterMap
          (Site.of? owner)
  | .string _ _, _, _, _, _, _, _, hrun => by
      obtain ⟨-, rfl, -⟩ := runs_pure_iff.mp hrun
      rfl
  | .number _, _, _, _, _, _, _, hrun => by
      obtain ⟨-, rfl, -⟩ := runs_pure_iff.mp hrun
      rfl
  | .boolean, _, _, _, _, _, _, hrun => by
      obtain ⟨-, rfl, -⟩ := runs_pure_iff.mp hrun
      rfl
  | .object properties, _, _, _, _, _, _, hrun => by
      rw [storeType] at hrun
      obtain ⟨_, plans, _, _, hplans, hrun, -⟩ := runs_bind_iff.mp hrun
      obtain ⟨_, address, _, _, -, hrun, -⟩ := runs_bind_iff.mp hrun
      obtain ⟨-, rfl, -⟩ := runs_pure_iff.mp hrun
      rw [List.map_cons, storeProperties_sites path properties hplans]
      rfl
  | .array _ items, _, _, _, _, _, _, hrun => by
      rw [storeType] at hrun
      obtain ⟨_, _, _, _, -, hrun, -⟩ := runs_bind_iff.mp hrun
      obtain ⟨_, checks, _, _, hchecks, hrun, -⟩ := runs_bind_iff.mp hrun
      obtain ⟨-, rfl, -⟩ := runs_pure_iff.mp hrun
      rw [← PropertyPath.text_append_items] at hchecks
      exact storeSpec_sites (path ++ [.items]) items hchecks
  | .named target, _, _, _, _, _, _, hrun => by
      rw [storeType] at hrun
      obtain ⟨_, type, _, _, -, hrun, -⟩ := runs_bind_iff.mp hrun
      obtain ⟨-, rfl, -⟩ := runs_pure_iff.mp hrun
      rfl

theorem storeProperties_sites (path : PropertyPath) :
    ∀ (properties : List (String × PropertySpec)) {store store' : Store} {events : List Event}
      {plans : Stored (List PropertyPlan)},
      Runs (storeProperties resolve (path.text owner) properties) store events plans store' →
      plans.slots.map Slot.site =
        (PropertySet.treeIn path properties).filterMap (Site.of? owner)
  | [], _, _, _, _, hrun => by
      obtain ⟨-, rfl, -⟩ := runs_pure_iff.mp hrun
      rfl
  | (key, spec) :: rest, _, _, _, _, hrun => by
      rw [storeProperties] at hrun
      obtain ⟨_, checks, _, _, hchecks, hrun, -⟩ := runs_bind_iff.mp hrun
      obtain ⟨_, plans, _, _, hplans, hrun, -⟩ := runs_bind_iff.mp hrun
      obtain ⟨-, rfl, -⟩ := runs_pure_iff.mp hrun
      rw [← PropertyPath.text_append_key] at hchecks
      rw [List.map_append, PropertySet.treeIn, List.filterMap_append,
        storeSpec_sites (path ++ [.key key]) spec hchecks, storeProperties_sites path rest hplans]

end

/-- The properties of a type are compiled with a slot for each site. -/
theorem sites_of_runs {properties : PropertySet} {store store' : Store} {events : List Event}
    {plans : Stored (List PropertyPlan)}
    (hrun : Runs (storeProperties resolve owner properties) store events plans store') :
    plans.slots.map Slot.site = properties.sites owner :=
  storeProperties_sites [] properties hrun

end Slots

end Schema

/-! ## Nested checks of a plan -/

mutual

/-- The checks inside a plan that hold a plan, in depth and in order. The plans of declared
types are not entered. -/
def ObjectPlan.nested : ObjectPlan → List Check
  | ⟨_, properties⟩ => PropertyPlan.nestedIn properties

def PropertyPlan.nestedIn : List PropertyPlan → List Check
  | [] => []
  | property :: rest => PropertyPlan.nested property ++ PropertyPlan.nestedIn rest

def PropertyPlan.nested : PropertyPlan → List Check
  | ⟨_, _, _, checks⟩ => Check.nestedIn checks

def Check.nestedIn : List Check → List Check
  | [] => []
  | check :: rest => Check.nested check ++ Check.nestedIn rest

def Check.nested : Check → List Check
  | .fields plan => .fields plan :: ObjectPlan.nested plan
  | .reference plan => [.reference plan]
  | .items checks => Check.nestedIn checks
  | .kind _ => []
  | .integer => []
  | .startsWith _ => []
  | .minLength _ => []

end

namespace Check

theorem nestedIn_ofString (minLength : Option UInt64) (start : Option String) :
    nestedIn (ofString minLength start) = [] := by
  cases minLength <;> cases start <;> simp [ofString, nestedIn, nested]

theorem nestedIn_ofNumber (isInteger : Bool) : nestedIn (ofNumber isInteger) = [] := by
  cases isInteger <;> simp [ofNumber, nestedIn, nested]

theorem nestedIn_ofArray (minLength : Option UInt64) (items : List Check) :
    nestedIn (ofArray minLength items) = nestedIn items := by
  cases minLength <;> simp [ofArray, nestedIn, nested]

theorem nestedIn_ofObject (plan : ObjectPlan) :
    nestedIn (ofObject plan) = .fields plan :: plan.nested := by
  simp [ofObject, nestedIn, nested]

theorem nestedIn_ofReference (plan : ObjectPlan) :
    nestedIn (ofReference plan) = [.reference plan] := by
  simp [ofReference, nestedIn, nested]

end Check

/-- What the check of a site is: for a reference it holds the plan of the type, for an inline
object one that is named by the path. -/
def Site.Holds (plans : String → Option ObjectPlan) (site : Site) (check : Check) : Prop :=
  match site.target with
  | some target => ∃ plan, plans target = some plan ∧ check = .reference plan
  | none => ∃ properties, check = .fields ⟨site.path, properties⟩

namespace Schema

section Nested

variable {plans : String → Option ObjectPlan} {plan : String → ObjectPlan} {owner : String}

mutual

theorem specChecks_hold (path : PropertyPath) :
    ∀ spec : PropertySpec,
      (∀ target, spec.type.Mentions target → plans target = some (plan target)) →
      List.Forall₂ (Site.Holds plans) ((PropertySet.specTree path spec).filterMap (Site.of? owner))
        (Check.nestedIn (specChecks plan (path.text owner) spec))
  | ⟨type, required, transforms⟩, h => by
      rw [specChecks, PropertySet.specTree]
      exact typeChecks_hold path type required transforms h

/-- The checks of a property type hold a plan for each site of it. -/
theorem typeChecks_hold (path : PropertyPath) :
    ∀ (type : PropertyType) (required : Bool) (transforms : List Transform),
      (∀ target, type.Mentions target → plans target = some (plan target)) →
      List.Forall₂ (Site.Holds plans)
        (((path, ⟨type, required, transforms⟩) :: PropertySet.typeTree path type).filterMap
          (Site.of? owner))
        (Check.nestedIn (typeChecks plan (path.text owner) type))
  | .string minLength start, _, _, _ => by
      rw [typeChecks, Check.nestedIn_ofString]
      exact .nil
  | .number isInteger, _, _, _ => by
      rw [typeChecks, Check.nestedIn_ofNumber]
      exact .nil
  | .boolean, _, _, _ => by
      rw [typeChecks, Check.nestedIn, Check.nested]
      exact .nil
  | .object properties, _, _, h => by
      rw [typeChecks, Check.nestedIn_ofObject, ObjectPlan.nested]
      refine .cons ⟨_, rfl⟩ (propertyPlans_hold path properties fun target hmentions => ?_)
      exact h target (PropertyType.mentions_object_iff.mpr hmentions)
  | .array minLength items, _, _, h => by
      rw [typeChecks, Check.nestedIn_ofArray, ← PropertyPath.text_append_items]
      exact specChecks_hold (path ++ [.items]) items fun target hmentions =>
        h target (.array hmentions)
  | .named target, _, _, h => by
      rw [typeChecks, Check.nestedIn_ofReference]
      exact .cons ⟨plan target, h target .named, rfl⟩ .nil

theorem propertyPlans_hold (path : PropertyPath) :
    ∀ properties : List (String × PropertySpec),
      (∀ target, PropertySet.Mentions properties target → plans target = some (plan target)) →
      List.Forall₂ (Site.Holds plans)
        ((PropertySet.treeIn path properties).filterMap (Site.of? owner))
        (PropertyPlan.nestedIn (propertyPlans plan (path.text owner) properties))
  | [], _ => .nil
  | (key, spec) :: rest, h => by
      rw [PropertySet.treeIn, List.filterMap_append, propertyPlans, PropertyPlan.nestedIn,
        PropertyPlan.nested, ← PropertyPath.text_append_key]
      refine List.rel_append ?_ ?_
      · exact specChecks_hold (path ++ [.key key]) spec fun target hmentions =>
          h target (PropertySet.mentions_cons.mpr (.inl hmentions))
      · exact propertyPlans_hold path rest fun target hmentions =>
          h target (PropertySet.mentions_cons.mpr (.inr hmentions))

end

end Nested

/-- The plan of a type holds the plan of the type at each reference, and a plan named by its
path at each inline object. -/
theorem planOf_holds {schema : Schema} (hclosed : schema.Closed) (hacyclic : schema.Acyclic)
    {plans : String → Option ObjectPlan} {owner : String} {properties : PropertySet}
    (hget : schema.get? owner = some properties)
    (h : ∀ target, schema.RefersTo owner target → plans target = some (schema.planOf target)) :
    List.Forall₂ (Site.Holds plans) (properties.sites owner) (schema.planOf owner).nested := by
  rw [planOf_eq hclosed hacyclic hget, ObjectPlan.nested]
  exact propertyPlans_hold [] properties fun target hmentions =>
    h target ⟨properties, hget, hmentions⟩

end Schema

end RecordSchema
