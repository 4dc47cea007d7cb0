import Mathlib.Data.List.Nodup
import Mathlib.Data.List.Perm.Basic
import RecordSchema.Proofs.Storage.Slots

/-!
# The store while a schema is compiled

A type is kept when it is finished, so the store grows at its end only and every type in it
refers to types in front of it: `KeptPlans`. A step of compilation adds types, reports just
these as compiled, and hands out the next addresses, each of them once, to the plans of these
types and to the inline objects of what it is compiling. This is `Grows`, which composes along
the steps.

What keeps a type from being added twice is its rank: while a type is compiled, only types of
lower rank are added.

Main statement: `Schema.storeTypePlans_grows`, for a closed and acyclic schema.
-/

namespace RecordSchema

open Storing

/-! ## Addresses -/

/-- The addresses of the plans of inline objects. -/
def inlineAddresses (slots : List Slot) : List Nat :=
  (slots.filter fun slot => slot.site.target.isNone).map Slot.address

/-- The addresses of the plans that are made when a type is compiled: its own, and those of
its inline objects. -/
def StoredPlan.addresses (type : StoredPlan) : List Nat :=
  type.address :: inlineAddresses type.slots

/-- The addresses of all types that are kept. -/
def keptAddresses (kept : Entries StoredPlan) : List Nat :=
  kept.flatMap fun entry => entry.2.addresses

theorem inlineAddresses_append (slots slots' : List Slot) :
    inlineAddresses (slots ++ slots') = inlineAddresses slots ++ inlineAddresses slots' := by
  rw [inlineAddresses, List.filter_append, List.map_append]
  rfl

theorem keptAddresses_append (kept kept' : Entries StoredPlan) :
    keptAddresses (kept ++ kept') = keptAddresses kept ++ keptAddresses kept' :=
  List.flatMap_append

theorem mem_inlineAddresses {slots : List Slot} {slot : Slot} (hslot : slot ∈ slots)
    (hinline : slot.site.target = none) : slot.address ∈ inlineAddresses slots := by
  refine List.mem_map_of_mem (List.mem_filter.mpr ⟨hslot, ?_⟩)
  rw [hinline]
  rfl

/-! ## Types that are kept -/

/-- Every slot of a reference has the address under which its type is kept. -/
def Fills (kept : Entries StoredPlan) (slots : List Slot) : Prop :=
  ∀ slot ∈ slots, ∀ target, slot.site.target = some target →
    ∃ type, kept.get? target = some type ∧ slot.address = type.address

/-- Types in the order in which they were compiled: each once, with a slot for each of its
sites, and with its references filled by the types in front of it. -/
inductive KeptPlans (schema : Schema) : Entries StoredPlan → Prop
  | nil : KeptPlans schema []
  | append {kept : Entries StoredPlan} {name : String} {type : StoredPlan}
      {properties : PropertySet} :
      KeptPlans schema kept → name ∉ kept.names → schema.get? name = some properties →
      type.plan.name = name → type.slots.map Slot.site = properties.sites name →
      Fills kept type.slots → KeptPlans schema (kept ++ [(name, type)])

theorem get?_append_of_some {kept : Entries StoredPlan} {name : String} {type : StoredPlan}
    (h : kept.get? name = some type) (added : Entries StoredPlan) :
    Entries.get? (kept ++ added) name = some type := by
  rw [Entries.get?_append, h, Option.some_or]

theorem Fills.append {kept : Entries StoredPlan} {slots : List Slot} (h : Fills kept slots)
    (added : Entries StoredPlan) : Fills (kept ++ added) slots := by
  intro slot hslot target htarget
  obtain ⟨type, hget, haddress⟩ := h slot hslot target htarget
  exact ⟨type, get?_append_of_some hget added, haddress⟩

/-! ## Growing -/

/-- Whether the event tells that a type has been compiled. -/
def Event.isCompiledType : Event → Bool
  | compiledType .. => true
  | _ => false

/-- The event that tells that a type has been compiled. -/
def Schema.compiledEvent (schema : Schema) (name : String) : Event :=
  .compiledType name ((schema.get? name).getD []).length

/-- From `store` to `store'` the types `added` have been compiled, all of them of a rank below
`limit`, and `events` tell so. The next `count` addresses have gone to them and to `own`. -/
structure GrowsBy (schema : Schema) (limit : Nat) (store store' : Store) (own : List Nat)
    (events : List Event) (added : Entries StoredPlan) (count : Nat) : Prop where
  keptPlans : KeptPlans schema store'.kept
  kept : store'.kept = store.kept ++ added
  rank_lt : ∀ name ∈ added.names, Schema.rank schema name < limit
  events : events.filter Event.isCompiledType = added.names.map schema.compiledEvent
  next : store'.next = store.next + count
  addresses : (own ++ keptAddresses added).Perm (List.range' store.next count)

/-- From `store` to `store'` types of a rank below `limit` have been compiled. -/
def Grows (schema : Schema) (limit : Nat) (store store' : Store) (own : List Nat)
    (events : List Event) : Prop :=
  ∃ added count, GrowsBy schema limit store store' own events added count

section Grows

variable {schema : Schema} {limit : Nat} {store store' : Store} {own : List Nat}
  {events : List Event}

theorem Grows.keptPlans (h : Grows schema limit store store' own events) :
    KeptPlans schema store'.kept := by
  obtain ⟨_, _, hgrows⟩ := h
  exact hgrows.keptPlans

theorem Grows.fills {slots : List Slot} (h : Grows schema limit store store' own events)
    (hfills : Fills store.kept slots) : Fills store'.kept slots := by
  obtain ⟨added, _, hgrows⟩ := h
  rw [hgrows.kept]
  exact hfills.append added

theorem Grows.get? {name : String} {type : StoredPlan}
    (h : Grows schema limit store store' own events) (hget : store.kept.get? name = some type) :
    store'.kept.get? name = some type := by
  obtain ⟨added, _, hgrows⟩ := h
  rw [hgrows.kept]
  exact get?_append_of_some hget added

/-- Nothing is compiled where no event tells so. -/
theorem grows_of_quiet (h : KeptPlans schema store.kept)
    (hquiet : events.filter Event.isCompiledType = []) :
    Grows schema limit store store [] events := by
  refine ⟨[], 0, h, (List.append_nil _).symm, ?_, hquiet, rfl, .refl _⟩
  intro name hname
  cases hname

theorem Grows.mono {limit' : Nat} (h : Grows schema limit store store' own events)
    (hle : limit ≤ limit') : Grows schema limit' store store' own events := by
  obtain ⟨added, count, hgrows⟩ := h
  exact ⟨added, count, { hgrows with
    rank_lt := fun name hname => lt_of_lt_of_le (hgrows.rank_lt name hname) hle }⟩

theorem Grows.trans {store'' : Store} {own' : List Nat} {events' : List Event}
    (h : Grows schema limit store store' own events)
    (h' : Grows schema limit store' store'' own' events') :
    Grows schema limit store store'' (own ++ own') (events ++ events') := by
  obtain ⟨added, count, hgrows⟩ := h
  obtain ⟨added', count', hgrows'⟩ := h'
  refine ⟨added ++ added', count + count', hgrows'.keptPlans, ?_, ?_, ?_, ?_, ?_⟩
  · rw [hgrows'.kept, hgrows.kept, List.append_assoc]
  · intro name hname
    rw [Entries.names_append] at hname
    rcases List.mem_append.mp hname with hname | hname
    · exact hgrows.rank_lt name hname
    · exact hgrows'.rank_lt name hname
  · rw [List.filter_append, hgrows.events, hgrows'.events, Entries.names_append, List.map_append]
  · rw [hgrows'.next, hgrows.next, Nat.add_assoc]
  · have haddresses' := hgrows'.addresses
    rw [hgrows.next] at haddresses'
    rw [← List.range'_append_1, keptAddresses_append]
    have hboth := hgrows.addresses.append haddresses'
    refine List.Perm.trans ?_ hboth
    rw [List.perm_iff_count]
    intro address
    simp only [List.count_append]
    omega

/-- The next address goes to an inline object. -/
theorem Grows.allocate (h : Grows schema limit store store' own events) :
    Grows schema limit store { store' with next := store'.next + 1 } (store'.next :: own)
      events := by
  obtain ⟨added, count, hgrows⟩ := h
  refine ⟨added, count + 1, { hgrows with next := ?_, addresses := ?_ }⟩
  · rw [hgrows.next, Nat.add_assoc]
  · rw [List.range'_concat, hgrows.next, Nat.one_mul, List.cons_append]
    exact (hgrows.addresses.cons _).trans (List.perm_append_singleton _ _).symm

end Grows

/-! ## Steps -/

/-- From every store the step comes to a value and the store grows; `own` are the addresses
that the value has been given, and `holds` relates it to the types that are kept then. -/
def Achieves {α : Type} (schema : Schema) (limit : Nat) (own : α → List Nat)
    (holds : α → Entries StoredPlan → Prop) (step : Storing α) : Prop :=
  ∀ store, KeptPlans schema store.kept → ∃ events value store',
    Runs step store events value store' ∧ Grows schema limit store store' (own value) events ∧
      holds value store'.kept

/-- The step compiles the type, or takes it from those that are kept. -/
def AchievesType (schema : Schema) (limit : Nat) (name : String) : Storing StoredPlan → Prop :=
  Achieves schema limit (fun _ => []) fun type kept => kept.get? name = some type

/-- The step compiles a part of a type, and its references are filled. -/
def AchievesPart {α : Type} (schema : Schema) (limit : Nat) : Storing (Stored α) → Prop :=
  Achieves schema limit (fun part => inlineAddresses part.slots) fun part kept =>
    Fills kept part.slots

theorem achievesPart_pure {α : Type} {schema : Schema} {limit : Nat} (value : α) :
    AchievesPart schema limit (pure ⟨value, []⟩) := by
  intro store hkept
  refine ⟨_, _, _, runs_pure _ _, grows_of_quiet hkept rfl, ?_⟩
  intro slot hslot
  cases hslot

/-- Reporting transforms that have no effect compiles nothing. -/
theorem exists_runs_reportUnless {schema : Schema} {store : Store} (limit : Nat) (empty : Bool)
    (path : String) (hkept : KeptPlans schema store.kept) :
    ∃ events, Runs (reportUnless empty (.ignoredItemTransform path)) store events () store ∧
      Grows schema limit store store [] events := by
  cases empty with
  | true => exact ⟨[], rfl, grows_of_quiet hkept rfl⟩
  | false => exact ⟨[.ignoredItemTransform path], rfl, grows_of_quiet hkept rfl⟩

namespace Schema

section Tree

variable {schema : Schema} {limit : Nat} {resolve : String → Storing StoredPlan}

mutual

theorem storeSpec_achieves (path : String) :
    ∀ spec : PropertySpec,
      (∀ target, spec.type.Mentions target → AchievesType schema limit target (resolve target)) →
      AchievesPart schema limit (storeSpec resolve path spec)
  | ⟨type, _, _⟩, h => by
      rw [storeSpec]
      exact storeType_achieves path type h

/-- A property type is compiled where the types that occur in it are. -/
theorem storeType_achieves (path : String) :
    ∀ type : PropertyType,
      (∀ target, type.Mentions target → AchievesType schema limit target (resolve target)) →
      AchievesPart schema limit (storeType resolve path type)
  | .string _ _, _ => achievesPart_pure _
  | .number _, _ => achievesPart_pure _
  | .boolean, _ => achievesPart_pure _
  | .object properties, h => by
      intro store hkept
      obtain ⟨events, plans, store', hrun, hgrows, hfills⟩ :=
        storeProperties_achieves path properties
          (fun target hmentions => h target (PropertyType.mentions_object_iff.mpr hmentions))
          store hkept
      refine ⟨events, ⟨Check.ofObject ⟨path, plans.value⟩,
        ⟨⟨path, none⟩, store'.next⟩ :: plans.slots⟩, { store' with next := store'.next + 1 },
        ?_, hgrows.allocate, ?_⟩
      · rw [storeType, ← List.append_nil events]
        exact hrun.bind ((runs_allocate store').bind_pure _)
      · intro slot hslot target htarget
        rcases List.mem_cons.mp hslot with rfl | hslot
        · cases htarget
        · exact hfills slot hslot target htarget
  | .array minLength items, h => by
      intro store hkept
      obtain ⟨events, checks, store', hrun, hgrows, hfills⟩ := storeSpec_achieves (path ++ "[]")
        items (fun target hmentions => h target (.array hmentions)) store hkept
      obtain ⟨ignored, hreport, hquiet⟩ := exists_runs_reportUnless limit
        items.transforms.isEmpty path hkept
      refine ⟨ignored ++ events, ⟨Check.ofArray minLength checks.value, checks.slots⟩, store', ?_,
        hquiet.trans hgrows, hfills⟩
      rw [storeType]
      exact hreport.bind (hrun.bind_pure _)
  | .named target, h => by
      intro store hkept
      obtain ⟨events, type, store', hrun, hgrows, hget⟩ := h target .named store hkept
      refine ⟨events, ⟨Check.ofReference type.plan, [⟨⟨path, some target⟩, type.address⟩]⟩, store',
        ?_, hgrows, ?_⟩
      · rw [storeType]
        exact hrun.bind_pure _
      · intro slot hslot name hname
        cases List.mem_singleton.mp hslot
        cases hname
        exact ⟨type, hget, rfl⟩

theorem storeProperties_achieves (path : String) :
    ∀ properties : List (String × PropertySpec),
      (∀ target, PropertySet.Mentions properties target →
        AchievesType schema limit target (resolve target)) →
      AchievesPart schema limit (storeProperties resolve path properties)
  | [], _ => achievesPart_pure _
  | (key, spec) :: rest, h => by
      intro store hkept
      obtain ⟨events, checks, store', hrun, hgrows, hfills⟩ :=
        storeSpec_achieves (path ++ "." ++ key) spec
          (fun target hmentions => h target (PropertySet.mentions_cons.mpr (.inl hmentions)))
          store hkept
      obtain ⟨events', plans, store'', hrun', hgrows', hfills'⟩ :=
        storeProperties_achieves path rest
          (fun target hmentions => h target (PropertySet.mentions_cons.mpr (.inr hmentions)))
          store' hgrows.keptPlans
      refine ⟨events ++ events', ⟨⟨key, spec.required, spec.transforms, checks.value⟩ ::
        plans.value, checks.slots ++ plans.slots⟩, store'', ?_, ?_, ?_⟩
      · rw [storeProperties]
        exact hrun.bind (hrun'.bind_pure _)
      · have hboth := hgrows.trans hgrows'
        rwa [← inlineAddresses_append] at hboth
      · intro slot hslot
        rcases List.mem_append.mp hslot with hslot | hslot
        · exact hgrows'.fills hfills slot hslot
        · exact hfills' slot hslot

end

end Tree

/-! ## Types -/

/-- A type is not added while types of lower rank are compiled. -/
theorem get?_eq_none_of_grows {schema : Schema} {name : String} {store store' : Store}
    {own : List Nat} {events : List Event}
    (hgrows : Grows schema (rank schema name) store store' own events)
    (hfree : store.kept.get? name = none) : store'.kept.get? name = none := by
  obtain ⟨added, count, hgrows⟩ := hgrows
  rw [Entries.get?_eq_none_iff] at hfree ⊢
  rw [hgrows.kept, Entries.names_append, List.mem_append, not_or]
  exact ⟨hfree, fun hmem => (hgrows.rank_lt name hmem).false⟩

/-- The type that has been compiled is kept, and the next address goes to its plan. -/
theorem grows_keep {schema : Schema} {name : String} {properties : PropertySet}
    (hget : schema.get? name = some properties) {store store' : Store} {events : List Event}
    {plans : Stored (List PropertyPlan)} (hfree : store.kept.get? name = none)
    (hgrows : Grows schema (rank schema name) store store' (inlineAddresses plans.slots) events)
    (hsites : plans.slots.map Slot.site = properties.sites name)
    (hfills : Fills store'.kept plans.slots) :
    Grows schema (rank schema name + 1) store
      ⟨store'.next + 1, store'.kept ++ [(name, .ofProperties name plans store'.next)]⟩ []
      (events ++ [.compiledType name properties.length]) := by
  have hfresh := Entries.get?_eq_none_iff.mp (get?_eq_none_of_grows hgrows hfree)
  obtain ⟨added, count, hgrows⟩ := hgrows
  refine ⟨added ++ [(name, .ofProperties name plans store'.next)], count + 1,
    hgrows.keptPlans.append hfresh hget rfl hsites hfills, ?_, ?_, ?_, ?_, ?_⟩
  · rw [hgrows.kept, List.append_assoc]
  · intro other hother
    rw [Entries.names_append] at hother
    rcases List.mem_append.mp hother with hother | hother
    · exact Nat.lt_succ_of_lt (hgrows.rank_lt other hother)
    · rw [List.mem_singleton.mp hother]
      exact Nat.lt_succ_self _
  · have hevent : schema.compiledEvent name = .compiledType name properties.length := by
      rw [compiledEvent, hget]
      rfl
    rw [List.filter_append, hgrows.events, Entries.names_append, List.map_append]
    change _ = _ ++ [schema.compiledEvent name]
    rw [hevent]
    rfl
  · rw [hgrows.next, Nat.add_assoc]
  · rw [List.range'_concat, Nat.one_mul, ← hgrows.next, keptAddresses_append]
    have haddresses := hgrows.addresses
    rw [List.perm_iff_count] at haddresses ⊢
    intro address
    have hcount := haddresses address
    simp only [keptAddresses, StoredPlan.addresses, StoredPlan.ofProperties, List.flatMap_cons,
      List.flatMap_nil, List.count_append, List.count_cons, List.count_nil, List.append_nil,
      List.nil_append] at hcount ⊢
    omega

/-- Compiling a type adds it to those that are kept, if the bound on the types on the way is
above its rank. -/
theorem storeTypePlan_achieves {schema : Schema} (hclosed : schema.Closed)
    (hacyclic : schema.Acyclic) {fuel : Nat} {name : String} (hname : name ∈ schema.names)
    (hfuel : rank schema name < fuel) :
    AchievesType schema (rank schema name + 1) name (storeTypePlan schema fuel name) := by
  induction fuel generalizing name with
  | zero => omega
  | succ fuel ih =>
      intro store hkept
      obtain ⟨properties, hget⟩ := Entries.exists_get?_of_mem_names hname
      cases hfree : store.kept.get? name with
      | some type =>
          refine ⟨[], type, store, ?_, grows_of_quiet hkept rfl, hfree⟩
          rw [storeTypePlan]
          refine runs_bind_iff.mpr ⟨[], store, store, [], rfl, ?_, rfl⟩
          simp only [hfree]
          exact runs_pure _ _
      | none =>
          have hproperties : AchievesPart schema (rank schema name)
              (storeProperties (storeTypePlan schema fuel) name properties) := by
            apply storeProperties_achieves
            intro target hmentions store hkept
            have hrefers : schema.RefersTo name target := ⟨properties, hget, hmentions⟩
            have hlt := rank_lt_of_refersTo hclosed hacyclic hrefers
            obtain ⟨events, type, store', hrun, hgrows, htype⟩ :=
              ih (hclosed.target_mem_names hrefers) (by omega) store hkept
            exact ⟨events, type, store', hrun, hgrows.mono hlt, htype⟩
          obtain ⟨events, plans, store', hrun, hgrows, hfills⟩ := hproperties store hkept
          have hkeep := grows_keep hget hfree hgrows (sites_of_runs hrun) hfills
          refine ⟨_, .ofProperties name plans store'.next, _, ?_, hkeep, ?_⟩
          · rw [storeTypePlan]
            refine runs_bind_iff.mpr ⟨[], store, store, _, rfl, ?_, rfl⟩
            simp only [hfree, hget]
            refine hrun.bind ((runs_allocate store').bind ?_)
            exact (runs_report _ _).bind ((runs_keep _ _ _).bind_pure _)
          · change Entries.get? (store'.kept ++ _) name = _
            rw [Entries.get?_append, get?_eq_none_of_grows hgrows hfree, Option.none_or,
              Entries.get?_cons, if_pos rfl]

/-- Compiling types adds those of them that are not kept already, and gives the plans of all
of them as they are kept. -/
theorem storeTypePlans_grows {schema : Schema} (hclosed : schema.Closed)
    (hacyclic : schema.Acyclic) (names : List String) (hnames : ∀ name ∈ names, name ∈ schema.names)
    (store : Store) (hkept : KeptPlans schema store.kept) :
    ∃ events types store', Runs (storeTypePlans schema names) store events types store' ∧
      Grows schema schema.length store store' [] events ∧
      List.Forall₂ (fun name type => store'.kept.get? name = some type) names types := by
  induction names generalizing store with
  | nil =>
      exact ⟨[], [], store, runs_pure _ _, grows_of_quiet hkept rfl, .nil⟩
  | cons name rest ih =>
      obtain ⟨hname, hrest⟩ := List.forall_mem_cons.mp hnames
      have hrank := rank_lt_length hacyclic hname
      obtain ⟨events, type, store', hrun, hgrows, htype⟩ :=
        storeTypePlan_achieves hclosed hacyclic hname hrank store hkept
      obtain ⟨events', types, store'', hrun', hgrows', htypes⟩ := ih hrest store' hgrows.keptPlans
      refine ⟨events ++ events', type :: types, store'', ?_, (hgrows.mono hrank).trans hgrows',
        .cons (hgrows'.get? htype) htypes⟩
      rw [storeTypePlans]
      exact hrun.bind (hrun'.bind_pure _)

end Schema

end RecordSchema
