import RecordSchema.Proofs.Compile
import RecordSchema.Proofs.Storage.Kept

/-!
# Plans are shared at references

Whether two places of compiled plans hold one plan is told by their addresses in the store.
The plan of a declared type has an address that no other plan has; a slot has this address if
it is the slot of a reference to the type, and the slot of an inline object has one of its own.
So `typeOf?`, which looks for the type whose plan is at an address, gives back what the slot
was made from.

Main statement: `Schema.compile_shares_at_references`.
-/

namespace RecordSchema

open Storing

/-- The declared type whose plan is at the address. -/
def typeOf? (types : List StoredPlan) (address : Nat) : Option String :=
  (types.find? fun type => type.address == address).map fun type => type.plan.name

/-! ## Types that are kept -/

namespace KeptPlans

variable {schema : Schema} {kept : Entries StoredPlan}

theorem nodup_names (h : KeptPlans schema kept) : kept.names.Nodup := by
  induction h with
  | nil => exact List.nodup_nil
  | append _ hfresh _ _ _ _ ih =>
      rw [Entries.names_append, List.nodup_append]
      refine ⟨ih, List.nodup_singleton _, fun other hother name hname heq => ?_⟩
      subst heq
      rw [List.mem_singleton.mp hname] at hother
      exact hfresh hother

/-- A type that is kept has a slot for each of its sites, and the types in front of it fill
its references. -/
theorem of_split (h : KeptPlans schema kept) {front back : Entries StoredPlan} {name : String}
    {type : StoredPlan} (hsplit : kept = front ++ (name, type) :: back) :
    ∃ properties, schema.get? name = some properties ∧ type.plan.name = name ∧
      type.slots.map Slot.site = properties.sites name ∧ Fills front type.slots := by
  induction h generalizing back with
  | nil => simp at hsplit
  | append _ _ hget hname hsites hfills ih =>
      rcases List.eq_nil_or_concat back with rfl | ⟨others, last, rfl⟩
      · obtain ⟨rfl, hlast⟩ := List.append_inj' hsplit rfl
        cases hlast
        exact ⟨_, hget, hname, hsites, hfills⟩
      · rw [List.concat_eq_append, ← List.cons_append, ← List.append_assoc] at hsplit
        exact ih (List.append_inj' hsplit rfl).1

theorem of_mem (h : KeptPlans schema kept) {name : String} {type : StoredPlan}
    (hmem : (name, type) ∈ kept) :
    ∃ properties, schema.get? name = some properties ∧ type.plan.name = name ∧
      type.slots.map Slot.site = properties.sites name ∧ Fills kept type.slots := by
  obtain ⟨front, back, hsplit⟩ := List.append_of_mem hmem
  obtain ⟨properties, hget, hname, hsites, hfills⟩ := h.of_split hsplit
  refine ⟨properties, hget, hname, hsites, ?_⟩
  rw [hsplit]
  exact hfills.append _

end KeptPlans

/-- A reference to a type is a site of its owner's plan. -/
theorem Schema.RefersTo.exists_site {schema : Schema} {owner target : String}
    {properties : PropertySet} (hget : schema.get? owner = some properties)
    (h : schema.RefersTo owner target) :
    ∃ site ∈ properties.sites owner, site.target = some target := by
  obtain ⟨properties', hget', hmentions⟩ := h
  cases hget.symm.trans hget'
  rw [← PropertySet.mem_referencesIn_iff target "", List.mem_map] at hmentions
  obtain ⟨reference, hmem, rfl⟩ := hmentions
  have htree : reference ∈ properties.tree.filterMap PropertySet.reference? := by
    rw [← PropertySet.references_eq]
    exact hmem
  obtain ⟨⟨path, spec⟩, hentry, hreference⟩ := List.mem_filterMap.mp htree
  obtain ⟨target, htarget, rfl⟩ := Option.map_eq_some_iff.mp hreference
  have hsite := Site.of?_of_target htarget owner path
  exact ⟨_, List.mem_filterMap.mpr ⟨_, hentry, hsite⟩, rfl⟩

/-- Types that a kept type refers to have been kept in front of it. -/
theorem KeptPlans.mem_front {schema : Schema} {kept front back : Entries StoredPlan}
    {name target : String} {type : StoredPlan} (h : KeptPlans schema kept)
    (hsplit : kept = front ++ (name, type) :: back) (hrefers : schema.RefersTo name target) :
    target ∈ front.names := by
  obtain ⟨properties, hget, -, hsites, hfills⟩ := h.of_split hsplit
  obtain ⟨site, hsite, htarget⟩ := hrefers.exists_site hget
  rw [← hsites] at hsite
  obtain ⟨slot, hslot, rfl⟩ := List.mem_map.mp hsite
  obtain ⟨other, hother, -⟩ := hfills slot hslot target htarget
  exact Entries.mem_names_of_get? hother

/-- One address belongs to one type. -/
theorem eq_of_mem_addresses {kept : Entries StoredPlan} (h : (keptAddresses kept).Nodup)
    {entry entry' : String × StoredPlan} (hmem : entry ∈ kept) (hmem' : entry' ∈ kept)
    {address : Nat} (haddress : address ∈ entry.2.addresses)
    (haddress' : address ∈ entry'.2.addresses) : entry = entry' := by
  have happart := (List.nodup_flatMap.mp h).2
  by_contra hne
  have hsymm : Std.Symm (Function.onFun List.Disjoint
      fun entry : String × StoredPlan => entry.2.addresses) :=
    ⟨fun _ _ hdisjoint => hdisjoint.symm⟩
  exact happart.forall hmem hmem' hne haddress haddress'

/-! ## The types at addresses -/

section TypeOf

variable {schema : Schema} {kept : Entries StoredPlan} {types : List StoredPlan}

theorem typeOf?_address (hkept : KeptPlans schema kept) (hnodup : (keptAddresses kept).Nodup)
    (htypes : ∀ type ∈ types, ∃ name, (name, type) ∈ kept) {name : String} {type : StoredPlan}
    (hmem : (name, type) ∈ kept) (htype : type ∈ types) :
    typeOf? types type.address = some name := by
  obtain ⟨-, -, hname, -, -⟩ := hkept.of_mem hmem
  rw [typeOf?]
  cases hfind : types.find? fun other => other.address == type.address with
  | none =>
      rw [List.find?_eq_none] at hfind
      exact absurd (beq_self_eq_true _) (hfind type htype)
  | some other =>
      obtain ⟨name', hmem'⟩ := htypes other (List.mem_of_find?_eq_some hfind)
      have heq := List.find?_some hfind
      simp only [beq_iff_eq] at heq
      have haddress : type.address ∈ other.addresses := by
        rw [← heq]
        exact List.mem_cons_self
      cases eq_of_mem_addresses hnodup hmem hmem' List.mem_cons_self haddress
      rw [Option.map_some, hname]

theorem typeOf?_inline (hnodup : (keptAddresses kept).Nodup)
    (htypes : ∀ type ∈ types, ∃ name, (name, type) ∈ kept) {name : String} {type : StoredPlan}
    (hmem : (name, type) ∈ kept) {address : Nat} (haddress : address ∈ inlineAddresses type.slots) :
    typeOf? types address = none := by
  rw [typeOf?, Option.map_eq_none_iff, List.find?_eq_none]
  intro other hother heq
  obtain ⟨name', hmem'⟩ := htypes other hother
  rw [← eq_of_beq heq] at haddress
  cases eq_of_mem_addresses hnodup hmem hmem' (List.mem_cons_of_mem _ haddress) List.mem_cons_self
  -- the address of a type is not given to an inline object of it
  have htype : type.addresses.Nodup := (List.nodup_flatMap.mp hnodup).1 _ hmem
  exact (List.nodup_cons.mp htype).1 haddress

/-- At the address of a slot is the plan of the type that the slot refers to. -/
theorem typeOf?_slot (hkept : KeptPlans schema kept) (hnodup : (keptAddresses kept).Nodup)
    (htypes : ∀ type ∈ types, ∃ name, (name, type) ∈ kept)
    (hall : ∀ name type, (name, type) ∈ kept → type ∈ types) {name : String} {type : StoredPlan}
    (hmem : (name, type) ∈ kept) {slot : Slot} (hslot : slot ∈ type.slots) :
    typeOf? types slot.address = slot.site.target := by
  cases htarget : slot.site.target with
  | none => exact typeOf?_inline hnodup htypes hmem (mem_inlineAddresses hslot htarget)
  | some target =>
      obtain ⟨-, -, -, -, hfills⟩ := hkept.of_mem hmem
      obtain ⟨other, hother, haddress⟩ := hfills slot hslot target htarget
      have hother := Entries.mem_of_get? hother
      rw [haddress]
      exact typeOf?_address hkept hnodup htypes hother (hall target other hother)

end TypeOf

namespace Schema

/-- Compiling a closed and acyclic schema into a store gives the plans of its types as they
are kept in the end, and tells of each type that is kept. -/
theorem store_of_acyclic {schema : Schema} (hclosed : schema.Closed)
    (hacyclic : schema.Acyclic) :
    ∃ events types kept, schema.store = ⟨events, .ok types⟩ ∧ KeptPlans schema kept ∧
      (keptAddresses kept).Nodup ∧ schema.names.map kept.get? = types.map some ∧
      events.filter Event.isCompiledType = kept.names.map schema.compiledEvent := by
  obtain ⟨events, types, store', hrun, ⟨added, count, hgrows⟩, htypes⟩ :=
    storeTypePlans_grows hclosed hacyclic schema.names (fun _ h => h) ⟨0, []⟩ .nil
  have hadded : store'.kept = added := hgrows.kept
  refine ⟨events ++ [.compiledSchema types.length], types, store'.kept, ?_, hgrows.keptPlans, ?_,
    ?_, ?_⟩
  · rw [store, checkReferences_eq_ok_iff.mpr ⟨hclosed, hacyclic⟩, hrun]
    rfl
  · rw [hadded]
    exact hgrows.addresses.nodup_iff.mpr List.nodup_range'
  · rw [← List.forall₂_eq_eq_eq, List.forall₂_map_left_iff, List.forall₂_map_right_iff]
    exact htypes
  · rw [List.filter_append, hgrows.events, hadded]
    exact List.append_nil _

/-- The types that are compiled are those that are kept. -/
theorem mem_types_iff {schema : Schema} {kept : Entries StoredPlan} {types : List StoredPlan}
    (hkept : KeptPlans schema kept) (htypes : schema.names.map kept.get? = types.map some)
    {type : StoredPlan} : type ∈ types ↔ ∃ name, (name, type) ∈ kept := by
  have hmem : type ∈ types ↔ ∃ name ∈ schema.names, kept.get? name = some type := by
    rw [← List.mem_map_of_injective (Option.some_injective _), ← htypes, List.mem_map]
  rw [hmem]
  constructor
  · rintro ⟨name, -, hget⟩
    exact ⟨name, Entries.mem_of_get? hget⟩
  · rintro ⟨name, hentry⟩
    obtain ⟨properties, hget, -⟩ := hkept.of_mem hentry
    exact ⟨name, Entries.mem_names_of_get? hget, Entries.get?_of_mem hkept.nodup_names hentry⟩

theorem mem_names_iff_of_kept {schema : Schema} {kept : Entries StoredPlan}
    {types : List StoredPlan} (hkept : KeptPlans schema kept)
    (htypes : schema.names.map kept.get? = types.map some) {name : String} :
    name ∈ kept.names ↔ name ∈ schema.names := by
  constructor
  · intro hname
    obtain ⟨type, hget⟩ := Entries.exists_get?_of_mem_names hname
    obtain ⟨properties, hget, -⟩ := hkept.of_mem (Entries.mem_of_get? hget)
    exact Entries.mem_names_of_get? hget
  · intro hname
    have hmem := List.mem_map_of_mem (f := kept.get?) hname
    rw [htypes] at hmem
    obtain ⟨type, -, hget⟩ := List.mem_map.mp hmem
    exact Entries.mem_names_of_get? hget.symm

/-- A plan that is the plan of some type is that of the type it is named after. -/
theorem plan_eq_planOf {schema : Schema} {types : List StoredPlan}
    (hplans : types.map StoredPlan.plan = schema.names.map schema.planOf) {type : StoredPlan}
    (htype : type ∈ types) : type.plan = schema.planOf type.plan.name := by
  have hplan : type.plan ∈ schema.names.map schema.planOf := by
    rw [← hplans]
    exact List.mem_map_of_mem htype
  obtain ⟨name, -, hname⟩ := List.mem_map.mp hplan
  rw [← hname, planOf_name]

/-- A schema compiles to the plans of `types`, which have addresses in the store and are the
types as they are kept in the end. -/
structure IsStored (schema : Schema) (compiled : CompiledSchema) (types : List StoredPlan)
    (kept : Entries StoredPlan) : Prop where
  store : schema.store = ⟨schema.compile.events, .ok types⟩
  plans : types.map StoredPlan.plan = compiled.plans
  keptPlans : KeptPlans schema kept
  nodup : (keptAddresses kept).Nodup
  mem_types_iff : ∀ type, type ∈ types ↔ ∃ name, (name, type) ∈ kept
  mem_names_iff : ∀ name, name ∈ kept.names ↔ name ∈ schema.names
  events : schema.compile.events.filter Event.isCompiledType = kept.names.map schema.compiledEvent

theorem exists_isStored {schema : Schema} {compiled : CompiledSchema}
    (h : schema.compile.outcome = .ok compiled) :
    ∃ types kept, schema.IsStored compiled types kept := by
  obtain ⟨hclosed, hacyclic, hplans⟩ := of_compile_eq_ok h
  obtain ⟨events, types, kept, hstore, hkept, hnodup, htypes, hevents⟩ :=
    store_of_acyclic hclosed hacyclic
  have hcompile : schema.compile = ⟨events, .ok ⟨types.map StoredPlan.plan⟩⟩ := by
    rw [compile_eq_store, hstore]
    rfl
  refine ⟨types, kept, by rw [hstore, hcompile], ?_, hkept, hnodup,
    fun type => mem_types_iff hkept htypes, fun name => mem_names_iff_of_kept hkept htypes,
    by rw [hcompile, hevents]⟩
  rw [hcompile] at h
  cases h
  rfl

/-- The slots of a stored type and the checks of its plan belong to the sites of its properties,
one by one, and at the address of a slot is the plan that its site asks for. -/
theorem IsStored.exists_sites {schema : Schema} {compiled : CompiledSchema}
    {types : List StoredPlan} {kept : Entries StoredPlan}
    (hstored : schema.IsStored compiled types kept)
    (h : schema.compile.outcome = .ok compiled) {type : StoredPlan} (htype : type ∈ types) :
    ∃ properties, schema.get? type.plan.name = some properties ∧
      type.slots.map Slot.site = properties.sites type.plan.name ∧
      List.Forall₂ (Site.Holds compiled.get?) (properties.sites type.plan.name)
        type.plan.nested ∧
      typeOf? types type.address = some type.plan.name ∧
      ∀ slot ∈ type.slots, typeOf? types slot.address = slot.site.target := by
  obtain ⟨hclosed, hacyclic, hplans⟩ := of_compile_eq_ok h
  obtain ⟨name, hmem⟩ := (hstored.mem_types_iff type).mp htype
  obtain ⟨properties, hget, hname, hsites, -⟩ := hstored.keptPlans.of_mem hmem
  have hplan := plan_eq_planOf (hstored.plans.trans hplans) htype
  have hentry : ∀ type ∈ types, ∃ name, (name, type) ∈ kept := fun type =>
    (hstored.mem_types_iff type).mp
  have hall : ∀ name type, (name, type) ∈ kept → type ∈ types := fun name type hmem =>
    (hstored.mem_types_iff type).mpr ⟨name, hmem⟩
  rw [hname] at hplan ⊢
  refine ⟨properties, hget, hsites, ?_,
    typeOf?_address hstored.keptPlans hstored.nodup hentry hmem htype,
    fun slot => typeOf?_slot hstored.keptPlans hstored.nodup hentry hall hmem⟩
  rw [hplan]
  refine planOf_holds hclosed hacyclic hget fun target hrefers => ?_
  rw [get?_of_compile h, if_pos (hclosed.target_mem_names hrefers)]

/-- Where a schema compiles, there is one plan for each declared type, in the order of
declaration and named after it. Compiled into a store, these are plans `types` with addresses.
The slots of a type, and the checks that hold a plan in its plan, are one for each inline
object and each reference in its properties, in order. A reference holds the plan of its
target, and an inline object a plan named by its path. The plan at the address of a slot is
that of a declared type just if the slot is that of a reference, to this type; inline objects
have addresses that no other plan has, whatever their names are. Each declared type is
reported as compiled once, behind all types that it refers to. -/
theorem compile_shares_at_references {schema : Schema} {compiled : CompiledSchema}
    (h : schema.compile.outcome = .ok compiled) :
    compiled.plans.map ObjectPlan.name = schema.names ∧
    (∃ types, schema.store = ⟨schema.compile.events, .ok types⟩ ∧
      types.map StoredPlan.plan = compiled.plans ∧
      (∀ type ∈ types, ∃ properties, schema.get? type.plan.name = some properties ∧
        type.slots.map Slot.site = properties.sites type.plan.name ∧
        List.Forall₂ (Site.Holds compiled.get?) (properties.sites type.plan.name)
          type.plan.nested ∧
        typeOf? types type.address = some type.plan.name ∧
        ∀ slot ∈ type.slots, typeOf? types slot.address = slot.site.target) ∧
      (∀ type ∈ types, type.addresses.Nodup) ∧
      ∀ type ∈ types, ∀ other ∈ types, type.plan.name ≠ other.plan.name →
        type.addresses.Disjoint other.addresses) ∧
    ∃ order : List String, order.Nodup ∧ (∀ name, name ∈ order ↔ name ∈ schema.names) ∧
      schema.compile.events.filter Event.isCompiledType = order.map schema.compiledEvent ∧
      ∀ front name back, order = front ++ name :: back →
        ∀ target, schema.RefersTo name target → target ∈ front := by
  obtain ⟨types, kept, hstored⟩ := exists_isStored h
  refine ⟨typeNames_of_compile h, ⟨types, hstored.store, hstored.plans,
    fun type htype => hstored.exists_sites h htype, ?_, ?_⟩, kept.names,
    hstored.keptPlans.nodup_names, hstored.mem_names_iff, hstored.events, ?_⟩
  · intro type htype
    obtain ⟨name, hmem⟩ := (hstored.mem_types_iff type).mp htype
    exact (List.nodup_flatMap.mp hstored.nodup).1 _ hmem
  · intro type htype other hother hne address haddress haddress'
    obtain ⟨name, hmem⟩ := (hstored.mem_types_iff type).mp htype
    obtain ⟨name', hmem'⟩ := (hstored.mem_types_iff other).mp hother
    cases eq_of_mem_addresses hstored.nodup hmem hmem' haddress haddress'
    exact hne rfl
  · intro front name back hsplit target hrefers
    obtain ⟨front, entries, rfl, rfl, hentries⟩ := List.map_eq_append_iff.mp hsplit
    obtain ⟨⟨name, type⟩, back, rfl, rfl, -⟩ := List.map_eq_cons_iff.mp hentries
    exact hstored.keptPlans.mem_front rfl hrefers

/-- An order with a party, which is an inline object whose path is the name of a type. -/
def parties : Schema :=
  [("Order",
      [("party", .object [("of", .named "Order.party")]),
        ("others", .array (.named "Order.party"))]),
    ("Order.party", [])]

theorem exists_compile_parties : ∃ compiled, parties.compile.outcome = .ok compiled := by
  have hrefers : ∀ owner target, parties.RefersTo owner target →
      owner = "Order" ∧ target = "Order.party" := by
    rintro owner target ⟨properties, hget, hmentions⟩
    rw [← PropertySet.mem_referencesIn_iff target ""] at hmentions
    rcases List.mem_pair.mp (Entries.mem_of_get? hget) with heq | heq
    · cases heq
      exact ⟨rfl, (List.mem_pair.mp hmentions).elim id id⟩
    · cases heq
      cases hmentions
  have hclosed : parties.Closed := closed_of_checkTargets rfl
  have hacyclic : parties.Acyclic := acyclic_of_refersTo_only hrefers (by decide)
  exact ⟨_, compile_of_acyclic hclosed hacyclic⟩

theorem compile_shares_at_references_parties :
    ∃ compiled types, parties.compile.outcome = .ok compiled ∧
      parties.store = ⟨parties.compile.events, .ok types⟩ ∧
      types.map StoredPlan.plan = compiled.plans ∧
      compiled.plans.map ObjectPlan.name = ["Order", "Order.party"] ∧
      ∀ type ∈ types, type.plan.name = "Order" →
        type.slots.map (fun slot => (slot.site.path, typeOf? types slot.address)) =
          [("Order.party", none), ("Order.party.of", some "Order.party"),
            ("Order.others[]", some "Order.party")] := by
  obtain ⟨compiled, hcompile⟩ := exists_compile_parties
  obtain ⟨hnames, ⟨types, hstore, hplans, htypes, -⟩, -⟩ := compile_shares_at_references hcompile
  refine ⟨compiled, types, hcompile, hstore, hplans, hnames, fun type htype hname => ?_⟩
  obtain ⟨properties, hget, hsites, -, -, hslots⟩ := htypes type htype
  rw [hname] at hget hsites
  cases hget
  calc type.slots.map (fun slot => (slot.site.path, typeOf? types slot.address))
      = type.slots.map (fun slot => (slot.site.path, slot.site.target)) :=
        List.map_congr_left fun slot hslot => by rw [hslots slot hslot]
    _ = (type.slots.map Slot.site).map fun site => (site.path, site.target) := by
        rw [List.map_map]
        rfl
    _ = _ := by
        rw [hsites]
        decide

end Schema

end RecordSchema
