import RecordSchema.Proofs.Document.IgnoredRules
import RecordSchema.Proofs.Document.Named
import RecordSchema.Proofs.Storage.Sharing

/-!
# Warnings

What a schema gives and has no effect is reported: rules that do not apply to the type of their
property while the schema is read, and transforms of the items of arrays while it is compiled.

A type is compiled when it is first asked for and kept, so its warnings come once, among those of
whatever asked for it. `Accounts` keeps the books along a run: the warnings are those of what is
being compiled itself and those of the types that are reported as compiled. As each declared type
is reported once, the warnings of a whole compilation are those of the declared types.

Main statement: `Schema.warns_once`.
-/

namespace RecordSchema

open Storing

/-! ## Warnings of a type -/

/-- Whether the event is a warning. -/
def Event.isWarning (event : Event) : Bool :=
  event.severity = .warning

/-- The name of the type that the event tells of as compiled. -/
def Event.compiledName? : Event → Option String
  | compiledType name _ => some name
  | _ => none

/-- The warning for a spec of the property tree of `owner`, if it is an array whose items have
transforms. -/
def itemWarning? (owner : String) (entry : PropertyPath × PropertySpec) : Option Event :=
  match entry.2.type with
  | .array _ items =>
    if items.transforms.isEmpty then none else some (.ignoredItemTransform (entry.1.text owner))
  | _ => none

/-- The warnings for the properties of `owner`. -/
def PropertySet.itemWarnings (owner : String) (properties : PropertySet) : List Event :=
  properties.tree.filterMap (itemWarning? owner)

namespace Schema

/-- The warnings for the types of a schema: one for each array in their property trees whose items
have transforms. -/
def itemWarnings (schema : Schema) : List Event :=
  schema.flatMap fun type => PropertySet.itemWarnings type.1 type.2

/-- The warnings for the type of a name. -/
def itemWarningsOf (schema : Schema) (name : String) : List Event :=
  PropertySet.itemWarnings name ((schema.get? name).getD [])

theorem itemWarnings_eq {schema : Schema} (hnodup : schema.names.Nodup) :
    schema.itemWarnings = schema.names.flatMap schema.itemWarningsOf := by
  rw [itemWarnings, Entries.names, List.flatMap_map]
  refine List.flatMap_congr fun type hmem => ?_
  rw [itemWarningsOf, Entries.get?_of_mem hnodup hmem, Option.getD_some]

end Schema

/-! ## Keeping the books -/

/-- The warnings among the events are the given ones, and those for the types that the events tell
of as compiled. -/
def Accounts (schema : Schema) (own events : List Event) : Prop :=
  (events.filter Event.isWarning).Perm
    (own ++ (events.filterMap Event.compiledName?).flatMap schema.itemWarningsOf)

section Accounts

variable {schema : Schema} {own own' events events' : List Event}

theorem accounts_nil (schema : Schema) : Accounts schema [] [] :=
  .refl _

theorem Accounts.append (h : Accounts schema own events) (h' : Accounts schema own' events') :
    Accounts schema (own ++ own') (events ++ events') := by
  rw [Accounts, List.filter_append, List.filterMap_append, List.flatMap_append]
  refine (List.Perm.append h h').trans ?_
  rw [List.append_assoc, List.append_assoc]
  refine .append_left own ?_
  rw [← List.append_assoc, ← List.append_assoc]
  exact .append_right _ List.perm_append_comm

/-- When a type has been compiled, its own warnings are accounted for by the event that tells so. -/
theorem Accounts.compiled {name : String} (h : Accounts schema (schema.itemWarningsOf name) events)
    (properties : Nat) : Accounts schema [] (events ++ [.compiledType name properties]) := by
  have hwarning : [Event.compiledType name properties].filter Event.isWarning = [] := rfl
  have hname : [Event.compiledType name properties].filterMap Event.compiledName? = [name] := rfl
  rw [Accounts, List.filter_append, List.filterMap_append, hwarning, hname, List.append_nil,
    List.nil_append, List.flatMap_append, List.flatMap_singleton]
  exact List.Perm.trans h List.perm_append_comm

/-- The warning for an array that does not hold the condition is the one that is reported. -/
theorem accounts_reportUnless {holds : Bool} {path : String} {store store' : Store}
    (h : Runs (reportUnless holds (.ignoredItemTransform path)) store events () store') :
    Accounts schema (if holds then [] else [.ignoredItemTransform path]) events := by
  cases holds with
  | true =>
      obtain ⟨rfl, -, -⟩ := runs_pure_iff.mp h
      exact accounts_nil schema
  | false =>
      cases h
      exact .refl _

end Accounts

theorem filterMap_itemWarning?_array (owner : String) (path : PropertyPath)
    (minLength : Option UInt64) (items : PropertySpec) (required : Bool)
    (transforms : List Transform) (entries : List (PropertyPath × PropertySpec)) :
    ((path, ⟨.array minLength items, required, transforms⟩) :: entries).filterMap
        (itemWarning? owner) =
      (if items.transforms.isEmpty then [] else [.ignoredItemTransform (path.text owner)]) ++
        entries.filterMap (itemWarning? owner) := by
  cases hempty : items.transforms.isEmpty <;> simp [itemWarning?, hempty]

namespace Schema

section Runs

variable {schema : Schema} {resolve : String → Storing StoredPlan} {owner : String}

mutual

theorem storeSpec_accounts
    (hresolve : ∀ {target store store' events type},
      Runs (resolve target) store events type store' → Accounts schema [] events)
    (path : PropertyPath) :
    ∀ (spec : PropertySpec) {store store' : Store} {events : List Event}
      {checks : Stored (List Check)},
      Runs (storeSpec resolve (path.text owner) spec) store events checks store' →
      Accounts schema ((PropertySet.specTree path spec).filterMap (itemWarning? owner)) events
  | ⟨type, required, transforms⟩, _, _, _, _, hrun => by
      rw [storeSpec] at hrun
      rw [PropertySet.specTree]
      exact storeType_accounts hresolve path type required transforms hrun

/-- While a property type is compiled, there is a warning for each array of it whose items have
transforms. -/
theorem storeType_accounts
    (hresolve : ∀ {target store store' events type},
      Runs (resolve target) store events type store' → Accounts schema [] events)
    (path : PropertyPath) :
    ∀ (type : PropertyType) (required : Bool) (transforms : List Transform)
      {store store' : Store} {events : List Event} {checks : Stored (List Check)},
      Runs (storeType resolve (path.text owner) type) store events checks store' →
      Accounts schema (((path, ⟨type, required, transforms⟩) ::
        PropertySet.typeTree path type).filterMap (itemWarning? owner)) events
  | .string _ _, _, _, _, _, _, _, hrun => by
      obtain ⟨rfl, -, -⟩ := runs_pure_iff.mp hrun
      exact accounts_nil schema
  | .number _, _, _, _, _, _, _, hrun => by
      obtain ⟨rfl, -, -⟩ := runs_pure_iff.mp hrun
      exact accounts_nil schema
  | .boolean, _, _, _, _, _, _, hrun => by
      obtain ⟨rfl, -, -⟩ := runs_pure_iff.mp hrun
      exact accounts_nil schema
  | .object properties, _, _, _, _, _, _, hrun => by
      rw [storeType] at hrun
      obtain ⟨_, plans, _, _, hplans, hrest, rfl⟩ := runs_bind_iff.mp hrun
      obtain ⟨_, address, _, _, haddress, hlast, rfl⟩ := runs_bind_iff.mp hrest
      obtain ⟨rfl, -, -⟩ := runs_pure_iff.mp hlast
      cases haddress
      rw [List.append_nil, List.append_nil]
      exact storeProperties_accounts hresolve path properties hplans
  | .array minLength items, required, transforms, _, _, _, _, hrun => by
      rw [storeType] at hrun
      obtain ⟨_, _, _, _, hreport, hrest, rfl⟩ := runs_bind_iff.mp hrun
      obtain ⟨_, checks, _, _, hchecks, hlast, rfl⟩ := runs_bind_iff.mp hrest
      obtain ⟨rfl, -, -⟩ := runs_pure_iff.mp hlast
      rw [← PropertyPath.text_append_items] at hchecks
      rw [List.append_nil, PropertySet.typeTree, filterMap_itemWarning?_array]
      exact (accounts_reportUnless hreport).append
        (storeSpec_accounts hresolve (path ++ [.items]) items hchecks)
  | .named target, _, _, _, _, _, _, hrun => by
      rw [storeType] at hrun
      obtain ⟨_, type, _, _, htype, hlast, rfl⟩ := runs_bind_iff.mp hrun
      obtain ⟨rfl, -, -⟩ := runs_pure_iff.mp hlast
      rw [List.append_nil]
      exact hresolve htype

theorem storeProperties_accounts
    (hresolve : ∀ {target store store' events type},
      Runs (resolve target) store events type store' → Accounts schema [] events)
    (path : PropertyPath) :
    ∀ (properties : List (String × PropertySpec)) {store store' : Store} {events : List Event}
      {plans : Stored (List PropertyPlan)},
      Runs (storeProperties resolve (path.text owner) properties) store events plans store' →
      Accounts schema ((PropertySet.treeIn path properties).filterMap (itemWarning? owner)) events
  | [], _, _, _, _, hrun => by
      obtain ⟨rfl, -, -⟩ := runs_pure_iff.mp hrun
      exact accounts_nil schema
  | (key, spec) :: rest, _, _, _, _, hrun => by
      rw [storeProperties] at hrun
      obtain ⟨_, checks, _, _, hchecks, hrest, rfl⟩ := runs_bind_iff.mp hrun
      obtain ⟨_, plans, _, _, hplans, hlast, rfl⟩ := runs_bind_iff.mp hrest
      obtain ⟨rfl, -, -⟩ := runs_pure_iff.mp hlast
      rw [← PropertyPath.text_append_key] at hchecks
      rw [List.append_nil, PropertySet.treeIn, List.filterMap_append]
      exact (storeSpec_accounts hresolve (path ++ [.key key]) spec hchecks).append
        (storeProperties_accounts hresolve path rest hplans)

end

end Runs

/-- What a type asks for is accounted for when it is compiled, and is nothing when it is kept. -/
theorem storeTypePlan_accounts (schema : Schema) (fuel : Nat) {name : String}
    {store store' : Store} {events : List Event} {type : StoredPlan}
    (hrun : Runs (storeTypePlan schema fuel name) store events type store') :
    Accounts schema [] events := by
  induction fuel generalizing name store store' events type with
  | zero => cases hrun
  | succ fuel ih =>
      rw [storeTypePlan] at hrun
      obtain ⟨_, kept, _, _, hget, hrest, rfl⟩ := runs_bind_iff.mp hrun
      cases hget
      split at hrest
      · obtain ⟨rfl, -, -⟩ := runs_pure_iff.mp hrest
        exact accounts_nil schema
      · split at hrest
        · cases hrest
        · next properties hproperties =>
          obtain ⟨reported, plans, _, _, hplans, hfinish, rfl⟩ := runs_bind_iff.mp hrest
          obtain ⟨_, address, _, _, haddress, htell, rfl⟩ := runs_bind_iff.mp hfinish
          obtain ⟨_, _, _, _, hreport, hstore, rfl⟩ := runs_bind_iff.mp htell
          obtain ⟨_, _, _, _, hkeep, hlast, rfl⟩ := runs_bind_iff.mp hstore
          obtain ⟨rfl, -, -⟩ := runs_pure_iff.mp hlast
          cases haddress
          cases hreport
          cases hkeep
          have hown : Accounts schema (schema.itemWarningsOf name) reported := by
            rw [itemWarningsOf, hproperties, Option.getD_some]
            exact storeProperties_accounts ih [] properties hplans
          exact hown.compiled properties.length

theorem storeTypePlans_accounts (schema : Schema) {names : List String} {store store' : Store}
    {events : List Event} {types : List StoredPlan}
    (hrun : Runs (storeTypePlans schema names) store events types store') :
    Accounts schema [] events := by
  induction names generalizing store store' events types with
  | nil =>
      obtain ⟨rfl, -, -⟩ := runs_pure_iff.mp hrun
      exact accounts_nil schema
  | cons name rest ih =>
      rw [storeTypePlans] at hrun
      obtain ⟨_, type, _, _, htype, hrest, rfl⟩ := runs_bind_iff.mp hrun
      obtain ⟨_, types, _, _, htypes, hlast, rfl⟩ := runs_bind_iff.mp hrest
      obtain ⟨rfl, -, -⟩ := runs_pure_iff.mp hlast
      rw [List.append_nil]
      exact (storeTypePlan_accounts schema schema.length htype).append (ih htypes)

/-- The warnings of a compilation are those of the types that it tells of as compiled. -/
theorem compile_accounts {schema : Schema} {compiled : CompiledSchema}
    (h : schema.compile.outcome = .ok compiled) : Accounts schema [] schema.compile.events := by
  obtain ⟨hclosed, hacyclic, -⟩ := of_compile_eq_ok h
  rw [compile_eq_store, store, checkReferences_eq_ok_iff.mpr ⟨hclosed, hacyclic⟩] at h ⊢
  cases hrun : (storeTypePlans schema schema.names).run ⟨0, []⟩ with
  | mk events outcome =>
      rw [hrun] at h
      cases outcome with
      | error error => cases h
      | ok result =>
          obtain ⟨types, store'⟩ := result
          have hlast : Accounts schema [] [.compiledSchema types.length] := .refl _
          exact (storeTypePlans_accounts schema hrun).append hlast

/-- Each declared type is told of as compiled once. -/
theorem compiledNames_perm {schema : Schema} {compiled : CompiledSchema}
    (h : schema.compile.outcome = .ok compiled) (hnodup : schema.names.Nodup) :
    (schema.compile.events.filterMap Event.compiledName?).Perm schema.names := by
  obtain ⟨types, kept, hstored⟩ := exists_isStored h
  have hnames : schema.compile.events.filterMap Event.compiledName? = kept.names :=
    calc schema.compile.events.filterMap Event.compiledName?
        = (schema.compile.events.filter Event.isCompiledType).filterMap Event.compiledName? := by
          rw [List.filterMap_filter]
          refine congrArg (fun f => List.filterMap f _) (funext fun event => ?_)
          cases event <;> rfl
      _ = kept.names := by
          rw [hstored.events, List.filterMap_map]
          exact List.filterMap_some
  rw [hnames]
  exact (List.perm_ext_iff_of_nodup hstored.keptPlans.nodup_names hnodup).mpr hstored.mem_names_iff

/-- Where a schema compiles, there is one warning for each array in its types whose items have
transforms. -/
theorem warnings_perm {schema : Schema} {compiled : CompiledSchema}
    (h : schema.compile.outcome = .ok compiled) (hnodup : schema.names.Nodup) :
    (schema.compile.events.filter Event.isWarning).Perm schema.itemWarnings := by
  rw [itemWarnings_eq hnodup]
  exact List.Perm.trans (compile_accounts h) ((compiledNames_perm h hnodup).flatMap_right _)

/-- The warnings that a schema has in all: while it is read, just one for each rule that is ignored
in a document of a property, wherever this occurs; and if the schema that has been read compiles,
just one for each array in its types whose items have transforms. -/
theorem warns_once (schema : Schema) :
    (∀ value, (ofValue value).outcome = .ok schema →
      (ofValue value).events = value.schemaSpecs.flatMap Json.ignoredRules ∧
        ∀ compiled, schema.compile.outcome = .ok compiled →
          (schema.compile.events.filter Event.isWarning).Perm schema.itemWarnings) ∧
    ∀ text, (ofText text).outcome = .ok schema →
      (ofText text).events =
          (Document.ofText text).written.schemaSpecs.flatMap Json.ignoredRules ∧
        ∀ compiled, schema.compile.outcome = .ok compiled →
          (schema.compile.events.filter Event.isWarning).Perm schema.itemWarnings := by
  refine ⟨fun value h => ⟨events_ofValue h, fun compiled hcompile => ?_⟩,
    fun text h => ⟨events_ofText h, fun compiled hcompile => ?_⟩⟩
  · exact warnings_perm hcompile (wellNamed_of_ofValue h).nodup
  · have hvalue := (ofText_matchedBy text).outcome_eq h
    exact warnings_perm hcompile (wellNamed_of_ofValue hvalue).nodup

/-- Orders of two items, with a note that has rules for other types of properties. The first of
these rules has a property with such a rule in it. -/
def itemsDocument : Json :=
  .object [
    ("Order", .object [
      ("first", .object [("type", .string "Item")]),
      ("second", .object [("type", .string "Item")]),
      ("note", .object [
        ("properties", .object [
          ("page", .object [("type", .string "number"), ("startsWith", .string "p")])]),
        ("minLength", .number (.integer ⟨1, by decide, by decide⟩)),
        ("items", .null),
        ("type", .string "boolean")])]),
    ("Item", .object [
      ("tags", .object [
        ("type", .string "array"),
        ("items", .object [
          ("type", .string "string"),
          ("transform", .array [.string "trim"])])])])]

/-- The types of the orders. -/
def items : Schema :=
  [("Order", [("first", .named "Item"), ("second", .named "Item"), ("note", .boolean)]),
    ("Item", [("tags", .array (PropertySpec.string.withTransform .trim))])]

theorem exists_compile_items : ∃ compiled, items.compile.outcome = .ok compiled := by
  have hrefers : ∀ owner target, items.RefersTo owner target →
      owner = "Order" ∧ target = "Item" := by
    rintro owner target ⟨properties, hget, hmentions⟩
    rw [← PropertySet.mem_referencesIn_iff target ""] at hmentions
    rcases List.mem_pair.mp (Entries.mem_of_get? hget) with heq | heq
    · cases heq
      exact ⟨rfl, (List.mem_pair.mp hmentions).elim id id⟩
    · cases heq
      cases hmentions
  have hclosed : items.Closed := closed_of_checkTargets rfl
  exact ⟨_, compile_of_acyclic hclosed (acyclic_of_refersTo_only hrefers (by decide))⟩

/-- The rule inside of a rule that is ignored is reported first, and the items that two references
share are reported once. -/
theorem warns_once_items :
    ∃ compiled, (ofValue itemsDocument).outcome = .ok items ∧
      (ofValue itemsDocument).events = [.ignoredRule "startsWith" "number",
        .ignoredRule "minLength" "boolean", .ignoredRule "properties" "boolean"] ∧
      items.compile.outcome = .ok compiled ∧
      items.compile.events.filter Event.isWarning = [.ignoredItemTransform "Item.tags"] := by
  obtain ⟨compiled, hcompile⟩ := exists_compile_items
  have hread : (ofValue itemsDocument).outcome = .ok items := rfl
  obtain ⟨hevents, hwarnings⟩ := (warns_once items).1 itemsDocument hread
  refine ⟨compiled, hread, hevents.trans (by decide), hcompile, ?_⟩
  have hitems : items.itemWarnings = [.ignoredItemTransform "Item.tags"] := by decide
  rw [← List.perm_singleton, ← hitems]
  exact hwarnings compiled hcompile

end Schema

end RecordSchema
