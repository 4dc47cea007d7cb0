import RecordSchema.Proofs.Refusal
import RecordSchema.Proofs.Storage.Slots

/-!
# The path of an unknown reference

An unknown type is reported with the path of the reference, to be read behind the name of its
owner and a point. Plans are compiled under paths that start from this name. The two texts are
the same unless the path starts with an empty key and another key: a text that is still empty
gets no point behind it, so that the empty keys it should start with are lost.
`PropertyPath.visible` is what is left of a path.

Main statement: `Schema.compile_reports_visible_path`.
-/

namespace RecordSchema

namespace PropertyPath

/-- The path without the empty keys at its start that have a key behind them. -/
def visible : PropertyPath → PropertyPath
  | .key name :: .key next :: rest =>
    if name = "" then visible (.key next :: rest) else .key name :: .key next :: rest
  | path => path

theorem text_append (front front' : String) (path : PropertyPath) :
    text (front ++ front') path = front ++ text front' path := by
  induction path generalizing front' with
  | nil => rfl
  | cons step rest ih =>
      cases step with
      | key name => simp only [text_cons_key, String.append_assoc, ih]
      | items => simp only [text_cons_items, String.append_assoc, ih]

/-- Behind a text that is not empty, both texts of a path are the same. -/
theorem reportedFrom_eq_text {front : String} (path : PropertyPath) (h : front ≠ "") :
    reportedFrom front path = text front path := by
  induction path generalizing front with
  | nil => rfl
  | cons step rest ih =>
      cases step with
      | key name =>
          rw [reportedFrom_cons_key, if_neg h, text_cons_key]
          exact ih (by simp)
      | items =>
          rw [reportedFrom_cons_items, text_cons_items]
          exact ih (by simp)

/-- What is reported of a path, behind its owner, is the text of what is visible of it. -/
theorem point_append_reported (owner key : String) (rest : PropertyPath) :
    owner ++ "." ++ reported (.key key :: rest) = text owner (visible (.key key :: rest)) := by
  induction rest generalizing key with
  | nil => rfl
  | cons step rest ih =>
      cases step with
      | items =>
          have hvisible : visible (.key key :: .items :: rest) = .key key :: .items :: rest := rfl
          rw [hvisible, reported, reportedFrom_cons_key, if_pos rfl, reportedFrom_cons_items,
            reportedFrom_eq_text rest (by simp), text_cons_key, text_cons_items, ← text_append]
          simp only [String.append_assoc]
      | key next =>
          -- behind an empty first key the text is still empty and the next key starts it again
          by_cases hkey : key = ""
          · rw [visible, if_pos hkey, ← ih next, hkey]
            rfl
          · rw [visible, if_neg hkey, reported, reportedFrom_cons_key, if_pos rfl,
              reportedFrom_cons_key, if_neg hkey, reportedFrom_eq_text rest (by simp),
              text_cons_key, text_cons_key, ← text_append]
            simp only [String.append_assoc]

theorem length_text_empty_key (front : String) (path : PropertyPath) :
    (text front (.key "" :: path)).length = (text front path).length + 1 := by
  have hpath : ∀ front, text front path = front ++ text "" path := fun front => by
    rw [← text_append, String.append_empty]
  rw [text_cons_key, hpath, hpath front]
  simp only [String.length_append, String.append_empty]
  change front.length + 1 + _ = _
  omega

theorem length_text_visible_le (front : String) (path : PropertyPath) :
    (text front (visible path)).length ≤ (text front path).length := by
  fun_induction visible path with
  | case1 next rest ih =>
      rw [length_text_empty_key]
      exact Nat.le_succ_of_le ih
  | case2 => exact le_rfl
  | case3 => exact le_rfl

/-- A path is reported as it is unless it starts with an empty key and another key. -/
theorem text_visible_eq_iff {owner : String} {path : PropertyPath} :
    text owner (visible path) = text owner path ↔
      ∀ name rest, path ≠ .key "" :: .key name :: rest := by
  constructor
  · rintro h name rest rfl
    have hlength := congrArg String.length h
    rw [visible, if_pos rfl, length_text_empty_key] at hlength
    have hle := length_text_visible_le owner (.key name :: rest)
    omega
  · intro h
    fun_cases visible path with
    | case1 next rest => exact absurd rfl (h next rest)
    | case2 => rfl
    | case3 => rfl

end PropertyPath

namespace PropertySet

mutual

theorem prefix_of_mem_specTree (path : PropertyPath) :
    ∀ (spec : PropertySpec) {entry : PropertyPath × PropertySpec},
      entry ∈ specTree path spec → path <+: entry.1
  | ⟨type, required, transforms⟩, entry, h => by
      rw [specTree] at h
      rcases List.mem_cons.mp h with rfl | h
      · exact List.prefix_rfl
      · exact prefix_of_mem_typeTree path type h

/-- The specs below one have its path in front of theirs. -/
theorem prefix_of_mem_typeTree (path : PropertyPath) :
    ∀ (type : PropertyType) {entry : PropertyPath × PropertySpec},
      entry ∈ typeTree path type → path <+: entry.1
  | .object properties, entry, h => by
      rw [typeTree] at h
      obtain ⟨key, hkey⟩ := prefix_of_mem_treeIn path properties h
      exact (List.prefix_append path _).trans hkey
  | .array _ items, entry, h => by
      rw [typeTree] at h
      exact (List.prefix_append path _).trans (prefix_of_mem_specTree (path ++ [.items]) items h)
  | .string _ _, _, h => (List.not_mem_nil h).elim
  | .number _, _, h => (List.not_mem_nil h).elim
  | .boolean, _, h => (List.not_mem_nil h).elim
  | .named _, _, h => (List.not_mem_nil h).elim

/-- The paths of the properties of an object go on with a key. -/
theorem prefix_of_mem_treeIn (path : PropertyPath) :
    ∀ (properties : List (String × PropertySpec)) {entry : PropertyPath × PropertySpec},
      entry ∈ treeIn path properties → ∃ key, path ++ [.key key] <+: entry.1
  | [], _, h => (List.not_mem_nil h).elim
  | (key, spec) :: rest, entry, h => by
      rw [treeIn] at h
      rcases List.mem_append.mp h with h | h
      · exact ⟨key, prefix_of_mem_specTree (path ++ [.key key]) spec h⟩
      · exact prefix_of_mem_treeIn path rest h

end

/-- Every path of a property tree starts with a key. -/
theorem exists_key_of_mem_tree {properties : PropertySet}
    {entry : PropertyPath × PropertySpec} (h : entry ∈ properties.tree) :
    ∃ key rest, entry.1 = .key key :: rest := by
  obtain ⟨key, rest, hpath⟩ := prefix_of_mem_treeIn [] properties h
  exact ⟨key, rest, hpath.symm⟩

end PropertySet

namespace Schema

open Storing

/-- Properties can be compiled whatever the plans of the types that they refer to are. -/
theorem exists_runs_storeProperties (types : String → StoredPlan) (path : String)
    (properties : PropertySet) (store : Store) :
    ∃ events plans store', Runs (storeProperties (fun target => pure (types target)) path
      properties) store events plans store' := by
  let compiling : Compiling (List PropertyPlan) :=
    compileProperties (fun target => pure (types target).plan) path properties
  have hforgets : Forgets Stored.value
      (storeProperties (fun target => pure (types target)) path properties) compiling :=
    storeProperties_forgets (fun target => forgets_pure rfl) path properties
  have hyields : Compiling.Yields (fun _ => True) compiling
      (propertyPlans (fun target => (types target).plan) path properties) :=
    compileProperties_yields path properties fun target _ => Compiling.yields_pure _
  obtain ⟨kept, hok, -⟩ := hyields store.plans trivial
  rw [hforgets store] at hok
  cases hrun : (storeProperties (fun target => pure (types target)) path properties).run store with
  | mk events outcome =>
      rw [hrun] at hok
      cases outcome with
      | error error => cases hok
      | ok result => exact ⟨events, result.1, result.2, hrun⟩

/-- The first reference of a type to an unknown one has references to declared types only in
front of it. -/
theorem exists_tree_eq_of_find? {schema : Schema} {owner : String} {properties : PropertySet}
    {occurrence : Occurrence}
    (h : ((occurrencesIn owner properties).find? fun occurrence =>
      !schema.has occurrence.target) = some occurrence) :
    ∃ front path spec back, properties.tree = front ++ (path, spec) :: back ∧
      (∀ entry ∈ front, ∀ other, entry.2.target? = some other → other ∈ schema.names) ∧
      spec.target? = some occurrence.target ∧ occurrence.target ∉ schema.names ∧
      occurrence.owner = owner ∧ occurrence.path = path := by
  rw [occurrencesIn, List.find?_filterMap] at h
  obtain ⟨⟨path, spec⟩, hfirst, hoccurrence⟩ := Option.bind_eq_some_iff.mp h
  obtain ⟨target, htarget, rfl⟩ := Option.map_eq_some_iff.mp hoccurrence
  obtain ⟨hunknown, front, back, hsplit, hfront⟩ := List.find?_eq_some_iff_append.mp hfirst
  refine ⟨front, path, spec, back, hsplit, fun entry hentry other hother => ?_, htarget, ?_, rfl,
    rfl⟩
  · have hhas := hfront entry hentry
    rw [hother, Option.map_some, Option.any_some, Bool.not_not] at hhas
    exact Entries.has_iff_mem_names.mp hhas
  · rw [htarget, Option.map_some, Option.any_some, Bool.not_eq_true'] at hunknown
    rw [← Entries.has_iff_mem_names, Bool.not_eq_true]
    exact hunknown

/-- An unknown type is reported for a reference in the property tree of its owner, the first
whose target is not declared. -/
theorem exists_unknown_reference {schema : Schema} {owner property target : String}
    (h : schema.compile.outcome = .error (.unknownType owner property target)) :
    ∃ properties front path spec back, (owner, properties) ∈ schema ∧
      properties.tree = front ++ (path, spec) :: back ∧
      (∀ entry ∈ front, ∀ other, entry.2.target? = some other → other ∈ schema.names) ∧
      spec.target? = some target ∧ target ∉ schema.names ∧ property = path.reported := by
  have htargets : schema.checkTargets schema = .error (.unknownType owner property target) := by
    rcases checkReferences_eq_error_iff.mp (compile_eq_error_iff.mp h) with htargets | ⟨-, hcircle⟩
    · exact htargets
    · rcases checkCircles_cases schema with ⟨hok, -⟩ | ⟨nodes, hfail, -⟩
      · cases hok.symm.trans hcircle
      · cases hfail.symm.trans hcircle
  rw [checkTargets_eq] at htargets
  cases hfind : schema.occurrences.find? fun occurrence => !schema.has occurrence.target with
  | none =>
      rw [hfind] at htargets
      cases htargets
  | some occurrence =>
      rw [hfind] at htargets
      cases htargets
      rw [occurrences, List.find?_flatMap] at hfind
      obtain ⟨⟨owner, properties⟩, htype, hfind⟩ := List.exists_of_findSome?_eq_some hfind
      obtain ⟨front, path, spec, back, hsplit, hfront, htarget, hunknown, rfl, rfl⟩ :=
        exists_tree_eq_of_find? hfind
      exact ⟨properties, front, _, spec, back, htype, hsplit, hfront, htarget, hunknown, rfl⟩

/-- Where a schema is refused for an unknown type, the property tree of the owner has a spec
that refers to it, the first with a target that is not declared. Compiling these properties
comes to this spec under the text of its path. What is reported, behind the owner and a point,
is the text of what is visible of the path, and so the same text unless the path starts with
an empty key and another key. -/
theorem compile_reports_visible_path {schema : Schema} {owner property target : String}
    (h : schema.compile.outcome = .error (.unknownType owner property target)) :
    ∃ properties front path spec back, (owner, properties) ∈ schema ∧
      properties.tree = front ++ (path, spec) :: back ∧
      (∀ entry ∈ front, ∀ other, entry.2.target? = some other → other ∈ schema.names) ∧
      spec.target? = some target ∧ target ∉ schema.names ∧
      (∀ types : String → StoredPlan, ∃ events plans store',
        Runs (storeProperties (fun name => pure (types name)) owner properties) ⟨0, []⟩ events
          plans store' ∧
        plans.slots.map Slot.site = front.filterMap (Site.of? owner) ++
          ⟨path.text owner, some target⟩ :: back.filterMap (Site.of? owner)) ∧
      owner ++ "." ++ property = path.visible.text owner ∧
      (owner ++ "." ++ property = path.text owner ↔
        ∀ name rest, path ≠ .key "" :: .key name :: rest) := by
  obtain ⟨properties, front, path, spec, back, htype, hsplit, hfront, htarget, hunknown, rfl⟩ :=
    exists_unknown_reference h
  have hpath : owner ++ "." ++ path.reported = path.visible.text owner := by
    have hmem : (path, spec) ∈ properties.tree := by
      rw [hsplit]
      exact List.mem_append_right _ List.mem_cons_self
    obtain ⟨key, rest, rfl⟩ := PropertySet.exists_key_of_mem_tree hmem
    exact PropertyPath.point_append_reported owner key rest
  refine ⟨properties, front, path, spec, back, htype, hsplit, hfront, htarget, hunknown,
    fun types => ?_, hpath, ?_⟩
  · obtain ⟨events, plans, store', hrun⟩ :=
      exists_runs_storeProperties types owner properties ⟨0, []⟩
    refine ⟨events, plans, store', hrun, ?_⟩
    rw [sites_of_runs hrun, PropertySet.sites, hsplit, List.filterMap_append,
      List.filterMap_cons_some (Site.of?_of_target htarget owner path)]
  · rw [hpath]
    exact PropertyPath.text_visible_eq_iff

/-- A reference to an unknown type, in the items of an array behind an empty key. -/
def guests : Schema :=
  [("Order", [("party", .object [("", .array (.named "Guest"))])])]

theorem compile_reports_visible_path_guests :
    guests.compile.outcome = .error (.unknownType "Order" "party.[]" "Guest") ∧
      ∃ properties path spec, ("Order", properties) ∈ guests ∧ (path, spec) ∈ properties.tree ∧
        spec.target? = some "Guest" ∧ "Order" ++ "." ++ "party.[]" = path.text "Order" := by
  have hcompile : guests.compile.outcome = .error (.unknownType "Order" "party.[]" "Guest") :=
    compile_of_checkReferences_error rfl
  obtain ⟨properties, front, path, spec, back, htype, hsplit, -, htarget, -, -, -, hpath⟩ :=
    compile_reports_visible_path hcompile
  have hmem : (path, spec) ∈ properties.tree := by
    rw [hsplit]
    exact List.mem_append_right _ List.mem_cons_self
  refine ⟨hcompile, properties, path, spec, htype, hmem, htarget, hpath.mpr ?_⟩
  rintro name rest rfl
  cases List.mem_singleton.mp htype
  have hparty : ∀ entry ∈ PropertySet.tree [("party", .object [("", .array (.named "Guest"))])],
      entry.1.head? = some (.key "party") := by decide
  have hkey : some (PropertyStep.key "") = some (.key "party") := hparty _ hmem
  revert hkey
  decide

theorem compile_reports_without_empty_key :
    (Schema.compile [("Order", [("", .object [("guest", .named "Guest")])])]).outcome =
        .error (.unknownType "Order" "guest" "Guest") ∧
      (∀ types : String → StoredPlan, ∃ events plans store',
        Runs (storeProperties (fun name => pure (types name)) "Order"
          [("", .object [("guest", .named "Guest")])]) ⟨0, []⟩ events plans store' ∧
        plans.slots.map Slot.site = [⟨"Order.", none⟩, ⟨"Order..guest", some "Guest"⟩]) ∧
      "Order" ++ "." ++ "guest" ≠ "Order..guest" := by
  refine ⟨compile_of_checkReferences_error rfl, fun types => ?_, by decide⟩
  obtain ⟨events, plans, store', hrun⟩ := exists_runs_storeProperties types "Order"
    [("", .object [("guest", .named "Guest")])] ⟨0, []⟩
  refine ⟨events, plans, store', hrun, ?_⟩
  rw [sites_of_runs hrun]
  decide

end Schema

end RecordSchema
