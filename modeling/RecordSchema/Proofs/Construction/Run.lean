import RecordSchema.Proofs.Construction.Ledger

/-!
# What is under construction

Sets and schemas are built by additions that refuse a name that is taken, and read from documents
by readers that look for repeated names themselves. Whatever the steps are, what is on a workbench
has distinct names, `Workbench.WellFormed`, and its sets and its schema are what the ledger has
noted first, `Workbench.Follows`. A step keeps both, `Workbench.Follows.step`, and so does a run.

Main statement: `Workbench.run_keeps_first`.
-/

namespace RecordSchema

/-! ## Steps -/

namespace Workbench

variable {bench lost : Workbench}

theorem settle_of_ok {α : Type} {attempt : Logged StepError α} {x : α}
    (h : attempt.outcome = .ok x) (keep : α → Workbench × StepResult) :
    settle lost attempt keep = ((keep x).1, ⟨attempt.events, .ok (keep x).2⟩) := by
  rw [settle, h]

theorem settle_of_error {α : Type} {attempt : Logged StepError α} {error : StepError}
    (h : attempt.outcome = .error error) (keep : α → Workbench × StepResult) :
    settle lost attempt keep = (lost, ⟨attempt.events, .error error⟩) := by
  rw [settle, h]

/-- A set is extended if the name is not taken. -/
theorem extendSet_eq (set : PropertySet) (name : String) (spec : PropertySpec) (id : String) :
    (bench.extendSet set name spec id lost).1 =
        (if name ∈ set.names then lost else bench.putSet id (set ++ [(name, spec)])) ∧
      ((∃ error, (bench.extendSet set name spec id lost).2.outcome = .error error) ↔
        name ∈ set.names) := by
  rw [extendSet, PropertySet.insert]
  by_cases hname : name ∈ set.names
  · rw [if_pos (Entries.has_iff_mem_names.mpr hname), if_pos hname]
    exact ⟨rfl, iff_of_true ⟨_, rfl⟩ hname⟩
  · rw [if_neg (mt Entries.has_iff_mem_names.mp hname), if_neg hname]
    exact ⟨rfl, iff_of_false (by rintro ⟨_, ⟨⟩⟩) hname⟩

/-- A schema is extended if the name is neither empty nor taken. -/
theorem extendSchema_eq (name : String) (set : PropertySet) :
    (bench.extendSchema name set lost).1 =
        (if name = "" ∨ name ∈ bench.schema.names then lost
          else { bench with schema := bench.schema ++ [(name, set)] }) ∧
      ((∃ error, (bench.extendSchema name set lost).2.outcome = .error error) ↔
        name = "" ∨ name ∈ bench.schema.names) := by
  rw [extendSchema, Schema.insert]
  by_cases hempty : name = ""
  · rw [if_pos hempty, if_pos (.inl hempty)]
    exact ⟨rfl, iff_of_true ⟨_, rfl⟩ (.inl hempty)⟩
  rw [if_neg hempty]
  by_cases hname : name ∈ bench.schema.names
  · rw [if_pos (Entries.has_iff_mem_names.mpr hname), if_pos (.inr hname)]
    exact ⟨rfl, iff_of_true ⟨_, rfl⟩ (.inr hname)⟩
  · have hneither : ¬(name = "" ∨ name ∈ bench.schema.names) := not_or.mpr ⟨hempty, hname⟩
    rw [if_neg (mt Entries.has_iff_mem_names.mp hname), if_neg hneither]
    exact ⟨rfl, iff_of_false (by rintro ⟨_, ⟨⟩⟩) hneither⟩

end Workbench

/-! ## What steps keep -/

theorem SpecChange.distinct_apply {spec : PropertySpec} (h : spec.type.Distinct) :
    ∀ change : SpecChange, (change.apply spec).type.Distinct
  | .optional => h
  | .transform _ => h
  | .minLength length => by
      obtain ⟨type, required, transforms⟩ := spec
      cases type with
      | string _ start => exact .string (some length) start
      | array _ items => exact .array (PropertyType.distinct_array_iff.mp h)
      | _ => exact h
  | .startsWith start => by
      obtain ⟨type, required, transforms⟩ := spec
      cases type with
      | string minLength _ => exact .string minLength (some start)
      | _ => exact h
  | .isInteger => by
      obtain ⟨type, required, transforms⟩ := spec
      cases type with
      | number _ => exact .number true
      | _ => exact h

namespace Schema

theorem wellNamed_nil : WellNamed [] :=
  ⟨List.nodup_nil, List.not_mem_nil, distinct_nil⟩

theorem WellNamed.add {schema : Schema} (h : schema.WellNamed) {name : String} {set : PropertySet}
    (hname : ¬(name = "" ∨ name ∈ schema.names)) (hset : PropertySet.Distinct set) :
    WellNamed (schema ++ [(name, set)]) := by
  obtain ⟨hempty, hfresh⟩ := not_or.mp hname
  have hnames : Entries.names (schema ++ [(name, set)]) = schema.names ++ [name] :=
    Entries.names_append schema [(name, set)]
  refine ⟨?_, ?_, ?_⟩
  · rw [hnames, List.nodup_append]
    refine ⟨h.nodup, List.nodup_singleton name, fun other hother _ hmem heq => hfresh ?_⟩
    rwa [← List.mem_singleton.mp hmem, ← heq]
  · rw [hnames, List.mem_append, List.mem_singleton]
    exact not_or.mpr ⟨h.nonempty, Ne.symm hempty⟩
  · have hinsert : schema.insert name set = .ok (schema ++ [(name, set)]) := by
      rw [insert, if_neg hempty, if_neg (mt Entries.has_iff_mem_names.mp hfresh)]
    exact h.distinct.insert hset hinsert

end Schema

namespace Workbench

/-- What is on the workbench has distinct names, and the types have names. -/
structure WellFormed (bench : Workbench) : Prop where
  specs : ∀ id spec, bench.specs.get? id = some spec → spec.type.Distinct
  sets : ∀ id set, bench.sets.get? id = some set → PropertySet.Distinct set
  schema : bench.schema.WellNamed

/-- The workbench is well formed, and its sets and its schema are what has been added to them
first. -/
structure Follows (bench : Workbench) (ledger : Ledger) : Prop where
  wellFormed : bench.WellFormed
  sets : ∀ id, Option.Rel Entries.FirstOf (bench.sets.get? id) (ledger.sets.get? id)
  schema : bench.schema.FirstOf ledger.types

theorem follows_empty : empty.Follows Ledger.empty :=
  ⟨⟨fun _ _ h => (nomatch h), fun _ _ h => (nomatch h), Schema.wellNamed_nil⟩,
    fun _ => .none, Entries.firstOf_self List.nodup_nil⟩

section Follows

variable {bench : Workbench} {ledger : Ledger} {id name : String}

theorem Follows.putSpec (h : bench.Follows ledger) {spec : PropertySpec}
    (hspec : spec.type.Distinct) : (bench.putSpec id spec).Follows ledger := by
  refine ⟨⟨fun other found hget => ?_, h.wellFormed.sets, h.wellFormed.schema⟩, h.sets, h.schema⟩
  rw [Workbench.putSpec, Entries.get?_put] at hget
  split at hget
  · cases hget
    exact hspec
  · exact h.wellFormed.specs other found hget

theorem Follows.putSet (h : bench.Follows ledger) {set : PropertySet}
    {added : Entries PropertySpec} (hset : set.Distinct) (hfirst : Entries.FirstOf set added) :
    (bench.putSet id set).Follows (ledger.putSet id added) := by
  refine ⟨⟨h.wellFormed.specs, fun other found hget => ?_, h.wellFormed.schema⟩,
    fun other => ?_, h.schema⟩
  · rw [Workbench.putSet, Entries.get?_put] at hget
    split at hget
    · cases hget
      exact hset
    · exact h.wellFormed.sets other found hget
  · rw [Workbench.putSet, Ledger.putSet, Entries.get?_put, Entries.get?_put]
    split
    · exact .some hfirst
    · exact h.sets other

/-- More may be noted of a set that is there. -/
theorem Follows.noteSet (h : bench.Follows ledger) {set : PropertySet}
    {added : Entries PropertySpec} (hset : bench.sets.get? id = some set)
    (hfirst : Entries.FirstOf set added) : bench.Follows (ledger.putSet id added) := by
  have hput : bench.putSet id set = bench := by rw [Workbench.putSet, Entries.put_eq_self hset]
  have hfollows : (bench.putSet id set).Follows (ledger.putSet id added) :=
    h.putSet (h.wellFormed.sets id set hset) hfirst
  rwa [hput] at hfollows

theorem Follows.eraseSet (h : bench.Follows ledger) (id : String) :
    Follows { bench with sets := bench.sets.erase id }
      { ledger with sets := ledger.sets.erase id } := by
  refine ⟨⟨h.wellFormed.specs, fun other found hget => ?_, h.wellFormed.schema⟩,
    fun other => ?_, h.schema⟩
  · by_cases hother : other = id
    · rw [hother, Entries.get?_erase_self] at hget
      cases hget
    · rw [Entries.get?_erase_of_ne hother] at hget
      exact h.wellFormed.sets other found hget
  · by_cases hother : other = id
    · rw [hother, Entries.get?_erase_self, Entries.get?_erase_self]
      exact .none
    · rw [Entries.get?_erase_of_ne hother, Entries.get?_erase_of_ne hother]
      exact h.sets other

theorem Follows.putSchema (h : bench.Follows ledger) {schema : Schema}
    {added : Entries PropertySet} (hschema : schema.WellNamed)
    (hfirst : Entries.FirstOf schema added) :
    Follows { bench with schema := schema } { ledger with types := added } :=
  ⟨⟨h.wellFormed.specs, h.wellFormed.sets, hschema⟩, h.sets, hfirst⟩

/-- What holds of the workbench that is lost and of those that are kept holds of the one that is
left. -/
theorem settle_holds {α : Type} {P : Workbench → Prop} {lost : Workbench}
    {attempt : Logged StepError α} {keep : α → Workbench × StepResult} (hlost : P lost)
    (hkeep : ∀ x, attempt.outcome = .ok x → P (keep x).1) : P (settle lost attempt keep).1 := by
  cases houtcome : attempt.outcome with
  | error error =>
      rw [settle_of_error houtcome]
      exact hlost
  | ok x =>
      rw [settle_of_ok houtcome]
      exact hkeep x houtcome

theorem spec?_eq_ok_iff {spec : PropertySpec} :
    bench.spec? id = .ok spec ↔ bench.specs.get? id = some spec := by
  rw [spec?]
  cases bench.specs.get? id <;> simp

theorem set?_eq_ok_iff {set : PropertySet} :
    bench.set? id = .ok set ↔ bench.sets.get? id = some set := by
  rw [set?]
  cases bench.sets.get? id <;> simp

theorem WellFormed.build (h : bench.WellFormed) {base : SpecBase} {spec : PropertySpec}
    (hbuild : bench.build base = .ok spec) : spec.type.Distinct := by
  cases base with
  | string =>
      cases hbuild
      exact .string none none
  | number =>
      cases hbuild
      exact .number false
  | boolean =>
      cases hbuild
      exact .boolean
  | object id =>
      obtain ⟨set, hset, rfl⟩ := Except.map_eq_ok_iff.mp hbuild
      exact PropertyType.distinct_object_iff.mpr (h.sets id set (set?_eq_ok_iff.mp hset))
  | array id =>
      obtain ⟨items, hitems, rfl⟩ := Except.map_eq_ok_iff.mp hbuild
      exact .array (h.specs id items (spec?_eq_ok_iff.mp hitems))
  | named target =>
      cases hbuild
      exact .named target

/-- A property that is made by a step and kept has distinct names. -/
theorem Follows.settleSpec (h : bench.Follows ledger) {attempt : Logged StepError PropertySpec}
    (f : PropertySpec → PropertySpec)
    (hspec : ∀ spec, attempt.outcome = .ok spec → (f spec).type.Distinct) :
    (settle bench attempt fun spec => (bench.putSpec id (f spec), .spec (f spec))).1.Follows
      ledger :=
  settle_holds (P := fun bench => bench.Follows ledger) h fun spec houtcome =>
    h.putSpec (hspec spec houtcome)

/-- A document that is read as a set is noted with what it describes. -/
theorem Follows.settleSet (h : bench.Follows ledger) {ε : Type} {read : Logged ε PropertySet}
    {value : Json} (hread : ∀ set, read.outcome = .ok set → value.propertySet.outcome = .ok set)
    (f : ε → StepError) :
    (settle bench (read.mapError f) fun set => (bench.putSet id set, .set set)).1.Follows
      (ledger.noteSet id read.outcome value) := by
  cases houtcome : read.outcome with
  | error error =>
      have hattempt : (read.mapError f).outcome = .error (f error) := by
        rw [Logged.mapError, houtcome]
        rfl
      rw [settle_of_error hattempt]
      exact h
  | ok set =>
      have hset := hread set houtcome
      have hdistinct := Json.distinct_of_propertySet hset
      rw [settle_of_ok (Except.mapError_eq_ok_iff.mpr houtcome), Ledger.noteSet,
        Json.described_of_propertySet hset]
      exact h.putSet hdistinct (Entries.firstOf_self hdistinct.nodup)

/-- A document that is read as a schema is noted with what it describes. -/
theorem Follows.settleSchema (h : bench.Follows ledger) {read : Logged SchemaError Schema}
    {value : Json} (hread : ∀ schema, read.outcome = .ok schema →
      (Schema.ofValue value).outcome = .ok schema) :
    (settle bench (read.mapError .refused) fun schema =>
        ({ bench with schema := schema }, .schema schema)).1.Follows
      (ledger.noteSchema read.outcome value) := by
  cases houtcome : read.outcome with
  | error error =>
      have hattempt : (read.mapError StepError.refused).outcome = .error (.refused error) := by
        rw [Logged.mapError, houtcome]
        rfl
      rw [settle_of_error hattempt]
      exact h
  | ok schema =>
      have hschema := hread schema houtcome
      have hnamed := Schema.wellNamed_of_ofValue hschema
      rw [settle_of_ok (Except.mapError_eq_ok_iff.mpr houtcome), Ledger.noteSchema,
        Schema.described_of_ofValue hschema]
      exact h.putSchema hnamed (Entries.firstOf_self hnamed.nodup)

/-- A set that is extended is noted with the new property. -/
theorem Follows.add (h : bench.Follows ledger) {set : PropertySet}
    {added : Entries PropertySpec} {spec : PropertySpec} (hset : set.Distinct)
    (hfirst : Entries.FirstOf set added) (hspec : spec.type.Distinct) (hname : name ∉ set.names) :
    (bench.putSet id (set ++ [(name, spec)])).Follows
      (ledger.putSet id (added ++ [(name, spec)])) := by
  have hinsert : set.insert name spec = .ok (set ++ [(name, spec)]) := by
    rw [PropertySet.insert, if_neg (mt Entries.has_iff_mem_names.mp hname)]
  exact h.putSet (hset.insert hspec hinsert) (hfirst.add hname spec)

/-- A schema that is extended is noted with the new type. -/
theorem Follows.declare (h : bench.Follows ledger) {set : PropertySet} (hset : set.Distinct)
    (hname : ¬(name = "" ∨ name ∈ bench.schema.names)) :
    Follows { bench with schema := bench.schema ++ [(name, set)] }
      { ledger with types := ledger.types ++ [(name, set)] } :=
  h.putSchema (h.wellFormed.schema.add hname hset) (h.schema.add (not_or.mp hname).2 set)

/-- A set is on the workbench if it is in the ledger. -/
theorem Follows.set_cases (h : bench.Follows ledger) (id : String) :
    (bench.sets.get? id = none ∧ ledger.sets.get? id = none) ∨
      ∃ set added, bench.sets.get? id = some set ∧ ledger.sets.get? id = some added ∧
        Entries.FirstOf set added := by
  have hsets := h.sets id
  cases hset : bench.sets.get? id with
  | none =>
      rw [hset] at hsets
      cases hadded : ledger.sets.get? id with
      | none => exact .inl ⟨rfl, rfl⟩
      | some added =>
          rw [hadded] at hsets
          cases hsets
  | some set =>
      rw [hset] at hsets
      cases hadded : ledger.sets.get? id with
      | none =>
          rw [hadded] at hsets
          cases hsets
      | some added =>
          rw [hadded] at hsets
          cases hsets with
          | some hfirst => exact .inr ⟨set, added, rfl, rfl, hfirst⟩

theorem step_setInsert {x : PropertySpec} {set : PropertySet} {spec : String}
    (hspec : bench.specs.get? spec = some x) (hset : bench.sets.get? id = some set)
    (name : String) :
    bench.step (.setInsert id name spec) = bench.extendSet set name x id bench := by
  rw [step, spec?_eq_ok_iff.mpr hspec, set?_eq_ok_iff.mpr hset]

theorem step_setWith {x : PropertySpec} {set : PropertySet} {spec : String}
    (hspec : bench.specs.get? spec = some x) (hset : bench.sets.get? id = some set)
    (name : String) :
    bench.step (.setWith id name spec) =
      bench.extendSet set name x id { bench with sets := bench.sets.erase id } := by
  rw [step, spec?_eq_ok_iff.mpr hspec, set?_eq_ok_iff.mpr hset]

theorem step_typeInsert {set : PropertySet} (hset : bench.sets.get? id = some set)
    (name : String) : bench.step (.typeInsert name id) = bench.extendSchema name set bench := by
  rw [step, set?_eq_ok_iff.mpr hset]

theorem step_typeWith {set : PropertySet} (hset : bench.sets.get? id = some set)
    (name : String) :
    bench.step (.typeWith name id) =
      bench.extendSchema name set { bench with schema := [] } := by
  rw [step, set?_eq_ok_iff.mpr hset]

theorem Follows.setInsert (h : bench.Follows ledger) (id name spec : String) :
    (bench.step (.setInsert id name spec)).1.Follows
      (ledger.note bench (.setInsert id name spec)) := by
  cases hspec : bench.specs.get? spec with
  | none =>
      rw [step, spec?, hspec, Ledger.note, hspec]
      exact h
  | some x =>
      obtain ⟨hset, hadded⟩ | ⟨set, added, hset, hadded, hfirst⟩ := h.set_cases id
      · rw [step, spec?, hspec, set?, hset, Ledger.note, hspec, hadded]
        exact h
      · rw [step_setInsert hspec hset, (extendSet_eq set name x id).1, Ledger.note, hspec, hadded]
        dsimp only
        split
        · next hname => exact h.noteSet hset (hfirst.add_taken hname x)
        · next hname =>
          exact h.add (h.wellFormed.sets id set hset) hfirst (h.wellFormed.specs spec x hspec) hname

theorem Follows.setWith (h : bench.Follows ledger) (id name spec : String) :
    (bench.step (.setWith id name spec)).1.Follows
      (ledger.note bench (.setWith id name spec)) := by
  cases hspec : bench.specs.get? spec with
  | none =>
      rw [step, spec?, hspec, Ledger.note, hspec]
      exact h
  | some x =>
      obtain ⟨hset, hadded⟩ | ⟨set, added, hset, hadded, hfirst⟩ := h.set_cases id
      · rw [step, spec?, hspec, set?, hset, Ledger.note, hspec, hadded]
        exact h
      · rw [step_setWith hspec hset, (extendSet_eq set name x id).1, Ledger.note, hspec, hadded]
        simp only [hfirst.mem_iff]
        split
        · exact h.eraseSet id
        · next hname =>
          exact h.add (h.wellFormed.sets id set hset) hfirst (h.wellFormed.specs spec x hspec) hname

theorem Follows.typeInsert (h : bench.Follows ledger) (name id : String) :
    (bench.step (.typeInsert name id)).1.Follows (ledger.note bench (.typeInsert name id)) := by
  cases hset : bench.sets.get? id with
  | none =>
      rw [step, set?, hset, Ledger.note, hset]
      exact h
  | some set =>
      rw [step_typeInsert hset, (extendSchema_eq name set).1, Ledger.note, hset]
      dsimp only
      by_cases hempty : name = ""
      · rw [if_pos hempty, if_pos (.inl hempty)]
        exact h
      rw [if_neg hempty]
      split
      · next hname =>
        have htaken := hname.resolve_left hempty
        exact ⟨h.wellFormed, h.sets, h.schema.add_taken htaken set⟩
      · next hname => exact h.declare (h.wellFormed.sets id set hset) hname

theorem Follows.typeWith (h : bench.Follows ledger) (name id : String) :
    (bench.step (.typeWith name id)).1.Follows (ledger.note bench (.typeWith name id)) := by
  cases hset : bench.sets.get? id with
  | none =>
      rw [step, set?, hset, Ledger.note, hset]
      exact h
  | some set =>
      rw [step_typeWith hset, (extendSchema_eq name set).1, Ledger.note, hset]
      simp only [h.schema.mem_iff]
      split
      · exact h.putSchema Schema.wellNamed_nil (Entries.firstOf_self List.nodup_nil)
      · next hname => exact h.declare (h.wellFormed.sets id set hset) hname

/-- A step keeps the workbench well formed, and what is on it is what has been noted first. -/
theorem Follows.step (h : bench.Follows ledger) (step : Step) :
    (bench.step step).1.Follows (ledger.note bench step) := by
  cases step with
  | newSpec id base => exact h.settleSpec (fun spec => spec) fun _ => h.wellFormed.build
  | changeSpec id change =>
      refine h.settleSpec (fun spec => change.apply spec) fun spec hspec => ?_
      exact change.distinct_apply (h.wellFormed.specs id spec (spec?_eq_ok_iff.mp hspec))
  | readSpec id text =>
      refine h.settleSpec (fun spec => spec) fun spec hspec => ?_
      have hread := Except.mapError_eq_ok_iff.mp hspec
      exact Json.distinct_of_propertySpec ((PropertySpec.ofText_matchedBy text).outcome_eq hread)
  | specOfValue id value =>
      refine h.settleSpec (fun spec => spec) fun spec hspec => ?_
      exact Json.distinct_of_propertySpec (Except.mapError_eq_ok_iff.mp hspec)
  | newSet id => exact h.putSet PropertySet.distinct_nil (Entries.firstOf_self List.nodup_nil)
  | readSet id text =>
      exact h.settleSet (fun _ => (PropertySet.ofText_matchedBy text).outcome_eq) .unreadable
  | setOfValue id value => exact h.settleSet (fun _ hset => hset) unreadableValue
  | setInsert id name spec => exact h.setInsert id name spec
  | setWith id name spec => exact h.setWith id name spec
  | typeInsert name set => exact h.typeInsert name set
  | typeWith name set => exact h.typeWith name set
  | readSchema text => exact h.settleSchema fun _ => (Schema.ofText_matchedBy text).outcome_eq
  | schemaOfValue value => exact h.settleSchema fun _ hschema => hschema

/-- A run of steps does so as well. -/
theorem Follows.run (h : bench.Follows ledger) (steps : List Step) :
    (bench.run steps).Follows (ledger.run bench steps) := by
  induction steps generalizing bench ledger with
  | nil => exact h
  | cons step rest ih => exact ih (h.step step)

end Follows

/-- Whatever steps have been taken from an empty workbench, the properties, the sets and the types
on it have distinct names at every depth, and the types have names. The names of a set and of the
schema are in the order in which they were first added, and what is found under a name is what was
added under it first. An addition fails just if the name is taken or, for a type, empty; an
insertion that fails leaves everything as it was. -/
theorem run_keeps_first {steps : List Step} {bench : Workbench} (h : empty.run steps = bench) :
    bench.WellFormed ∧ bench.Follows (Ledger.empty.run empty steps) ∧
    (∀ id name spec x set, bench.specs.get? spec = some x → bench.sets.get? id = some set →
      (∀ step ∈ [Step.setInsert id name spec, .setWith id name spec],
        (∃ error, (bench.step step).2.outcome = .error error) ↔ name ∈ set.names) ∧
      (name ∈ set.names → (bench.step (.setInsert id name spec)).1 = bench)) ∧
    ∀ id name set, bench.sets.get? id = some set →
      (∀ step ∈ [Step.typeInsert name id, .typeWith name id],
        (∃ error, (bench.step step).2.outcome = .error error) ↔
          name = "" ∨ name ∈ bench.schema.names) ∧
      (name = "" ∨ name ∈ bench.schema.names → (bench.step (.typeInsert name id)).1 = bench) := by
  have hfollows : bench.Follows (Ledger.empty.run empty steps) := h ▸ follows_empty.run steps
  refine ⟨hfollows.wellFormed, hfollows, fun id name spec x set hspec hset => ⟨?_, fun hname => ?_⟩,
    fun id name set hset => ⟨?_, fun hname => ?_⟩⟩
  · refine List.forall_mem_cons.mpr ⟨?_, List.forall_mem_singleton.mpr ?_⟩
    · exact step_setInsert hspec hset name ▸ (extendSet_eq set name x id).2
    · exact step_setWith hspec hset name ▸ (extendSet_eq set name x id).2
  · rw [step_setInsert hspec hset, (extendSet_eq set name x id).1, if_pos hname]
  · refine List.forall_mem_cons.mpr ⟨?_, List.forall_mem_singleton.mpr ?_⟩
    · exact step_typeInsert hset name ▸ (extendSchema_eq name set).2
    · exact step_typeWith hset name ▸ (extendSchema_eq name set).2
  · rw [step_typeInsert hset, (extendSchema_eq name set).1, if_pos hname]

/-- A set of two properties, the first of which is added once more, and a type that is read from a
document in front of the type of this set. -/
def additions : List Step :=
  [.schemaOfValue (.object [("Item", .object [("tag", .object [("type", .string "string")])])]),
    .newSpec "word" .string, .newSpec "amount" .number, .newSet "order",
    .setInsert "order" "note" "word", .setInsert "order" "note" "amount",
    .setWith "order" "total" "amount", .typeInsert "" "order", .typeInsert "Order" "order",
    .typeInsert "Item" "order"]

theorem run_keeps_first_additions :
    ∃ bench set, empty.run additions = bench ∧ bench.sets.get? "order" = some set ∧
      bench.WellFormed ∧ set.names = ["note", "total"] ∧
      set.get? "note" = some PropertySpec.string ∧ bench.schema.names = ["Item", "Order"] ∧
      bench.schema.get? "Item" = some [("tag", .string)] ∧
      (bench.step (.setInsert "order" "total" "word")).1 = bench ∧
      (bench.step (.typeInsert "" "order")).1 = bench := by
  obtain ⟨hformed, hfollows, hsets, htypes⟩ := run_keeps_first (Eq.refl (empty.run additions))
  have hset : (empty.run additions).sets.get? "order" =
      some [("note", .string), ("total", .number)] := rfl
  have hword : (empty.run additions).specs.get? "word" = some PropertySpec.string := rfl
  have hfirst := hfollows.schema
  refine ⟨_, _, rfl, hset, hformed, rfl, rfl, hfirst.names, (hfirst.get? "Item").trans rfl, ?_, ?_⟩
  · exact (hsets "order" "total" "word" _ _ hword hset).2 (by decide)
  · exact (htypes "order" "" _ hset).2 (.inl rfl)

end Workbench

end RecordSchema
