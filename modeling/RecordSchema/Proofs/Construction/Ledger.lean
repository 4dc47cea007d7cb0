import RecordSchema.Proofs.Document.Named
import RecordSchema.Schema.Workbench

/-!
# A ledger of additions

Beside a workbench a `Ledger` is kept. It notes what is added to which set and to the schema, and
does not ask whether the addition succeeds; a document adds its members in their order. What is on
the workbench can be told from it: under each name the first addition counts, and the names are in
the order of these. This is `Entries.FirstOf`, which both kinds of additions keep:
`Entries.FirstOf.add` for a new name, `Entries.FirstOf.add_taken` for one that is taken.
-/

namespace RecordSchema

/-! ## First additions -/

theorem eraseDups_concat (names : List String) (name : String) :
    (names ++ [name]).eraseDups =
      if name ∈ names then names.eraseDups else names.eraseDups ++ [name] := by
  rw [List.eraseDups_append, List.removeAll]
  by_cases hmem : name ∈ names <;> simp [hmem, List.eraseDups_cons]

theorem eraseDups_of_nodup {names : List String} (h : names.Nodup) : names.eraseDups = names := by
  induction names with
  | nil => rfl
  | cons name rest ih =>
      rw [List.nodup_cons] at h
      have hothers : rest.filter (fun other => !other == name) = rest := by
        rw [List.filter_eq_self]
        rintro other hother
        simpa using fun heq : other = name => h.1 (heq ▸ hother)
      rw [List.eraseDups_cons, hothers, ih h.2]

/-- The entries are the first ones that were added under each name, in the order in which these
were added. -/
structure Entries.FirstOf {α : Type} (entries added : Entries α) : Prop where
  names : entries.names = added.names.eraseDups
  get? : ∀ name, entries.get? name = added.get? name

namespace Entries

variable {α : Type} {entries added : Entries α} {name : String}

theorem firstOf_self (h : entries.names.Nodup) : entries.FirstOf entries :=
  ⟨(eraseDups_of_nodup h).symm, fun _ => rfl⟩

theorem FirstOf.has_eq (h : entries.FirstOf added) (name : String) :
    added.has name = entries.has name := by
  rw [has, has, h.get?]

theorem FirstOf.mem_iff (h : entries.FirstOf added) :
    name ∈ added.names ↔ name ∈ entries.names := by
  rw [← has_iff_mem_names, ← has_iff_mem_names, h.has_eq]

/-- A new name is added at the end. -/
theorem FirstOf.add (h : entries.FirstOf added) (hname : name ∉ entries.names) (x : α) :
    FirstOf (entries ++ [(name, x)]) (added ++ [(name, x)]) := by
  constructor
  · rw [names_append, names_append]
    change entries.names ++ [name] = (added.names ++ [name]).eraseDups
    rw [eraseDups_concat, if_neg (mt h.mem_iff.mp hname), h.names]
  · intro other
    rw [get?_append, get?_append, h.get?]

/-- What is added under a name that is taken does not count. -/
theorem FirstOf.add_taken (h : entries.FirstOf added) (hname : name ∈ entries.names) (x : α) :
    FirstOf entries (added ++ [(name, x)]) := by
  constructor
  · rw [names_append]
    change entries.names = (added.names ++ [name]).eraseDups
    rw [eraseDups_concat, if_pos (h.mem_iff.mpr hname), h.names]
  · intro other
    rw [get?_append, ← h.get?]
    by_cases hother : other = name
    · obtain ⟨first, hfirst⟩ := exists_get?_of_mem_names hname
      rw [hother, hfirst, Option.some_or]
    · rw [get?_cons, if_neg (Ne.symm hother), get?_nil, Option.or_none]

end Entries

/-! ## Runs -/

/-- The workbench after steps. -/
def Workbench.run (bench : Workbench) : List Step → Workbench
  | [] => bench
  | step :: rest => (bench.step step).1.run rest

/-- What has been added to each set and to the schema, in order. -/
structure Ledger where
  sets : Entries (Entries PropertySpec)
  types : Entries PropertySet

namespace Ledger

/-- A ledger without entries. -/
def empty : Ledger := ⟨[], []⟩

/-- Notes the additions of a set. -/
def putSet (ledger : Ledger) (id : String) (added : Entries PropertySpec) : Ledger :=
  { ledger with sets := ledger.sets.put id added }

/-- Notes the members of a document that is read as a set, if it is. -/
def noteSet {ε : Type} (ledger : Ledger) (id : String) (read : Except ε PropertySet)
    (value : Json) : Ledger :=
  match read with
  | .ok _ => ledger.putSet id (value.described Json.propertySpec)
  | .error _ => ledger

/-- Notes the members of a document that is read as a schema, if it is. -/
def noteSchema {ε : Type} (ledger : Ledger) (read : Except ε Schema) (value : Json) : Ledger :=
  match read with
  | .ok _ => { ledger with types := value.described Json.propertySet }
  | .error _ => ledger

/-- Notes a step. What is inserted is noted even if its name is taken; a set or a schema that is
used up by an addition of this kind is struck out. Types without a name are not noted. -/
def note (ledger : Ledger) (bench : Workbench) : Step → Ledger
  | .newSpec _ _ => ledger
  | .changeSpec _ _ => ledger
  | .readSpec _ _ => ledger
  | .specOfValue _ _ => ledger
  | .newSet id => ledger.putSet id []
  | .readSet id text =>
    ledger.noteSet id (PropertySet.ofText text).outcome (Document.ofText text).written
  | .setOfValue id value => ledger.noteSet id value.propertySet.outcome value
  | .setInsert id name spec =>
    match bench.specs.get? spec, ledger.sets.get? id with
    | some x, some added => ledger.putSet id (added ++ [(name, x)])
    | _, _ => ledger
  | .setWith id name spec =>
    match bench.specs.get? spec, ledger.sets.get? id with
    | some x, some added =>
      if name ∈ added.names then { ledger with sets := ledger.sets.erase id }
      else ledger.putSet id (added ++ [(name, x)])
    | _, _ => ledger
  | .typeInsert name set =>
    match bench.sets.get? set with
    | some x => if name = "" then ledger else { ledger with types := ledger.types ++ [(name, x)] }
    | none => ledger
  | .typeWith name set =>
    match bench.sets.get? set with
    | some x =>
      if name = "" ∨ name ∈ ledger.types.names then { ledger with types := [] }
      else { ledger with types := ledger.types ++ [(name, x)] }
    | none => ledger
  | .readSchema text =>
    ledger.noteSchema (Schema.ofText text).outcome (Document.ofText text).written
  | .schemaOfValue value => ledger.noteSchema (Schema.ofValue value).outcome value

/-- The ledger after steps that are taken from a workbench. -/
def run (ledger : Ledger) (bench : Workbench) : List Step → Ledger
  | [] => ledger
  | step :: rest => (ledger.note bench step).run (bench.step step).1 rest

end Ledger

end RecordSchema
