import RecordSchema.Command.Run
import RecordSchema.Files.Tree

/-!
# Actions that only read

Everything a command does before it writes leaves the tree of files as it is:
resolving the configuration, loading the schema and reading the record. Such
actions are `ReadOnly`, and one behind the other they all see the same tree.

Main statements: `Config.resolve_readOnly`, `Schema.load_readOnly` and
`Command.checkData_readOnly`.
-/

namespace RecordSchema

open FileTree

/-- The action leaves every tree as it is. -/
def ReadOnly {α : Type} (action : StateM FileTree α) : Prop :=
  ∀ tree, (action.run tree).2 = tree

variable {working : List String}

namespace ReadOnly

variable {α β : Type}

theorem pure (value : α) : ReadOnly (Pure.pure value) :=
  fun _ => rfl

theorem query (f : FileTree → α) : ReadOnly (FileTree.query f) :=
  fun _ => rfl

theorem isDirectory (path : String) : ReadOnly ((filesystem working).isDirectory path) :=
  query _

theorem isFile (path : String) : ReadOnly ((filesystem working).isFile path) :=
  query _

theorem readText (path : String) : ReadOnly ((filesystem working).readText path) :=
  query _

theorem list (path : String) : ReadOnly ((filesystem working).list path) :=
  query _

/-- What follows an action that only reads starts from the same tree. -/
theorem run_bind {action : StateM FileTree α} (h : ReadOnly action)
    (next : α → StateM FileTree β) (tree : FileTree) :
    (action >>= next).run tree = (next (action.run tree).1).run tree := by
  rw [StateT.run_bind]
  change (next (action.run tree).1).run (action.run tree).2 = _
  rw [h tree]

theorem bind {action : StateM FileTree α} {next : α → StateM FileTree β} (h : ReadOnly action)
    (hnext : ∀ value, ReadOnly (next value)) : ReadOnly (action >>= next) := by
  intro tree
  rw [h.run_bind]
  exact hnext _ tree

theorem bindAction {ε : Type} {first : Logged ε α} {next : α → StateM FileTree (Logged ε β)}
    (hnext : ∀ value, ReadOnly (next value)) : ReadOnly (first.bindAction next) := by
  rw [Logged.bindAction]
  cases first.outcome with
  | error error => exact pure _
  | ok value => exact (hnext value).bind fun _ => pure _

end ReadOnly

namespace Config

theorem load_readOnly (path : String) : ReadOnly (load (filesystem working) path) := by
  refine (ReadOnly.readText path).bind fun found => ?_
  cases found with
  | error error => exact .pure _
  | ok text => exact .pure _

/-- Resolving the configuration only reads. -/
theorem resolve_readOnly (path? : Option String) :
    ReadOnly (resolve (filesystem working) path?) := by
  cases path? with
  | some path => exact load_readOnly path
  | none =>
      refine (ReadOnly.isFile defaultPath).bind fun present => ?_
      cases present with
      | true => exact load_readOnly defaultPath
      | false => exact .pure _

end Config

namespace Schema

theorem loadFile_readOnly (path : String) : ReadOnly (loadFile (filesystem working) path) := by
  refine (ReadOnly.readText path).bind fun found => ?_
  cases found with
  | error error => exact .pure _
  | ok text => exact .pure _

theorem loadFiles_readOnly (paths : List String) (front : Schema) :
    ReadOnly (loadFiles (filesystem working) paths front) := by
  induction paths generalizing front with
  | nil => exact .pure _
  | cons path rest ih => exact (loadFile_readOnly path).bind fun _ => .bindAction ih

theorem loadDirectory_readOnly (directory : String) :
    ReadOnly (loadDirectory (filesystem working) directory) := by
  refine (ReadOnly.list directory).bind fun found => ?_
  cases found with
  | error error => exact .pure _
  | ok names => exact (loadFiles_readOnly _ []).bind fun _ => .pure _

/-- Loading a schema only reads. -/
theorem load_readOnly (path : String) : ReadOnly (load (filesystem working) path) := by
  refine (ReadOnly.isDirectory path).bind fun present => ?_
  cases present with
  | true => exact loadDirectory_readOnly path
  | false => exact loadFile_readOnly path

end Schema

namespace Command

theorem recordText_readOnly {input : StateM FileTree (Except FileError String)}
    (hinput : ReadOnly input) (data : Option String) :
    ReadOnly (recordText (filesystem working) input data) := by
  cases data with
  | some path => exact (ReadOnly.readText path).bind fun _ => .pure _
  | none => exact hinput.bind fun _ => .pure _

/-- Validating a record only reads. -/
theorem checkData_readOnly {input : StateM FileTree (Except FileError String)}
    (hinput : ReadOnly input) (schemaPath typeName : String) (data : Option String)
    (verbose : Bool) :
    ReadOnly (checkData (filesystem working) input schemaPath typeName data verbose) := by
  refine (recordText_readOnly hinput data).bind fun found => ?_
  cases found with
  | error error => exact .pure _
  | ok text =>
      dsimp only
      cases readRecord text with
      | error error => exact .pure _
      | ok record => exact (Schema.load_readOnly schemaPath).bind fun _ => .pure _

end Command

end RecordSchema
