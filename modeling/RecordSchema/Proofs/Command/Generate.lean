import RecordSchema.Proofs.Command.ReadOnly
import RecordSchema.Proofs.Files.Save

/-!
# What commands do to files

A run of a command starts from a tree of files and ends in one. The paths of its
command line are absolute, or start from a working directory. `Command.codeIn` is
the part of a generate run that comes before anything is written: it gives the
code, or the error in resolving the configuration, loading, compiling or emitting.
What happens afterwards depends on its result alone.

Main statement: `Invocation.run_changes_only_output`. Checks, generate runs that
fail before the code is complete, and those that print the code leave the tree
as it is; one that writes the code changes the file it is written to.
-/

namespace RecordSchema

open FileTree

namespace Command

/-- The code that a generate run comes to in a tree of files, or the error before
it is complete. -/
def codeIn (working : List String) (tree : FileTree) (config? : Option String) (schemaPath : String)
    (runtimeCrate : Option String) (noHeader : Bool) : Except CommandError String := do
  let config ← ((Config.resolve (filesystem working) config?).run tree).1.mapError .config
  let schema ← ((Schema.load (filesystem working) schemaPath).run tree).1.outcome.mapError .schema
  let compiled ← schema.compile.outcome.mapError .schema
  (compiled.emit (emitOptions config runtimeCrate noHeader)).outcome.mapError .schema

variable {working : List String}

/-- Going on by an action is running it if there is a result. -/
theorem run_bindAction {ε α β : Type} (first : Logged ε α)
    (next : α → StateM FileTree (Logged ε β)) (tree : FileTree) :
    (first.bindAction next).run tree =
      match first.outcome with
      | .error error => (⟨first.events, .error error⟩, tree)
      | .ok value =>
        (⟨first.events ++ ((next value).run tree).1.events, ((next value).run tree).1.outcome⟩,
          ((next value).run tree).2) := by
  rw [Logged.bindAction]
  cases first.outcome <;> rfl

/-- Writing the code prints or saves what loading, compiling and emitting have
come to. -/
theorem run_writeCode (schemaPath : String) (out : Option String) (options : EmitOptions)
    (tree : FileTree) :
    ∃ events, (writeCode (filesystem working) schemaPath out options).run tree =
      match ((Schema.load (filesystem working) schemaPath).run tree).1.outcome.bind
          fun schema => (emitSchema schema options).outcome with
      | .error error => (⟨events, .error (.schema error)⟩, tree)
      | .ok text =>
        match out with
        | none => (⟨events, .ok (text, none)⟩, tree)
        | some path =>
          match (saveText (filesystem working) path text).run tree with
          | (.error error, after) => (⟨events, .error (.unwritable path error)⟩, after)
          | (.ok (), after) => (⟨events, .ok ("", none)⟩, after) := by
  rw [writeCode, (Schema.load_readOnly schemaPath).run_bind, run_bindAction, Logged.mapError,
    Logged.outcome_bind]
  dsimp only
  generalize ((Schema.load (filesystem working) schemaPath).run tree).1.outcome.bind
    (fun schema => (emitSchema schema options).outcome) = emitted
  cases emitted with
  | error error => exact ⟨_, rfl⟩
  | ok text =>
      cases out with
      | none => exact ⟨_, rfl⟩
      | some path =>
          simp only [Except.mapError_ok, StateT.run_bind]
          cases hsaved : (saveText (filesystem working) path text).run tree with
          | mk saved after =>
              cases saved with
              | error error => exact ⟨_, rfl⟩
              | ok _ => exact ⟨_, rfl⟩

/-- Under a configuration, the code is what loading, compiling and emitting come
to. -/
theorem codeIn_of_resolve {tree : FileTree} {config? : Option String} {config : Config}
    (hresolve : ((Config.resolve (filesystem working) config?).run tree).1 = .ok config)
    (schemaPath : String) (runtimeCrate : Option String) (noHeader : Bool) :
    codeIn working tree config? schemaPath runtimeCrate noHeader =
      (((Schema.load (filesystem working) schemaPath).run tree).1.outcome.bind fun schema =>
        (emitSchema schema (emitOptions config runtimeCrate noHeader)).outcome).mapError
          .schema := by
  rw [codeIn, hresolve]
  cases ((Schema.load (filesystem working) schemaPath).run tree).1.outcome with
  | error error => rfl
  | ok schema =>
      change (schema.compile.outcome.mapError CommandError.schema).bind _ =
        Except.mapError _ (emitSchema schema _).outcome
      rw [emitSchema, Logged.bind_def, Logged.outcome_bind]
      cases schema.compile.outcome <;> rfl

end Command

open Command

namespace Invocation

variable {working : List String}

/-- A generate run does nothing to files before the code is complete, and then
prints it or saves it. -/
theorem run_generate (tree : FileTree) (input : StateM FileTree (Except FileError String))
    (config? : Option String) (logFormat : Option LogFormat) (schemaPath : String)
    (out runtimeCrate : Option String) (noHeader : Bool) :
    ∃ events, (run (filesystem working) input
        ⟨config?, logFormat, .generate schemaPath out runtimeCrate noHeader⟩).run tree =
      match codeIn working tree config? schemaPath runtimeCrate noHeader with
      | .error error => (⟨"", some error, events⟩, tree)
      | .ok text =>
        match out with
        | none => (⟨text, none, events⟩, tree)
        | some path =>
          match (saveText (filesystem working) path text).run tree with
          | (.error error, after) => (⟨"", some (.unwritable path error), events⟩, after)
          | (.ok (), after) => (⟨"", none, events⟩, after) := by
  rw [run, (Config.resolve_readOnly config?).run_bind]
  cases hresolve : ((Config.resolve (filesystem working) config?).run tree).1 with
  | error error =>
      rw [codeIn, hresolve]
      exact ⟨_, rfl⟩
  | ok config =>
      rw [codeIn_of_resolve hresolve]
      obtain ⟨events, hwrite⟩ :=
        run_writeCode schemaPath out (emitOptions config runtimeCrate noHeader) tree
      refine ⟨events, ?_⟩
      simp only [Command.run, StateT.run_bind]
      rw [hwrite]
      generalize ((Schema.load (filesystem working) schemaPath).run tree).1.outcome.bind
        (fun schema => (emitSchema schema _).outcome) = emitted
      cases emitted with
      | error error => rfl
      | ok text =>
          cases out with
          | none => rfl
          | some path =>
              simp only [Except.mapError_ok]
              cases (saveText (filesystem working) path text).run tree with
              | mk saved after => cases saved <;> rfl

/-- A check run only reads. -/
theorem run_check_readOnly (stdin : Except FileError String) (config? : Option String)
    (logFormat : Option LogFormat) (schemaPath typeName : String) (data : Option String)
    (verbose : Bool) :
    ReadOnly (run (filesystem working) (pure stdin)
      ⟨config?, logFormat, .check schemaPath typeName data verbose⟩) := by
  refine (Config.resolve_readOnly config?).bind fun resolved => ?_
  cases resolved with
  | error error => exact .pure _
  | ok config =>
      exact (checkData_readOnly (.pure stdin) schemaPath typeName data verbose).bind
        fun _ => .pure _

/-- From any working directory, a run of a command line changes no file, unless it
is a generate run whose code is complete and is to be written to a file; then it
changes that file to the code, besides making the directories on the way to it, or
makes directories only if the file cannot be written. A generate run prints the
code if it is not to be written, and nothing if it is or if there is none. -/
theorem run_changes_only_output (working : List String) (tree : FileTree)
    (stdin : Except FileError String) (invocation : Invocation) :
    ∃ result after, (invocation.run (filesystem working) (pure stdin)).run tree = (result, after) ∧
      match invocation.command with
      | .check .. => after = tree
      | .generate schemaPath out runtimeCrate noHeader =>
        match codeIn working tree invocation.config schemaPath runtimeCrate noHeader with
        | .error error => result.error = some error ∧ result.output = "" ∧ after = tree
        | .ok text =>
          match out with
          | none => result.error = none ∧ result.output = text ∧ after = tree
          | some path =>
            result.output = "" ∧
              (result.error = none ∧ (∃ place, tree.SavedAt after working path text.toUTF8 place) ∨
                (∃ error, result.error = some (.unwritable path error)) ∧
                  tree.AddsDirectories after (Path.stepsFrom working (Path.parent path))) := by
  obtain ⟨config?, logFormat, command⟩ := invocation
  cases command with
  | check schemaPath typeName data verbose =>
      exact ⟨_, _, rfl, run_check_readOnly stdin config? logFormat schemaPath typeName data
        verbose tree⟩
  | generate schemaPath out runtimeCrate noHeader =>
      obtain ⟨events, hrun⟩ := run_generate tree (pure stdin) config? logFormat schemaPath out
        runtimeCrate noHeader
      dsimp only
      cases hcode : codeIn working tree config? schemaPath runtimeCrate noHeader with
      | error error =>
          rw [hcode] at hrun
          exact ⟨_, _, hrun, rfl, rfl, rfl⟩
      | ok text =>
          rw [hcode] at hrun
          cases out with
          | none => exact ⟨_, _, hrun, rfl, rfl, rfl⟩
          | some path =>
              cases hsave : (saveText (filesystem working) path text).run tree with
              | mk saved after =>
                  simp only [hsave] at hrun
                  cases saved with
                  | error error =>
                      exact ⟨_, _, hrun, rfl,
                        .inr ⟨⟨error, rfl⟩, addsDirectories_of_saveText_error hsave⟩⟩
                  | ok _ =>
                      exact ⟨_, _, hrun, rfl, .inl ⟨rfl, exists_savedAt_of_saveText hsave⟩⟩

end Invocation

end RecordSchema
