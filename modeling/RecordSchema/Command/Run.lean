import RecordSchema.Command.Arguments
import RecordSchema.Command.Error
import RecordSchema.Json.Printer
import RecordSchema.Plan.Compile
import RecordSchema.Schema.Load
import RecordSchema.Validation.Report

/-!
# Running commands

`generate` writes the code for a schema to a file or to the standard output, and
`check` validates one record against a type of a schema and prints the result.
Both resolve the configuration first. Code is complete before anything is
written, so that a failure before that leaves every file as it was.

Commands act on files through a `Filesystem`, and take the input of the program
as an action, which only a check without a data file carries out.
-/

namespace RecordSchema

/-- What a command has come to: the text on the standard output, an error if it
failed, and the events on the way. -/
structure CommandResult where
  output : String
  error : Option CommandError
  events : List Event

namespace CommandResult

/-- The exit code of the program. -/
def exitCode (result : CommandResult) : UInt32 :=
  if result.error.isSome then 1 else 0

/-- The result of a command that failed without printing, or printed a text and
then failed or not. -/
def ofLogged (logged : Logged CommandError (String × Option CommandError)) : CommandResult :=
  match logged.outcome with
  | .error error => ⟨"", some error, logged.events⟩
  | .ok (output, error) => ⟨output, error, logged.events⟩

end CommandResult

namespace Command

variable {m : Type → Type} [Monad m]

/-- The options of emission: those of the configuration, changed by the command
line. -/
def emitOptions (config : Config) (runtimeCrate : Option String) (noHeader : Bool) :
    EmitOptions :=
  let options := config.emitOptions
  ⟨runtimeCrate.getD options.runtimeCrate, options.header && !noHeader⟩

/-- The code for a schema. -/
def emitSchema (schema : Schema) (options : EmitOptions) : Logged SchemaError String := do
  let compiled ← schema.compile
  Logged.report (.generating compiled.plans.length options.runtimeCrate)
  compiled.emit options

/-- Writes a text to a file, in a directory that is made if it is missing. -/
def saveText (filesystem : Filesystem m) (path text : String) : m (Except FileError Unit) := do
  let parent := Path.parent path
  let present ← filesystem.isDirectory parent
  let taken ← filesystem.isFile parent
  if parent = "" || present || taken then
    filesystem.writeText path text
  else
    match ← filesystem.makeDirectories parent with
    | .error error => return .error error
    | .ok () => filesystem.writeText path text

/-- Writes the code for a schema to a file, or prints it. -/
def writeCode (filesystem : Filesystem m) (schemaPath : String) (out : Option String)
    (options : EmitOptions) : m (Logged CommandError (String × Option CommandError)) := do
  let loaded ← Schema.load filesystem schemaPath
  let emitted := (loaded.bind fun schema => emitSchema schema options).mapError CommandError.schema
  emitted.bindAction fun source => do
    match out with
    | none => return Logged.ok (source, none)
    | some path =>
      match ← saveText filesystem path source with
      | .error error => return Logged.fail (.unwritable path error)
      | .ok () => return do
        Logged.report (.wroteFile path source.utf8ByteSize)
        return ("", none)

/-- The record of a check: the text of the data file, or of the input. -/
def recordText (filesystem : Filesystem m) (input : m (Except FileError String))
    (data : Option String) : m (Except CommandError String) := do
  match data with
  | some path => return (← filesystem.readText path).mapError (.unreadableRecord path)
  | none => return (← input).mapError .unreadableInput

/-- The result of a validation as it is printed, and the error if the record did
not pass. -/
def judge (plan : ObjectPlan) (typeName : String) (record : Json) (verbose : Bool) :
    Json × Option CommandError :=
  match plan.validate record ⟨verbose⟩ with
  | .ok (.valid value) => (value, none)
  | .ok (.report report) =>
    (report.toJson,
      if report.isValid then none else some (.invalidReport typeName report.errors.length))
  | .error error => (error.toJson, some (.invalid error))

/-- Validates a record against a type of a schema. -/
def checkRecord (schema : Schema) (typeName : String) (record : Json) (verbose : Bool) :
    Logged CommandError (String × Option CommandError) := do
  let compiled ← schema.compile.mapError CommandError.schema
  match compiled.get? typeName with
  | none => Logged.fail (.unknownType typeName)
  | some plan => do
    Logged.report (.checking typeName verbose)
    let (output, error) := judge plan typeName record verbose
    return (output.pretty ++ "\n", error)

/-- Validates the record of the data file or of the input. The record is read
before the schema. -/
def checkData (filesystem : Filesystem m) (input : m (Except FileError String))
    (schemaPath typeName : String) (data : Option String) (verbose : Bool) :
    m (Logged CommandError (String × Option CommandError)) := do
  match ← recordText filesystem input data with
  | .error error => return Logged.fail error
  | .ok text =>
    match readRecord text with
    | .error error => return Logged.fail (.record error)
    | .ok record =>
      let loaded ← Schema.load filesystem schemaPath
      return (loaded.mapError CommandError.schema).bind fun schema =>
        checkRecord schema typeName record verbose

/-- Runs a command under a configuration. -/
def run (filesystem : Filesystem m) (input : m (Except FileError String)) (config : Config) :
    Command → m CommandResult
  | .generate schema out runtimeCrate noHeader => do
    let result ← writeCode filesystem schema out (emitOptions config runtimeCrate noHeader)
    return .ofLogged result
  | .check schema typeName data verbose => do
    let result ← checkData filesystem input schema typeName data verbose
    return .ofLogged result

end Command

/-- Runs the command of a command line. -/
def Invocation.run {m : Type → Type} [Monad m] (filesystem : Filesystem m)
    (input : m (Except FileError String)) (invocation : Invocation) : m CommandResult := do
  match ← Config.resolve filesystem invocation.config with
  | .error error => return ⟨"", some (.config error), []⟩
  | .ok config => invocation.command.run filesystem input config

end RecordSchema
