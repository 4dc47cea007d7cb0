import RecordSchema.Command.Config

/-!
# Arguments

A command line consists of options and of the name of a command, behind which
the options of the command stand. An option starts with two hyphens and takes
its value from behind an equals sign or from the next argument; a switch takes
none. The options for the configuration and the log format may stand on either
side of the command's name.

The line is read from left to right. A value is looked at when the next option
is met or the line ends, and the command's part is complete before the values in
front of it are looked at; so of several mistakes the one that is met first in
this order is reported.
-/

namespace RecordSchema

/-- A reason why a command line is not carried out. Asking for help or for the
version is among them. -/
inductive UsageError where
  | displayHelp
  | displayVersion
  | displayHelpOnMissingArgumentOrSubcommand
  | missingSubcommand
  | missingRequiredArgument
  | unknownArgument
  | invalidSubcommand
  /-- A value that is not allowed, or none where one is needed. -/
  | invalidValue
  /-- A value for a switch. -/
  | tooManyValues
  /-- An option that is given twice. -/
  | argumentConflict
  deriving DecidableEq

namespace UsageError

/-- The name of a reason. -/
def name : UsageError → String
  | displayHelp => "DisplayHelp"
  | displayVersion => "DisplayVersion"
  | displayHelpOnMissingArgumentOrSubcommand => "DisplayHelpOnMissingArgumentOrSubcommand"
  | missingSubcommand => "MissingSubcommand"
  | missingRequiredArgument => "MissingRequiredArgument"
  | unknownArgument => "UnknownArgument"
  | invalidSubcommand => "InvalidSubcommand"
  | invalidValue => "InvalidValue"
  | tooManyValues => "TooManyValues"
  | argumentConflict => "ArgumentConflict"

/-- The exit code of a command line that is not carried out: asking is no
mistake. -/
def exitCode : UsageError → UInt32
  | displayHelp => 0
  | displayVersion => 0
  | _ => 2

end UsageError

namespace Arguments

/-- What an option stands for. -/
inductive OptionKind where
  /-- Takes a path, which must not be empty. -/
  | path
  /-- Takes any text. -/
  | text
  /-- Takes one of some names. -/
  | choice (names : List String)
  /-- Takes nothing. -/
  | switch
  | help
  | version

/-- An option: its long name, its letter if it has one, and its kind. -/
structure OptionSpec where
  name : String
  letter : Option Char
  kind : OptionKind

/-- Whether an option takes a value. -/
def OptionSpec.takesValue (option : OptionSpec) : Bool :=
  match option.kind with
  | .path => true
  | .text => true
  | .choice _ => true
  | _ => false

/-- Whether an option allows a value. -/
def OptionSpec.allows (option : OptionSpec) (value : String) : Bool :=
  match option.kind with
  | .path => value != ""
  | .choice names => names.contains value
  | _ => true

/-- What may stand at one place of a command line: options, and the names of
commands. -/
structure Level where
  options : List OptionSpec
  commands : List String

/-- The options that may stand on either side of the command's name. -/
def globalOptions : List OptionSpec :=
  [⟨"config", none, .path⟩, ⟨"log-format", none, .choice LogFormat.names⟩,
    ⟨"help", some 'h', .help⟩]

/-- What may stand in front of the command's name. -/
def topLevel : Level where
  options := globalOptions ++ [⟨"version", some 'V', .version⟩]
  commands := ["generate", "check", "help"]

/-- What may stand behind `generate`. -/
def generateLevel : Level where
  options := globalOptions ++ [⟨"schema", none, .path⟩, ⟨"out", none, .path⟩,
    ⟨"runtime-crate", none, .text⟩, ⟨"no-header", none, .switch⟩]
  commands := []

/-- What may stand behind `check`. -/
def checkLevel : Level where
  options := globalOptions ++ [⟨"schema", none, .path⟩, ⟨"type", none, .text⟩,
    ⟨"data", none, .path⟩, ⟨"verbose", none, .switch⟩]
  commands := []

/-- What has been read: the values that have been looked at, the option that has
been met last, with its value if that has been met too, and whether all
arguments to come are no options. -/
structure Scan where
  given : List (String × String)
  pending : Option (OptionSpec × Option String)
  trailing : Bool

/-- Nothing has been read. -/
def Scan.start : Scan := ⟨[], none, false⟩

namespace Scan

/-- Whether the next argument is the value of an option. -/
def isWaiting (scan : Scan) : Bool :=
  match scan.pending with
  | some (_, none) => true
  | _ => false

/-- Takes in an option with its value. -/
def accept (scan : Scan) (option : OptionSpec) (value : String) : Except UsageError Scan :=
  if (scan.given.lookup option.name).isSome then
    .error .argumentConflict
  else if option.allows value then
    .ok { scan with given := scan.given ++ [(option.name, value)], pending := none }
  else
    .error .invalidValue

/-- Looks at the value of the option that has been met last. -/
def resolve (scan : Scan) : Except UsageError Scan :=
  match scan.pending with
  | none => .ok scan
  | some (_, none) => .error .invalidValue
  | some (option, some value) => accept { scan with pending := none } option value

/-- Meets an option without an equals sign. -/
def meet (scan : Scan) (option : OptionSpec) : Except UsageError Scan := do
  let scan ← scan.resolve
  match option.kind with
  | .help => .error .displayHelp
  | .version => .error .displayVersion
  | .switch => scan.accept option "true"
  | _ => .ok { scan with pending := some (option, none) }

/-- Meets an option with a value behind an equals sign. -/
def meetWith (scan : Scan) (option : OptionSpec) (value : String) : Except UsageError Scan :=
  if option.takesValue then do
    let scan ← scan.resolve
    scan.accept option value
  else
    .error .tooManyValues

end Scan

/-- What an argument looks like. -/
inductive Shape where
  /-- Two hyphens: no options follow. -/
  | ending
  | long (name : String) (value : Option String)
  | letters (first : Char)
  | plain

/-- The shape of an argument. A single hyphen is no option. -/
def shape (argument : String) : Shape :=
  match argument.toList with
  | ['-', '-'] => .ending
  | '-' :: '-' :: rest =>
    let name := rest.takeWhile (· != '=')
    match rest.drop name.length with
    | [] => .long (String.ofList name) none
    | _ :: value => .long (String.ofList name) (some (String.ofList value))
  | '-' :: letter :: _ => .letters letter
  | _ => .plain

/-- The error of an argument that is neither an option nor a value nor, in front
of them, a command. -/
def Level.misfit (level : Level) (scan : Scan) (argument : String) : UsageError :=
  if level.commands.isEmpty then .unknownArgument
  else if scan.trailing && level.commands.contains argument then .unknownArgument
  else .invalidSubcommand

/-- Reads arguments up to the end or to the name of a command. -/
def Level.read (level : Level) :
    List String → Scan → Except UsageError (Scan × Option (String × List String))
  | [], scan => .ok (scan, none)
  | argument :: rest, scan =>
    if scan.trailing then
      .error (level.misfit scan argument)
    else if !scan.isWaiting && level.commands.contains argument then
      .ok (scan, some (argument, rest))
    else
      match shape argument with
      | .ending => level.read rest { scan with trailing := true }
      | .long name value? =>
        match level.options.find? fun option => option.name == name with
        | none => .error .unknownArgument
        | some option =>
          match value? with
          | none => do level.read rest (← scan.meet option)
          | some value => do level.read rest (← scan.meetWith option value)
      | .letters letter =>
        match level.options.find? fun option => option.letter == some letter with
        | none => .error .unknownArgument
        | some option => do level.read rest (← scan.meet option)
      | .plain =>
        match scan.pending with
        | some (option, none) =>
          level.read rest { scan with pending := some (option, some argument) }
        | _ => .error (level.misfit scan argument)

/-- Asking for help with the given commands: the one name of a command at most. -/
def helpOutcome : List String → UsageError
  | [] => .displayHelp
  | [command] =>
    if topLevel.commands.contains command then .displayHelp else .invalidSubcommand
  | _ :: _ :: _ => .invalidSubcommand

/-- Reads the part behind a command's name, in which all of `required` must be
given. -/
def readCommand (level : Level) (required : List String) (arguments : List String) :
    Except UsageError (List (String × String)) := do
  let (scan, _) ← level.read arguments .start
  let scan ← scan.resolve
  if required.all fun name => (scan.given.lookup name).isSome then
    return scan.given
  else
    .error .missingRequiredArgument

end Arguments

/-- A command with its options. -/
inductive Command where
  | generate (schema : String) (out : Option String) (runtimeCrate : Option String)
      (noHeader : Bool)
  | check (schema : String) (typeName : String) (data : Option String) (verbose : Bool)

/-- A command line: a command, and the options that do not depend on it. -/
structure Invocation where
  config : Option String
  logFormat : Option LogFormat
  command : Command

/-- The command of a name with its options. -/
def Command.ofOptions (name : String) (given : List (String × String)) : Command :=
  let schema := (given.lookup "schema").getD ""
  if name = "generate" then
    .generate schema (given.lookup "out") (given.lookup "runtime-crate")
      (given.lookup "no-header").isSome
  else
    .check schema ((given.lookup "type").getD "") (given.lookup "data")
      (given.lookup "verbose").isSome

namespace Invocation

open Arguments

/-- Reads a command line. An option that is given on both sides of the command's
name has the value behind it. -/
def ofArguments (arguments : List String) : Except UsageError Invocation := do
  let (front, command?) ← topLevel.read arguments .start
  match command? with
  | none =>
    let front ← front.resolve
    if front.given.isEmpty then
      .error .displayHelpOnMissingArgumentOrSubcommand
    else
      .error .missingSubcommand
  | some (name, rest) =>
    if name = "help" then
      .error (helpOutcome rest)
    else do
      let given ←
        if name = "generate" then readCommand generateLevel ["schema"] rest
        else readCommand checkLevel ["schema", "type"] rest
      let front ← front.resolve
      let all := given ++ front.given
      return ⟨all.lookup "config", (all.lookup "log-format").bind LogFormat.ofName?,
        .ofOptions name given⟩

end Invocation

end RecordSchema
