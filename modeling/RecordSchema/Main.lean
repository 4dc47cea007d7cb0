import RecordSchema.Command.Run

/-!
# The program

The program hands its command line to the library and lets the library act on
the files of the system. It prints what comes of that: the output of a command,
and its error on a line of its own.

A command line that is not carried out is answered by the way the program is
used, or by its version if it asks for that.
-/

namespace RecordSchema

namespace Program

/-- How the program is used. -/
def usage : String :=
  "Usage: [--config <path>] [--log-format text|json] <command>\n\n" ++
  "  generate --schema <path> [--out <path>] [--runtime-crate <path>] [--no-header]\n" ++
  "  check --schema <path> --type <name> [--data <path>] [--verbose]"

/-- What is printed in answer to a command line that is not carried out. -/
def answer : UsageError → String
  | .displayHelp => usage
  | .displayVersion => Emission.version
  | error => error.name ++ "\n" ++ usage

/-- The library's name for an error of the system. -/
def fileError : IO.Error → FileError
  | .noFileOrDirectory .. => .notFound
  | .alreadyExists .. => .alreadyExists
  | .inappropriateType _ code _ => if code = 20 then .notDirectory else .isDirectory
  | error => .other (toString error)

/-- Takes the failure of an action as its result. -/
def attempt {α : Type} (action : IO α) : IO (Except FileError α) := do
  match ← action.toBaseIO with
  | .ok value => return .ok value
  | .error error => return .error (fileError error)

/-- Whether a path leads to something of the given kind. -/
def leadsTo (kind : IO.FS.FileType) (path : String) : IO Bool := do
  match ← (System.mkFilePath [path]).metadata.toBaseIO with
  | .ok found => return found.type == kind
  | .error _ => return false

/-- The files of the system. -/
def filesystem : Filesystem IO where
  isDirectory := leadsTo .dir
  isFile := leadsTo .file
  readText := fun path => do
    let content ← attempt (IO.FS.readBinFile path)
    return content.bind Filesystem.decode
  list := fun path => attempt do
    let entries ← (System.mkFilePath [path]).readDir
    return (entries.map fun entry => entry.fileName).toList
  makeDirectories := fun path => attempt (IO.FS.createDirAll path)
  writeText := fun path text => attempt (IO.FS.writeFile path text)

/-- The text on the standard input. -/
def input : IO (Except FileError String) := do
  let content ← attempt (← IO.getStdin).readBinToEnd
  return content.bind Filesystem.decode

end Program

end RecordSchema

open RecordSchema in
/-- Runs the program with the arguments behind its name; the result is its exit
code. -/
def main (arguments : List String) : IO UInt32 := do
  match Invocation.ofArguments arguments with
  | .error error =>
    let stream ← if error.exitCode = 0 then IO.getStdout else IO.getStderr
    stream.putStrLn (Program.answer error)
    return error.exitCode
  | .ok invocation =>
    let result ← invocation.run Program.filesystem Program.input
    IO.print result.output
    match result.error with
    | none => pure ()
    | some error => IO.eprintln error.line
    return result.exitCode
