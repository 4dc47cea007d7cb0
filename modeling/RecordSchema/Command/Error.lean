import RecordSchema.Command.Config
import RecordSchema.Document.Record
import RecordSchema.Schema.Error
import RecordSchema.Validation.Failure

/-!
# Errors of commands

Every error of a command has a code and a message, and ends the program with the
exit code 1. A record that does not pass is an error too.
-/

namespace RecordSchema

/-- A reason why a command fails. -/
inductive CommandError where
  | config (error : ConfigError)
  | unreadableRecord (path : String) (error : FileError)
  | unreadableInput (error : FileError)
  | unwritable (path : String) (error : FileError)
  | record (error : RecordError)
  | schema (error : SchemaError)
  | unknownType (name : String)
  /-- The record has an error, at which validation stopped. -/
  | invalid (error : ValidationError)
  /-- The record has errors, as many as given. -/
  | invalidReport (typeName : String) (errors : Nat)

namespace CommandError

/-- The code of an error. -/
def code : CommandError → String
  | config _ => "ASSERTIFY_CLI_CONFIG_ERROR"
  | unreadableRecord .. => "ASSERTIFY_CLI_IO_ERROR"
  | unreadableInput _ => "ASSERTIFY_CLI_IO_ERROR"
  | unwritable .. => "ASSERTIFY_CLI_IO_ERROR"
  | record _ => "ASSERTIFY_CLI_INVALID_INPUT"
  | schema _ => "ASSERTIFY_CLI_GENERATION_FAILED"
  | unknownType _ => "ASSERTIFY_CLI_UNKNOWN_TYPE"
  | invalid _ => "ASSERTIFY_CLI_VALIDATION_FAILED"
  | invalidReport .. => "ASSERTIFY_CLI_VALIDATION_FAILED"

/-- The wording of an error, without its code. -/
def message : CommandError → String
  | config error => error.message
  | unreadableRecord path error => "Failed to read record " ++ path ++ ": " ++ error.message
  | unreadableInput error => error.message
  | unwritable path error => "Failed to write " ++ path ++ ": " ++ error.message
  | record error => error.message
  | schema error => error.message ++ " (" ++ error.code ++ ")"
  | unknownType name => "schema does not declare type '" ++ name ++ "'"
  | invalid error => error.message
  | invalidReport typeName errors =>
    typeName ++ " record failed " ++ toString errors ++ " check(s)"

/-- The line in which an error is shown. -/
def line (error : CommandError) : String :=
  error.code ++ ": " ++ error.message

end CommandError

end RecordSchema
