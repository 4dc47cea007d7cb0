import RecordSchema.Command.CratePath
import RecordSchema.Document.Position
import RecordSchema.Document.Settings
import RecordSchema.Emission.Module
import RecordSchema.Files.Filesystem
import RecordSchema.Json.Basic

/-!
# Configuration

The configuration says how code is emitted and how log lines look. It is read
from the file that the command line names, or else from `assertify.json` in the
working directory if there is such a file, or else it is the standard one. Every
setting may be left out; names that are not settings are refused.
-/

namespace RecordSchema

/-- How log lines look. -/
inductive LogFormat where
  | text
  | json
  deriving DecidableEq

namespace LogFormat

/-- The name of a format. -/
def name : LogFormat → String
  | text => "text"
  | json => "json"

/-- The names of the formats. -/
def names : List String :=
  [text, json].map name

/-- The format of a name. -/
def ofName? (name : String) : Option LogFormat :=
  [text, json].find? fun format => format.name == name

end LogFormat

/-- The configuration. -/
structure Config where
  runtimeCrate : String
  header : Bool
  logFormat : LogFormat
  deriving DecidableEq

/-- A reason why there is no configuration. -/
inductive ConfigError where
  | unreadable (path : String) (error : FileError)
  | malformed (error : PlacedError)
  | badCrate (path : String)

/-- The wording of an error. -/
def ConfigError.message : ConfigError → String
  | unreadable path error => "Failed to read config " ++ path ++ ": " ++ error.message
  | malformed error => "Invalid config JSON: " ++ error.message
  | badCrate path =>
    "Invalid runtime_crate: '" ++ path ++
      "'. Expected a Rust path like 'assertify' or 'crate::validation'."

namespace Config

/-- The configuration if nothing is said. -/
def standard : Config :=
  ⟨defaultRuntimeCrate, true, .text⟩

/-- How a configuration is written. -/
def format : SettingsFormat Config where
  expectation := "struct GeneratorConfig"
  names := ["runtime_crate", "header", "log_format"]
  closed := true
  read := fun name depth value config =>
    if name = "runtime_crate" then
      value.asString.map fun crate => { config with runtimeCrate := crate }
    else if name = "header" then
      value.asBool.map fun header => { config with header := header }
    else
      (value.asChoice LogFormat.ofName? LogFormat.names depth).map fun format =>
        { config with logFormat := format }

/-- The configuration that a text spells. -/
def ofText (text : String) : Except ConfigError Config := do
  let config ← (format.ofText standard text).mapError fun fault => .malformed (fault.place text)
  if CratePath.isValid config.runtimeCrate then
    return config
  else
    .error (.badCrate config.runtimeCrate)

/-- The configuration as a document value. -/
def toJson (config : Config) : Json :=
  .object [("runtime_crate", .string config.runtimeCrate), ("header", .boolean config.header),
    ("log_format", .string config.logFormat.name)]

/-- How the configuration wants code to be emitted. -/
def emitOptions (config : Config) : EmitOptions :=
  ⟨config.runtimeCrate, config.header⟩

variable {m : Type → Type} [Monad m]

/-- The file that is looked for in the working directory. -/
def defaultPath : String := "assertify.json"

/-- The configuration in a file. -/
def load (filesystem : Filesystem m) (path : String) : m (Except ConfigError Config) := do
  match ← filesystem.readText path with
  | .error error => return .error (.unreadable path error)
  | .ok text => return ofText text

/-- The configuration of a command line that may name a file. -/
def resolve (filesystem : Filesystem m) (path? : Option String) :
    m (Except ConfigError Config) := do
  match path? with
  | some path => load filesystem path
  | none =>
    if ← filesystem.isFile defaultPath then
      load filesystem defaultPath
    else
      return .ok standard

end Config

end RecordSchema
