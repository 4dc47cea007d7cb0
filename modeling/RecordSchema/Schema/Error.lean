import RecordSchema.Document.Position
import RecordSchema.Files.Filesystem

/-!
# Errors of schemas

A schema can be malformed, refer to a type that it does not declare, refer to
itself in a circle, or have types whose validators would share a name. Every
error has a code, which is stable, and a message.
-/

namespace RecordSchema

/-- A reason why a schema is malformed. -/
inductive Malformation where
  /-- A value that is not what its place asks for. -/
  | content (error : ContentError)
  /-- An error met in a schema's text. -/
  | text (error : PlacedError)
  | undeclaredType (name : String)
  | noIdentifier (name : String)
  | unreadableFile (path : String) (error : FileError)
  | unreadableDirectory (path : String) (error : FileError)
  /-- A file of a schema is malformed. -/
  | inFile (path : String) (reason : Malformation)

/-- The wording of a reason. -/
def Malformation.message : Malformation → String
  | content error => error.message
  | text error => error.message
  | undeclaredType name => "type '" ++ name ++ "' is not declared"
  | noIdentifier name => "type name '" ++ name ++ "' has no identifier characters"
  | unreadableFile path error =>
    "failed to read schema file '" ++ path ++ "': " ++ error.message
  | unreadableDirectory path error =>
    "failed to read schema directory '" ++ path ++ "': " ++ error.message
  | inFile path reason => path ++ ": malformed schema: " ++ reason.message

/-- A reason why no validators can be made of a schema. -/
inductive SchemaError where
  | malformed (reason : Malformation)
  | unknownType (owner property target : String)
  | cyclicType (cycle : List String)
  | nameCollision (first second routine : String)

namespace SchemaError

/-- The code of an error. -/
def code : SchemaError → String
  | malformed .. => "ASSERTIFY_SCHEMA_MALFORMED"
  | unknownType .. => "ASSERTIFY_UNKNOWN_TYPE"
  | cyclicType .. => "ASSERTIFY_CYCLIC_TYPE"
  | nameCollision .. => "ASSERTIFY_NAME_COLLISION"

/-- The wording of an error. -/
def message : SchemaError → String
  | malformed reason => "malformed schema: " ++ reason.message
  | unknownType owner property target =>
    "type '" ++ owner ++ "' property '" ++ property ++ "' references unknown type '" ++
      target ++ "'"
  | cyclicType cycle =>
    "schema contains recursive type references: " ++ String.intercalate " -> " cycle
  | nameCollision first second routine =>
    "types '" ++ first ++ "' and '" ++ second ++ "' both map to routine '" ++ routine ++ "'"

end SchemaError

end RecordSchema
