import RecordSchema.Schema.Error

/-!
# Names in emitted code

Each type of a schema gets two names in the emitted code: that of the routine
that validates it and that of the static that holds its plan. Both come from the
type's name in snake case, where words of ASCII letters and digits are lowered
and joined by underscores.

`TypeNames.ofTypes` names all types of a schema, and fails on a name without
letters and digits and on two types whose names come out the same.
-/

namespace RecordSchema

namespace Emission

/-- Whether a letter that follows `before` directly, and is followed by `after`,
starts a word: a capital does behind a small letter or a digit, and behind a
capital if a small letter follows. -/
def startsWord (before : Option Char) (c : Char) (after : Option Char) : Bool :=
  c.isUpper &&
    match before with
    | none => false
    | some b => b.isLower || b.isDigit || (b.isUpper && after.any Char.isLower)

/-- The words of a text in snake case. `started` says that there is a word
before, `gap` that something else stands between it and the text, and `before`
is the character in front of the text. -/
def snakeFrom (started gap : Bool) (before : Option Char) : List Char → List Char
  | [] => []
  | c :: rest =>
    if c.isAlphanum then
      if started && (gap || startsWord before c rest.head?) then
        '_' :: c.toLower :: snakeFrom true false (some c) rest
      else
        c.toLower :: snakeFrom true false (some c) rest
    else
      snakeFrom started true (some c) rest

/-- A name in snake case: its ASCII letters and digits, lowered, with an
underscore between words. -/
def snakeCase (name : String) : String :=
  String.ofList (snakeFrom false false none name.toList)

@[simp] theorem snakeFrom_nil (started gap : Bool) (before : Option Char) :
    snakeFrom started gap before [] = [] := rfl

/-- The names that the emitted code has for one type. -/
structure TypeNames where
  routine : String
  static : String
  deriving DecidableEq

namespace TypeNames

/-- The name of the routine for a type whose name is `snake` in snake case. -/
def routineName (snake : String) : String :=
  "validate_" ++ snake

/-- The name of the static for a type whose name is `snake` in snake case. An
identifier does not start with a digit. -/
def staticName (snake : String) : String :=
  let upper := String.ofList (snake.toList.map Char.toUpper)
  if upper.toList.head?.any Char.isDigit then
    "_" ++ upper ++ "_PLAN"
  else
    upper ++ "_PLAN"

/-- The names for a type. -/
def ofSnake (snake : String) : TypeNames :=
  ⟨routineName snake, staticName snake⟩

/-- Names the types of a list, given the routines named before with their types. -/
def nameFrom (taken : List (String × String)) : List String → Except SchemaError (List TypeNames)
  | [] => .ok []
  | typeName :: rest =>
    let snake := snakeCase typeName
    if snake = "" then
      .error (.malformed (.noIdentifier typeName))
    else
      let names := ofSnake snake
      match taken.lookup names.routine with
      | some first => .error (.nameCollision first typeName names.routine)
      | none =>
        (nameFrom ((names.routine, typeName) :: taken) rest).map fun others =>
          names :: others

/-- The names for the types of a schema, in order. -/
def ofTypes (typeNames : List String) : Except SchemaError (List TypeNames) :=
  nameFrom [] typeNames

end TypeNames

end Emission

end RecordSchema
