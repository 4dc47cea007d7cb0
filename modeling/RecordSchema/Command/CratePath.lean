/-!
# Crate paths

Emitted code imports its runtime from a path: identifiers of ASCII letters,
digits and underscores, none of which starts with a digit, with two colons
between them.
-/

namespace RecordSchema

namespace CratePath

/-- The pieces of a text between pairs of colons, which are taken from the left. -/
def segments : List Char → List (List Char)
  | [] => [[]]
  | ':' :: ':' :: rest => [] :: segments rest
  | c :: rest =>
    match segments rest with
    | [] => [[c]]
    | piece :: pieces => (c :: piece) :: pieces

/-- Whether a character may start an identifier. -/
def isHead (c : Char) : Bool :=
  c.isAlpha || c == '_'

/-- Whether a character may stand in an identifier. -/
def isTail (c : Char) : Bool :=
  c.isAlphanum || c == '_'

/-- Whether a text is an identifier. -/
def isIdentifier : List Char → Bool
  | [] => false
  | c :: rest => isHead c && rest.all isTail

/-- Whether a text is a crate path. -/
def isValid (path : String) : Bool :=
  (segments path.toList).all isIdentifier

end CratePath

end RecordSchema
