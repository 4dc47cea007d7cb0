import RecordSchema.Schema.Basic
import RecordSchema.Schema.Error

/-!
# References between types

A property whose type is a name refers to a declared type. A schema can be
turned into plans only if every reference names a declared type and no type
refers to itself, directly or through others.

`Schema.references` lists the references of a property set with the paths of the
properties that make them. `Schema.checkReferences` looks for an unknown target
first, in the order of declaration, and then for a circle, by a search in depth
that follows the references of a type in the order of their names.
-/

namespace RecordSchema

/-- A reference to a type, with the path of the property that makes it. -/
structure Reference where
  property : String
  target : String
  deriving DecidableEq

namespace PropertySet

mutual

/-- The references that a property at a path makes. -/
def specReferences (path : String) : PropertySpec → List Reference
  | ⟨type, _, _⟩ => typeReferences path type

/-- The references that a property type at a path makes. -/
def typeReferences (path : String) : PropertyType → List Reference
  | .named target => [⟨path, target⟩]
  | .object properties => referencesIn path properties
  | .array _ items => specReferences (path ++ "[]") items
  | .string _ _ => []
  | .number _ => []
  | .boolean => []

/-- The references that the properties of an object at a path make. A path that
is empty is left out of theirs. -/
def referencesIn (path : String) : List (String × PropertySpec) → List Reference
  | [] => []
  | (key, spec) :: rest =>
    specReferences (if path = "" then key else path ++ "." ++ key) spec ++
      referencesIn path rest

end

/-- The references that the properties of a type make, in depth and in order. -/
def references (properties : PropertySet) : List Reference :=
  referencesIn "" properties

/-- The types that the properties refer to, each once, in the order of their
names. -/
def targets (properties : PropertySet) : List String :=
  ((properties.references.map Reference.target).mergeSort fun a b => decide (a ≤ b)).eraseDups

end PropertySet

namespace Schema

/-- The first reference of a type that names no declared type. -/
def unknownReference? (schema : Schema) (properties : PropertySet) : Option Reference :=
  properties.references.find? fun reference => !schema.has reference.target

/-- Fails at the first type that refers to an unknown one. -/
def checkTargets (schema : Schema) : Schema → Except SchemaError Unit
  | [] => .ok ()
  | (owner, properties) :: rest =>
    match schema.unknownReference? properties with
    | some reference => .error (.unknownType owner reference.property reference.target)
    | none => checkTargets schema rest

/-- The types that each type refers to. -/
def graph (schema : Schema) : Entries (List String) :=
  schema.map fun (name, properties) => (name, properties.targets)

/-- The circle that is closed by coming to `node` again on the way `path`, which
has its last step first. -/
def circle (node : String) (path : List String) : List String :=
  node :: (path.takeWhile (· != node)).reverse ++ [node]

/-- How many nodes of a graph are not on the way `path`. -/
def unvisited (graph : Entries (List String)) (path : List String) : Nat :=
  (graph.names.filter fun name => !path.contains name).length

/-- A step to a node that is not on the way leaves fewer nodes to step to. -/
theorem unvisited_cons_lt {graph : Entries (List String)} {path : List String} {node : String}
    (hnode : node ∈ graph.names) (hpath : path.contains node = false) :
    unvisited graph (node :: path) < unvisited graph path := by
  have hmem : node ∈ graph.names.filter fun name => !path.contains name := by
    rw [List.mem_filter, hpath]
    exact ⟨hnode, rfl⟩
  have hsub : (graph.names.filter fun name => !(node :: path).contains name) =
      (graph.names.filter fun name => !path.contains name).filter fun name => name != node := by
    rw [List.filter_filter]
    apply List.filter_congr
    intro name _
    rw [List.contains_cons, Bool.not_or]
    rfl
  rw [unvisited, unvisited, hsub]
  exact List.length_filter_lt_length_iff_exists.mpr ⟨node, hmem, by simp⟩

mutual

/-- Searches a graph from a node in depth. `path` holds the nodes on the way,
the last one first, and `done` those that are known to lead to no circle; the
result is the second list with what has been added to it. The search ends
because no node comes twice on a way. -/
def visit (graph : Entries (List String)) (path done : List String) (node : String) :
    Except SchemaError (List String) :=
  if done.contains node then
    .ok done
  else if _hpath : path.contains node = true then
    .error (.cyclicType (circle node path))
  else
    match _hnode : graph.get? node with
    | none => .ok (node :: done)
    | some children => do
      let done ← visitAll graph (node :: path) done children
      return node :: done
termination_by (unvisited graph path, 0)
decreasing_by
  exact .left _ _ (unvisited_cons_lt (Entries.mem_names_of_get? _hnode) (by simpa using _hpath))

/-- Searches a graph from several nodes one by one. -/
def visitAll (graph : Entries (List String)) (path done : List String) :
    List String → Except SchemaError (List String)
  | [] => .ok done
  | node :: rest => do
    let done ← visit graph path done node
    visitAll graph path done rest
termination_by nodes => (unvisited graph path, nodes.length + 1)

end

/-- Fails if types refer to each other in a circle. The search starts from each
type in the order of declaration and keeps what it has learnt. -/
def checkCircles (schema : Schema) : Except SchemaError Unit := do
  let graph := schema.graph
  let _ ← visitAll graph [] [] graph.names
  return ()

/-- Fails if a reference names no declared type, or else if types refer to each
other in a circle. -/
def checkReferences (schema : Schema) : Except SchemaError Unit := do
  checkTargets schema schema
  checkCircles schema

end Schema

end RecordSchema
