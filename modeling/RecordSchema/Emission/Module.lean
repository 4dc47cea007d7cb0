import RecordSchema.Emission.Name
import RecordSchema.Emission.Plan
import RecordSchema.Event

/-!
# Emitted modules

`CompiledSchema.emit` writes the plans of a schema as a module of Rust code. For
each type the module has a static, which holds the type's plan and is built when
it is first used, and a routine that hands this plan to the validation runtime.
The module imports the runtime from a crate path that the options give.

The same plans and options give the same text, and every error arises before
there is any.
-/

namespace RecordSchema

/-- How a module is emitted. -/
structure EmitOptions where
  /-- The path from which the module imports the runtime. -/
  runtimeCrate : String
  /-- Whether the module starts by saying that it is generated. -/
  header : Bool
  deriving DecidableEq

/-- The path of the runtime if nothing else is said. -/
def defaultRuntimeCrate : String := "assertify"

/-- The options if nothing else is said. -/
def EmitOptions.standard : EmitOptions :=
  ⟨defaultRuntimeCrate, true⟩

namespace Emission

/-- The version of the program, which the modules it emits name. -/
def version : String := "0.1.0"

/-- The lines that say that the module is generated. -/
def headerText : String :=
  "// @generated by assertify " ++ version ++ ". Do not edit by hand.\n" ++
  "// Regenerate from the schema instead.\n\n"

/-- The imports of a module. -/
def importsText (crate : String) : String :=
  "#[allow(unused_imports)]\n" ++
  "use std::sync::\x7bArc, LazyLock\x7d;\n\n" ++
  "#[allow(unused_imports)]\n" ++
  "use serde_json::Value;\n\n" ++
  "#[allow(unused_imports)]\n" ++
  "use " ++ crate ++
    "::compiler::\x7bCheck, ItemPlan, ObjectPlan, PropertyPlan, ValueKind\x7d;\n" ++
  "#[allow(unused_imports)]\n" ++
  "use " ++ crate ++ "::runtime::\x7bOutcome, ValidateOptions, ValidationFailure\x7d;\n" ++
  "#[allow(unused_imports)]\n" ++
  "use " ++ crate ++ "::schema::Transform;\n"

/-- The static that holds a plan, which the expression builds. -/
def initialisedStatic (static : String) (expression : Expression) : String :=
  "static " ++ static ++ ": LazyLock<Arc<ObjectPlan>> = LazyLock::new(|| \x7b\n" ++
  indentation 1 ++ (Expression.call "Arc::new" .inline [expression]).render 1 ++ "\n" ++
  "\x7d);\n"

/-- The static that holds the plan of a type. -/
def staticText (statics : Entries String) (static : String) (plan : ObjectPlan) : String :=
  initialisedStatic static (planExpression statics plan)

/-- The routine that validates records of a type. -/
def routineText (crate : String) (names : TypeNames) (typeName : String) : String :=
  "/// Validates a `" ++ typeName ++ "` record.\n" ++
  "///\n" ++
  "/// Assertion mode returns the transformed record or the first failure.\n" ++
  "/// Verbose mode returns a report of every failing property.\n" ++
  "pub fn " ++ names.routine ++
    "(data: &Value, options: &ValidateOptions) -> Result<Outcome, ValidationFailure> \x7b\n" ++
  "    " ++ crate ++ "::runtime::validate(&" ++ names.static ++ ", data, options)\n" ++
  "\x7d\n"

/-- The static and the routine of a type. -/
def typeText (crate : String) (statics : Entries String) (plan : ObjectPlan)
    (names : TypeNames) : String :=
  "\n" ++ staticText statics names.static plan ++ "\n" ++ routineText crate names plan.name

/-- The text of a module for plans with their names. -/
def moduleText (options : EmitOptions) (items : List (ObjectPlan × TypeNames)) : String :=
  let statics : Entries String := items.map fun (plan, names) => (plan.name, names.static)
  (if options.header then headerText else "") ++
  importsText options.runtimeCrate ++
  String.join (items.map fun (plan, names) => typeText options.runtimeCrate statics plan names)

end Emission

/-- The module for a compiled schema. Fails if a type's name gives no
identifier, or the same as another type's. -/
def CompiledSchema.emit (compiled : CompiledSchema) (options : EmitOptions) :
    Logged SchemaError String := do
  let names ← Logged.ofExcept (Emission.TypeNames.ofTypes compiled.typeNames)
  let items := compiled.plans.zip names
  Logged.reportAll (items.map fun (plan, names) => .emittedRoutine plan.name names.routine)
  return Emission.moduleText options items

end RecordSchema
