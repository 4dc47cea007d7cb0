/-!
# Events

What the library tells an observer while it works: an `Event` for each fact worth
a line in a log, with its weight, its message and its fields.

A `Logged` computation is one that may fail and that reports events on its way.
Events are kept when it fails, up to the failure.
-/

namespace RecordSchema

/-- How much an event matters. -/
inductive Severity where
  | warning
  | info
  | debug
  deriving DecidableEq

/-- The word for a severity. -/
def Severity.word : Severity → String
  | warning => "WARN"
  | info => "INFO"
  | debug => "DEBUG"

/-- A fact reported to an observer. -/
inductive Event where
  | ignoredRule (rule : String) (typeName : String)
  | ignoredItemTransform (path : String)
  | compiledType (typeName : String) (properties : Nat)
  | compiledSchema (types : Nat)
  | emittedRoutine (typeName : String) (routine : String)
  | loadedFile (path : String) (types : Nat)
  | loadedDirectory (path : String) (files : Nat) (types : Nat)
  | generating (types : Nat) (crate : String)
  | wroteFile (path : String) (bytes : Nat)
  | checking (typeName : String) (verbose : Bool)
  deriving DecidableEq

namespace Event

/-- How much the event matters. -/
def severity : Event → Severity
  | ignoredRule .. => .warning
  | ignoredItemTransform .. => .warning
  | compiledType .. => .debug
  | compiledSchema .. => .debug
  | emittedRoutine .. => .debug
  | loadedFile .. => .debug
  | loadedDirectory .. => .debug
  | generating .. => .info
  | wroteFile .. => .info
  | checking .. => .info

/-- The message of the event. -/
def message : Event → String
  | ignoredRule .. => "ignoring rule that does not apply to this type"
  | ignoredItemTransform .. => "array items are not transformed; ignoring item transform"
  | compiledType .. => "compiled type plan"
  | compiledSchema .. => "compiled schema"
  | emittedRoutine .. => "emitted routine"
  | loadedFile .. => "loaded schema file"
  | loadedDirectory .. => "loaded schema directory"
  | generating .. => "generating validators"
  | wroteFile .. => "wrote validators"
  | checking .. => "checking record"

/-- The fields of the event, in order. -/
def fields : Event → List (String × String)
  | ignoredRule rule typeName => [("rule", rule), ("property_type", typeName)]
  | ignoredItemTransform path => [("path", path)]
  | compiledType typeName properties =>
    [("type_name", typeName), ("properties", toString properties)]
  | compiledSchema types => [("types", toString types)]
  | emittedRoutine typeName routine => [("type_name", typeName), ("routine", routine)]
  | loadedFile path types => [("file", path), ("types", toString types)]
  | loadedDirectory path files types =>
    [("dir", path), ("files", toString files), ("types", toString types)]
  | generating types crate => [("types", toString types), ("runtime_crate", crate)]
  | wroteFile path bytes => [("path", path), ("bytes", toString bytes)]
  | checking typeName verbose =>
    [("type_name", typeName), ("verbose", if verbose then "true" else "false")]

end Event

/-- A result or an error, with the events reported on the way to it. -/
structure Logged (ε α : Type) where
  events : List Event
  outcome : Except ε α

namespace Logged

variable {ε δ α β : Type}

/-- A result without events. -/
def ok (value : α) : Logged ε α :=
  ⟨[], .ok value⟩

/-- A failure without events. -/
def fail (error : ε) : Logged ε α :=
  ⟨[], .error error⟩

/-- A result or an error without events. -/
def ofExcept (outcome : Except ε α) : Logged ε α :=
  ⟨[], outcome⟩

/-- Reports an event. -/
def report (event : Event) : Logged ε Unit :=
  ⟨[event], .ok ()⟩

/-- Reports events in order. -/
def reportAll (events : List Event) : Logged ε Unit :=
  ⟨events, .ok ()⟩

/-- Goes on with the result; the events of both parts are kept in order. -/
def bind (first : Logged ε α) (next : α → Logged ε β) : Logged ε β :=
  match first.outcome with
  | .error error => ⟨first.events, .error error⟩
  | .ok value =>
    let second := next value
    ⟨first.events ++ second.events, second.outcome⟩

instance : Monad (Logged ε) where
  pure := ok
  bind := bind

/-- The computation with its error changed. -/
def mapError (f : ε → δ) (logged : Logged ε α) : Logged δ α :=
  ⟨logged.events, logged.outcome.mapError f⟩

/-- Goes on with the result by an action; the events of both parts are kept in
order. -/
def bindAction {m : Type → Type} [Monad m] (first : Logged ε α)
    (next : α → m (Logged ε β)) : m (Logged ε β) :=
  match first.outcome with
  | .error error => return ⟨first.events, .error error⟩
  | .ok value => do
    let second ← next value
    return ⟨first.events ++ second.events, second.outcome⟩

@[simp] theorem pure_def (value : α) : (pure value : Logged ε α) = ok value := rfl

theorem bind_def (first : Logged ε α) (next : α → Logged ε β) :
    (first >>= next) = first.bind next := rfl

@[simp] theorem ok_bind (value : α) (next : α → Logged ε β) :
    (ok value).bind next = next value := by
  simp [bind, ok]

@[simp] theorem fail_bind (error : ε) (next : α → Logged ε β) :
    (fail error : Logged ε α).bind next = fail error := rfl

@[simp] theorem report_bind (event : Event) (next : Unit → Logged ε β) :
    (report event).bind next = ⟨event :: (next ()).events, (next ()).outcome⟩ := rfl

theorem outcome_bind (first : Logged ε α) (next : α → Logged ε β) :
    (first.bind next).outcome = first.outcome.bind fun value => (next value).outcome := by
  cases h : first.outcome with
  | error error => simp [bind, h, Except.bind]
  | ok value => simp [bind, h, Except.bind]

end Logged

end RecordSchema
