import RecordSchema.Document.Decode

/-!
# Settings

Settings are a fixed list of named values, each of which may be left out. They
are written as an object, or as an array of the values in their order. A name
may be given once; a name that is not in the list is passed over, or refused if
the settings are closed.
-/

namespace RecordSchema

/-- How settings of type `σ` are read. -/
structure SettingsFormat (σ : Type) where
  /-- What a reader expects where the settings should be. -/
  expectation : String
  /-- The names, in the order of an array. -/
  names : List String
  /-- Whether other names are refused. -/
  closed : Bool
  /-- Reads the value of a name into the settings; brackets may be nested below
  the given depth. -/
  read : String → Nat → Tree → σ → Except Fault σ

namespace Tree

variable {σ : Type}

/-- The error of a name that may not stand here, if it may not. -/
def settingFault? (format : SettingsFormat σ) (seen : List String) (name : String)
    (settled : Nat) : Option Fault :=
  if format.names.contains name then
    if seen.contains name then some (.content (.duplicateField name) settled) else none
  else if format.closed then
    some (.content (.unknownField name format.names) settled)
  else
    none

/-- Reads settings from the members of an object, of which `seen` have been read. -/
def settingMembers (format : SettingsFormat σ) (depth : Nat) :
    Members → List String → σ → Except Fault σ
  | .done gap, _, settings =>
    match gap.memberFault? with
    | some fault => .error fault
    | none => .ok settings
  | .notName start, _, _ => .error (.form .keyNotString (start + 1))
  | .nameOnly name settled next, seen, _ => do
    let name ← name.value
    .error ((settingFault? format seen name settled).getD (colonFault next settled))
  | .member name nameSettled value settled rest, seen, settings => do
    let name ← name.value
    match settingFault? format seen name nameSettled with
    | some fault => .error fault
    | none =>
      if format.names.contains name then do
        let settings ← (format.read name depth value settings).mapError (·.settle settled)
        settingMembers format depth rest (name :: seen) settings
      else do
        value.passOver
        settingMembers format depth rest seen settings

/-- Reads settings from the items of an array; `names` are those to come. -/
def settingItems (format : SettingsFormat σ) (depth : Nat) :
    Items → List String → σ → Except Fault σ
  | items, [], settings =>
    match items.excess? with
    | some fault => .error fault
    | none => .ok settings
  | .done gap, _ :: _, settings =>
    match gap.itemFault? with
    | some fault => .error fault
    | none => .ok settings
  | .item _ value settled rest, name :: names, settings => do
    let settings ← (format.read name depth value settings).mapError (·.settle settled)
    settingItems format depth rest names settings

/-- Reads settings, starting from those that hold if nothing is given. -/
def settings (format : SettingsFormat σ) (standard : σ) (depth : Nat) :
    Tree → Except Fault σ
  | array start items =>
    if depth ≤ 1 then
      .error (.form .tooDeep (start + 1))
    else
      settingItems format (depth - 1) items format.names standard
  | object start members =>
    if depth ≤ 1 then
      .error (.form .tooDeep (start + 1))
    else
      settingMembers format (depth - 1) members [] standard
  | tree => .error (tree.mismatch format.expectation)

end Tree

/-- Reads settings that make up a whole text. -/
def SettingsFormat.ofText {σ : Type} (format : SettingsFormat σ) (standard : σ) (text : String) :
    Except Fault σ := do
  let document := Document.ofText text
  let settings ← document.root.settings format standard depthLimit
  document.checkEnd
  return settings

end RecordSchema
