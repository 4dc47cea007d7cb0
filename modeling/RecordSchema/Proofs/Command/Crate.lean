import RecordSchema.Proofs.Command.Generate
import RecordSchema.Proofs.Compile
import RecordSchema.Proofs.Emission.Name

/-!
# The crate path of emitted code

The crate path that emitted code imports its runtime from is the standard one, or
stands in a configuration file, or is given on the command line. A configuration
is refused unless its path is one. The command line is taken as it is.

Main statement: `Invocation.written_crate_isValid_iff`. The path in the code that
a run writes is a crate path exactly if none is given on the command line that is
not one; `Invocation.run_generate_spaced` is a run where such a one is written.
-/

namespace RecordSchema

open FileTree

variable {working : List String}

namespace Config

/-- The text of a configuration is refused unless its path is a crate path. -/
theorem isValid_of_ofText {text : String} {config : Config} (h : ofText text = .ok config) :
    CratePath.isValid config.runtimeCrate = true := by
  obtain ⟨found, -, h⟩ := Except.bind_eq_ok_iff.mp h
  split at h
  · next hvalid =>
    cases h
    exact hvalid
  · cases h

theorem isValid_of_load {path : String} {tree : FileTree} {config : Config}
    (h : ((load (filesystem working) path).run tree).1 = .ok config) :
    CratePath.isValid config.runtimeCrate = true := by
  rw [load, (ReadOnly.readText path).run_bind] at h
  cases hread : (((filesystem working).readText path).run tree).1 with
  | error error =>
      rw [hread] at h
      cases h
  | ok text =>
      rw [hread] at h
      exact isValid_of_ofText h

/-- Every configuration of a run has a crate path. -/
theorem isValid_of_resolve {path? : Option String} {tree : FileTree} {config : Config}
    (h : ((resolve (filesystem working) path?).run tree).1 = .ok config) :
    CratePath.isValid config.runtimeCrate = true := by
  cases path? with
  | some path => exact isValid_of_load h
  | none =>
      rw [resolve, (ReadOnly.isFile defaultPath).run_bind] at h
      split at h
      · exact isValid_of_load h
      · cases h
        decide

end Config

open Command Emission

namespace Command

/-- Code is emitted for plans, under a configuration that the command line may
change. -/
theorem exists_typeTexts_of_codeIn {tree : FileTree} {config? runtimeCrate : Option String}
    {schemaPath text : String} {noHeader : Bool}
    (hcode : codeIn working tree config? schemaPath runtimeCrate noHeader = .ok text) :
    ∃ config plans, ((Config.resolve (filesystem working) config?).run tree).1 = .ok config ∧
      text = (if config.header && !noHeader then headerText else "") ++
        importsText (runtimeCrate.getD config.runtimeCrate) ++
        String.join (typeTexts (runtimeCrate.getD config.runtimeCrate) plans) := by
  obtain ⟨config, hconfig, hcode⟩ := Except.bind_eq_ok_iff.mp hcode
  obtain ⟨schema, -, hcode⟩ := Except.bind_eq_ok_iff.mp hcode
  obtain ⟨compiled, -, hemit⟩ := Except.bind_eq_ok_iff.mp hcode
  exact ⟨config, compiled.plans, Except.mapError_eq_ok_iff.mp hconfig,
    (CompiledSchema.emit_eq_ok_iff.mp (Except.mapError_eq_ok_iff.mp hemit)).2⟩

end Command

namespace Invocation

/-- A run that succeeds in generating code prints or saves a module whose imports
and routines name one path: the one given on the command line, or else that of the
configuration. This is a crate path exactly if the command line gives none or one
that is. -/
theorem written_crate_isValid_iff {tree after : FileTree} {stdin : Except FileError String}
    {config? : Option String} {logFormat : Option LogFormat} {schemaPath : String}
    {out runtimeCrate : Option String} {noHeader : Bool} {result : CommandResult}
    (hrun : (run (filesystem working) (pure stdin)
      ⟨config?, logFormat, .generate schemaPath out runtimeCrate noHeader⟩).run tree =
        (result, after))
    (hsuccess : result.error = none) :
    ∃ config plans crate text,
      ((Config.resolve (filesystem working) config?).run tree).1 = .ok config ∧
      crate = runtimeCrate.getD config.runtimeCrate ∧
      text = (if config.header && !noHeader then headerText else "") ++ importsText crate ++
        String.join (typeTexts crate plans) ∧
      (match out with
        | none => result.output = text
        | some path => ∃ place, tree.SavedAt after working path text.toUTF8 place) ∧
      (CratePath.isValid crate = true ↔
        ∀ given, runtimeCrate = some given → CratePath.isValid given = true) := by
  obtain ⟨events, hgenerate⟩ := run_generate tree (pure stdin) config? logFormat schemaPath out
    runtimeCrate noHeader
  rw [hgenerate] at hrun
  cases hcode : codeIn working tree config? schemaPath runtimeCrate noHeader with
  | error error =>
      rw [hcode] at hrun
      cases hrun
      cases hsuccess
  | ok text =>
      rw [hcode] at hrun
      obtain ⟨config, plans, hconfig, htext⟩ := exists_typeTexts_of_codeIn hcode
      refine ⟨config, plans, _, text, hconfig, rfl, htext, ?_, ?_⟩
      · cases out with
        | none =>
            cases hrun
            rfl
        | some path =>
            cases hsave : (saveText (filesystem working) path text).run tree with
            | mk saved changed =>
                simp only [hsave] at hrun
                cases saved with
                | error error =>
                    cases hrun
                    cases hsuccess
                | ok _ =>
                    cases hrun
                    exact exists_savedAt_of_saveText hsave
      · cases runtimeCrate with
        | none => simp [Config.isValid_of_resolve hconfig]
        | some given => simp

/-- A tree with a schema file of one type, which has no properties. -/
def emptyTypeTree : FileTree :=
  .directory [("s.json", .file "\x7b\"A\":\x7b\x7d\x7d".toUTF8)]

theorem load_emptyTypeTree :
    ((Schema.load filesystem "s.json").run emptyTypeTree).1.outcome = .ok [("A", [])] := by
  obtain ⟨schema, hload⟩ := Except.exists_eq_ok
    ((Schema.load filesystem "s.json").run emptyTypeTree).1.outcome (by decide +kernel)
  have hsizes : ((Schema.load filesystem "s.json").run emptyTypeTree).1.outcome.toOption.map
      (fun schema => schema.map fun entry => (entry.1, entry.2.length)) = some [("A", 0)] := by
    decide +kernel
  rw [hload] at hsizes ⊢
  obtain ⟨entry, rest, rfl, hentry, hrest⟩ := List.map_eq_cons_iff.mp (Option.some.inj hsizes)
  rw [List.map_eq_nil_iff.mp hrest]
  obtain ⟨name, properties⟩ := entry
  obtain ⟨rfl, hlength⟩ := Prod.mk.inj hentry
  have hproperties : properties = [] := List.length_eq_zero_iff.mp hlength
  rw [hproperties]

theorem compile_emptyType :
    (Schema.compile [("A", [])]).outcome = .ok ⟨[⟨"A", []⟩]⟩ :=
  Schema.compile_without_properties ["A"]

/-- The run that generates the code for the empty type under a path that is given
prints it under this path, whatever it is. -/
theorem run_generate_emptyType (given : String) :
    ∃ events, (run filesystem (pure (.ok ""))
        ⟨none, none, .generate "s.json" none (some given) false⟩).run emptyTypeTree =
      (⟨headerText ++ importsText given ++ String.join (typeTexts given [⟨"A", []⟩]), none, events⟩,
        emptyTypeTree) := by
  obtain ⟨events, hrun⟩ := run_generate emptyTypeTree (pure (.ok "")) none none "s.json" none
    (some given) false
  have hresolve : ((Config.resolve filesystem none).run emptyTypeTree).1 = .ok .standard := rfl
  have hemit : (CompiledSchema.emit ⟨[⟨"A", []⟩]⟩
      (emitOptions .standard (some given) false)).outcome =
        .ok (headerText ++ importsText given ++ String.join (typeTexts given [⟨"A", []⟩])) :=
    CompiledSchema.emit_eq_ok_iff.mpr ⟨⟨by decide, by decide⟩, rfl⟩
  have hcode : codeIn [] emptyTypeTree none "s.json" (some given) false =
      .ok (headerText ++ importsText given ++ String.join (typeTexts given [⟨"A", []⟩])) := by
    rw [codeIn_of_resolve hresolve, load_emptyTypeTree]
    simp only [Except.bind, emitSchema, Logged.bind_def, Logged.outcome_bind, compile_emptyType]
    exact congrArg (Except.mapError _) hemit
  rw [hcode] at hrun
  exact ⟨events, hrun⟩

theorem written_crate_isValid_emptyType :
    ∃ result, (run filesystem (pure (.ok ""))
        ⟨none, none, .generate "s.json" none (some "crate::validation") false⟩).run emptyTypeTree =
          (result, emptyTypeTree) ∧
      result.error = none ∧
      ∃ config plans crate text,
        ((Config.resolve filesystem none).run emptyTypeTree).1 = .ok config ∧
        crate = (some "crate::validation").getD config.runtimeCrate ∧
        text = (if config.header && !false then headerText else "") ++ importsText crate ++
          String.join (typeTexts crate plans) ∧
        result.output = text ∧
        (CratePath.isValid crate = true ↔
          ∀ given, some "crate::validation" = some given → CratePath.isValid given = true) := by
  obtain ⟨events, hrun⟩ := run_generate_emptyType "crate::validation"
  exact ⟨_, hrun, rfl, written_crate_isValid_iff hrun rfl⟩

/-- A path with a space is written as it is given. -/
theorem run_generate_spaced :
    ∃ result, (run filesystem (pure (.ok ""))
        ⟨none, none, .generate "s.json" none (some "a b") false⟩).run emptyTypeTree =
          (result, emptyTypeTree) ∧
      result.error = none ∧
      result.output = headerText ++ importsText "a b" ++
        String.join (typeTexts "a b" [⟨"A", []⟩]) ∧
      CratePath.isValid "a b" = false := by
  obtain ⟨events, hrun⟩ := run_generate_emptyType "a b"
  exact ⟨_, hrun, rfl, rfl, by decide⟩

end Invocation

end RecordSchema
