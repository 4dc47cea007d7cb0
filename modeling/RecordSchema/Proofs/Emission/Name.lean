import RecordSchema.Command.CratePath
import RecordSchema.Emission.Module

/-!
# The names of emitted code

A type is named after its name in snake case, which is made of small letters, digits and
underscores and starts with no underscore. From the name of its static this can be read
back, `TypeNames.snakeOf`, so that types with different names in snake case have
different statics.

Main statements: types are named exactly if their names in snake case are not empty and
distinct, `TypeNames.ofTypes_eq_ok_iff`, and what is emitted then, `emit_eq_ok_iff`.
-/

namespace RecordSchema

namespace Emission

/-! ## Names in snake case -/

/-- Whether a character may stand in a name in snake case. -/
def isSnake (c : Char) : Bool :=
  c.isLower || c.isDigit || c == '_'

theorem of_lt_128 {p : Char → Prop} (h : ∀ n < 128, p (Char.ofNat n)) {c : Char}
    (hc : c.toNat < 128) : p c := by
  have hchar := h c.toNat hc
  rwa [Char.ofNat_toNat] at hchar

theorem toNat_lt_128_of_isAlphanum {c : Char} (h : c.isAlphanum = true) : c.toNat < 128 := by
  unfold Char.isAlphanum Char.isAlpha Char.isUpper Char.isLower Char.isDigit at h
  simp only [Bool.or_eq_true, Bool.and_eq_true, decide_eq_true_eq,
    UInt32.le_iff_toNat_le] at h
  have hc : c.toNat = c.val.toNat := rfl
  simp at h
  omega

theorem toNat_lt_128_of_isSnake {c : Char} (h : isSnake c = true) : c.toNat < 128 := by
  by_cases hline : c = '_'
  · rw [hline]
    decide
  · apply toNat_lt_128_of_isAlphanum
    simp only [isSnake, hline, Bool.or_eq_true, beq_iff_eq, or_false] at h
    unfold Char.isAlphanum Char.isAlpha
    simp [or_assoc, h]

theorem isSnake_toLower {c : Char} (h : c.isAlphanum = true) :
    isSnake c.toLower = true ∧ c.toLower ≠ '_' := by
  have hascii : ∀ n < 128, (Char.ofNat n).isAlphanum = true →
      isSnake (Char.ofNat n).toLower = true ∧ (Char.ofNat n).toLower ≠ '_' := by decide
  exact of_lt_128 (p := fun c => c.isAlphanum = true → isSnake c.toLower = true ∧ c.toLower ≠ '_')
    hascii (toNat_lt_128_of_isAlphanum h) h

theorem isTail_of_isSnake {c : Char} (h : isSnake c = true) : CratePath.isTail c = true := by
  unfold CratePath.isTail Char.isAlphanum Char.isAlpha
  simp only [isSnake, Bool.or_eq_true] at h ⊢
  exact h.imp_left (Or.imp_left .inr)

/-- A capital of snake case can stand in an identifier, and is made from one character
only. -/
theorem toUpper_of_isSnake {c : Char} (h : isSnake c = true) :
    CratePath.isTail c.toUpper = true ∧ c.toUpper.toLower = c := by
  have hascii : ∀ n < 128, isSnake (Char.ofNat n) = true →
      CratePath.isTail (Char.ofNat n).toUpper = true ∧
        (Char.ofNat n).toUpper.toLower = Char.ofNat n := by decide
  exact of_lt_128 (p := fun c => isSnake c = true → CratePath.isTail c.toUpper = true ∧
    c.toUpper.toLower = c) hascii (toNat_lt_128_of_isSnake h) h

theorem isSnake_of_mem_snakeFrom (started gap : Bool) (before : Option Char) (text : List Char) :
    ∀ c ∈ snakeFrom started gap before text, isSnake c = true := by
  fun_induction snakeFrom started gap before text with
  | case1 => simp
  | case2 _ _ _ c _ halphanum _ ih =>
      intro d hd
      rcases List.mem_cons.mp hd with rfl | hd
      · decide
      rcases List.mem_cons.mp hd with rfl | hd
      · exact (isSnake_toLower halphanum).1
      · exact ih d hd
  | case3 _ _ _ c _ halphanum _ ih =>
      intro d hd
      rcases List.mem_cons.mp hd with rfl | hd
      · exact (isSnake_toLower halphanum).1
      · exact ih d hd
  | case4 _ _ _ _ _ _ ih => exact ih

theorem head?_snakeFrom_ne (gap : Bool) (before : Option Char) (text : List Char) :
    (snakeFrom false gap before text).head? ≠ some '_' := by
  induction text generalizing gap before with
  | nil => simp
  | cons c rest ih =>
      rw [snakeFrom]
      split
      · case isTrue halphanum => simpa using (isSnake_toLower halphanum).2
      · exact ih true (some c)

theorem isSnake_of_mem_snakeCase (name : String) :
    ∀ c ∈ (snakeCase name).toList, isSnake c = true := by
  rw [snakeCase, String.toList_ofList]
  exact isSnake_of_mem_snakeFrom false false none name.toList

theorem head?_snakeCase_ne (name : String) : (snakeCase name).toList.head? ≠ some '_' := by
  rw [snakeCase, String.toList_ofList]
  exact head?_snakeFrom_ne false none name.toList

/-! ## Statics -/

namespace TypeNames

/-- The names for a type of a name. -/
def of (typeName : String) : TypeNames :=
  ofSnake (snakeCase typeName)

theorem of_routine (typeName : String) :
    (of typeName).routine = routineName (snakeCase typeName) := rfl

theorem exists_toList_static (typeName : String) :
    ∃ lead, (lead = [] ∨ lead = ['_']) ∧ (of typeName).static.toList =
      lead ++ (snakeCase typeName).toList.map Char.toUpper ++ ['_', 'P', 'L', 'A', 'N'] := by
  rw [of, ofSnake, staticName]
  split
  · exact ⟨['_'], .inr rfl, by simp⟩
  · exact ⟨[], .inl rfl, by simp⟩

theorem isTail_of_mem_static (typeName : String) :
    ∀ c ∈ (of typeName).static.toList, CratePath.isTail c = true := by
  obtain ⟨lead, hlead, hlist⟩ := exists_toList_static typeName
  have hplan : ∀ c ∈ ['_', 'P', 'L', 'A', 'N'], CratePath.isTail c = true :=
    List.all_eq_true.mp (by decide)
  intro c hc
  rw [hlist, List.mem_append, List.mem_append] at hc
  rcases hc with (hc | hc) | hc
  · rcases hlead with rfl | rfl
    · cases hc
    · rw [List.mem_singleton.mp hc]
      decide
  · obtain ⟨d, hd, rfl⟩ := List.mem_map.mp hc
    exact (toUpper_of_isSnake (isSnake_of_mem_snakeCase typeName d hd)).1
  · exact hplan c hc

theorem static_ne_empty (typeName : String) : (of typeName).static ≠ "" := by
  obtain ⟨lead, -, hlist⟩ := exists_toList_static typeName
  intro hempty
  simp [hempty] at hlist

theorem toList_routine (typeName : String) :
    (of typeName).routine.toList = "validate_".toList ++ (snakeCase typeName).toList := by
  rw [of_routine, routineName, String.toList_append]

theorem isTail_of_mem_routine (typeName : String) :
    ∀ c ∈ (of typeName).routine.toList, CratePath.isTail c = true := by
  have hvalidate : ∀ c ∈ "validate_".toList, CratePath.isTail c = true :=
    List.all_eq_true.mp (by decide)
  intro c hc
  rw [toList_routine, List.mem_append] at hc
  rcases hc with hc | hc
  · exact hvalidate c hc
  · exact isTail_of_isSnake (isSnake_of_mem_snakeCase typeName c hc)

theorem routine_ne_empty (typeName : String) : (of typeName).routine ≠ "" := by
  intro hempty
  have hlist := toList_routine typeName
  simp [hempty] at hlist

/-- The capitals of a name in snake case are made from it only. -/
theorem map_toLower_map_toUpper (typeName : String) :
    ((snakeCase typeName).toList.map Char.toUpper).map Char.toLower =
      (snakeCase typeName).toList := by
  have hchars : ∀ c ∈ (snakeCase typeName).toList, (Char.toLower ∘ Char.toUpper) c = id c :=
    fun c hc => (toUpper_of_isSnake (isSnake_of_mem_snakeCase typeName c hc)).2
  rw [List.map_map, List.map_congr_left hchars, List.map_id]

theorem map_toUpper_ne_underscore_cons (typeName : String) (rest : List Char) :
    (snakeCase typeName).toList.map Char.toUpper ≠ '_' :: rest := by
  intro hupper
  have hhead := head?_snakeCase_ne typeName
  rw [← map_toLower_map_toUpper, hupper, List.map_cons, List.head?_cons] at hhead
  exact hhead (congrArg some (by decide))

/-- Types with different names in snake case have different statics. -/
theorem snakeCase_eq_of_static_eq {typeName typeName' : String}
    (h : (of typeName).static = (of typeName').static) :
    snakeCase typeName = snakeCase typeName' := by
  obtain ⟨lead, hlead, hlist⟩ := exists_toList_static typeName
  obtain ⟨lead', hlead', hlist'⟩ := exists_toList_static typeName'
  have hupper : lead ++ (snakeCase typeName).toList.map Char.toUpper =
      lead' ++ (snakeCase typeName').toList.map Char.toUpper := by
    rw [h, hlist'] at hlist
    exact (List.append_cancel_right hlist).symm
  have hsame : (snakeCase typeName).toList.map Char.toUpper =
      (snakeCase typeName').toList.map Char.toUpper := by
    rcases hlead with rfl | rfl <;> rcases hlead' with rfl | rfl
    · simpa using hupper
    · rw [List.nil_append, List.singleton_append] at hupper
      exact absurd hupper (map_toUpper_ne_underscore_cons typeName _)
    · rw [List.nil_append, List.singleton_append] at hupper
      exact absurd hupper.symm (map_toUpper_ne_underscore_cons typeName' _)
    · exact List.append_cancel_left hupper
  rw [← String.toList_inj, ← map_toLower_map_toUpper, hsame, map_toLower_map_toUpper]

/-! ## Naming types -/

theorem routineName_inj {snake snake' : String} :
    routineName snake = routineName snake' ↔ snake = snake' := by
  simp [routineName]

/-- What is taken behind a name: what was taken before, and its routine. -/
theorem lookup_cons_eq_none_iff {taken : List (String × String)} {first other : String} :
    List.lookup (of other).routine (((of first).routine, first) :: taken) = none ↔
      snakeCase other ≠ snakeCase first ∧ taken.lookup (of other).routine = none := by
  rw [List.lookup_cons, of_routine, of_routine]
  by_cases h : snakeCase other = snakeCase first
  · simp only [h, beq_self_eq_true, reduceCtorEq, ne_eq, not_true_eq_false, false_and]
  · have hbeq : (routineName (snakeCase other) == routineName (snakeCase first)) = false :=
      beq_false_of_ne fun heq => h (routineName_inj.mp heq)
    simp only [hbeq, ne_eq, h, not_false_eq_true, true_and]

theorem nameFrom_of_empty {taken : List (String × String)} {typeName : String}
    (h : snakeCase typeName = "") (rest : List String) :
    nameFrom taken (typeName :: rest) = .error (.malformed (.noIdentifier typeName)) :=
  if_pos h

theorem nameFrom_of_taken {taken : List (String × String)} {typeName first : String}
    (h : snakeCase typeName ≠ "") (hlookup : taken.lookup (of typeName).routine = some first)
    (rest : List String) :
    nameFrom taken (typeName :: rest) =
      .error (.nameCollision first typeName (of typeName).routine) := by
  rw [of] at hlookup
  simp only [nameFrom, if_neg h, hlookup, of]

theorem nameFrom_of_free {taken : List (String × String)} {typeName : String}
    (h : snakeCase typeName ≠ "") (hlookup : taken.lookup (of typeName).routine = none)
    (rest : List String) :
    nameFrom taken (typeName :: rest) =
      (nameFrom (((of typeName).routine, typeName) :: taken) rest).map fun others =>
        of typeName :: others := by
  rw [of] at hlookup
  simp only [nameFrom, if_neg h, hlookup, of]

/-- The types can be named behind those that have taken routines: their names in snake
case are not empty and distinct, and give no routine that is taken. -/
structure NameableBehind (taken : List (String × String)) (typeNames : List String) : Prop where
  ne_empty : ∀ typeName ∈ typeNames, snakeCase typeName ≠ ""
  nodup : (typeNames.map snakeCase).Nodup
  free : ∀ typeName ∈ typeNames, taken.lookup (of typeName).routine = none

theorem nameableBehind_cons_iff {taken : List (String × String)} {typeName : String}
    {rest : List String} :
    NameableBehind taken (typeName :: rest) ↔
      snakeCase typeName ≠ "" ∧ taken.lookup (of typeName).routine = none ∧
        NameableBehind (((of typeName).routine, typeName) :: taken) rest := by
  constructor
  · rintro ⟨hne, hnodup, hfree⟩
    obtain ⟨hempty, hne⟩ := List.forall_mem_cons.mp hne
    obtain ⟨hlookup, hfree⟩ := List.forall_mem_cons.mp hfree
    rw [List.map_cons, List.nodup_cons] at hnodup
    refine ⟨hempty, hlookup, hne, hnodup.2, fun other hother => ?_⟩
    refine lookup_cons_eq_none_iff.mpr ⟨fun heq => hnodup.1 ?_, hfree other hother⟩
    rw [← heq]
    exact List.mem_map_of_mem hother
  · rintro ⟨hempty, hlookup, hne, hnodup, hfree⟩
    have hsplit := fun other hother => lookup_cons_eq_none_iff.mp (hfree other hother)
    refine ⟨List.forall_mem_cons.mpr ⟨hempty, hne⟩, ?_,
      List.forall_mem_cons.mpr ⟨hlookup, fun other hother => (hsplit other hother).2⟩⟩
    rw [List.map_cons, List.nodup_cons]
    refine ⟨fun hmem => ?_, hnodup⟩
    obtain ⟨other, hother, heq⟩ := List.mem_map.mp hmem
    exact (hsplit other hother).1 heq

theorem nameFrom_eq_ok_iff {taken : List (String × String)} {typeNames : List String}
    {names : List TypeNames} :
    nameFrom taken typeNames = .ok names ↔
      NameableBehind taken typeNames ∧ names = typeNames.map of := by
  induction typeNames generalizing taken names with
  | nil =>
      rw [nameFrom, Except.ok.injEq, List.map_nil]
      exact ⟨fun h => ⟨⟨by simp, by simp, by simp⟩, h.symm⟩, fun h => h.2.symm⟩
  | cons typeName rest ih =>
      rw [nameableBehind_cons_iff]
      by_cases hempty : snakeCase typeName = ""
      · rw [nameFrom_of_empty hempty]
        exact iff_of_false (by rintro ⟨⟩) fun h => h.1.1 hempty
      cases hlookup : taken.lookup (of typeName).routine with
      | some first =>
          rw [nameFrom_of_taken hempty hlookup]
          exact iff_of_false (by rintro ⟨⟩) fun h => nomatch h.1.2.1
      | none =>
          rw [nameFrom_of_free hempty hlookup]
          constructor
          · intro h
            cases hrest : nameFrom (((of typeName).routine, typeName) :: taken) rest with
            | error error =>
                rw [hrest] at h
                cases h
            | ok others =>
                rw [hrest] at h
                cases h
                obtain ⟨hbehind, rfl⟩ := ih.mp hrest
                exact ⟨⟨hempty, rfl, hbehind⟩, rfl⟩
          · rintro ⟨⟨-, -, hbehind⟩, rfl⟩
            rw [ih.mpr ⟨hbehind, rfl⟩]
            rfl

/-- The types can be named: their names in snake case are not empty and distinct. -/
structure Nameable (typeNames : List String) : Prop where
  ne_empty : ∀ typeName ∈ typeNames, snakeCase typeName ≠ ""
  nodup : (typeNames.map snakeCase).Nodup

theorem ofTypes_eq_ok_iff {typeNames : List String} {names : List TypeNames} :
    ofTypes typeNames = .ok names ↔ Nameable typeNames ∧ names = typeNames.map of := by
  rw [ofTypes, nameFrom_eq_ok_iff]
  constructor
  · rintro ⟨⟨hne, hnodup, -⟩, rfl⟩
    exact ⟨⟨hne, hnodup⟩, rfl⟩
  · rintro ⟨⟨hne, hnodup⟩, rfl⟩
    exact ⟨⟨hne, hnodup, fun _ _ => rfl⟩, rfl⟩

end TypeNames

/-- The static of each type. -/
def staticsOf (typeNames : List String) : Entries String :=
  typeNames.map fun typeName => (typeName, (TypeNames.of typeName).static)

theorem get?_staticsOf {typeNames : List String} {typeName : String} (h : typeName ∈ typeNames) :
    (staticsOf typeNames).get? typeName = some (TypeNames.of typeName).static := by
  induction typeNames with
  | nil => cases h
  | cons first rest ih =>
      rw [staticsOf, List.map_cons, Entries.get?_cons]
      split
      · case isTrue heq => rw [heq]
      · case isFalse hne => exact ih ((List.mem_cons.mp h).resolve_left (Ne.symm hne))

theorem mem_of_get?_staticsOf {typeNames : List String} {typeName static : String}
    (h : (staticsOf typeNames).get? typeName = some static) :
    typeName ∈ typeNames ∧ static = (TypeNames.of typeName).static := by
  have hnames : (staticsOf typeNames).names = typeNames := by
    simp [staticsOf, Entries.names, Function.comp_def]
  have hmem := Entries.mem_names_of_get? h
  rw [hnames] at hmem
  rw [get?_staticsOf hmem] at h
  exact ⟨hmem, (Option.some.inj h).symm⟩

/-- The texts of the types of a module, for the plans of the types. -/
def typeTexts (crate : String) (plans : List ObjectPlan) : List String :=
  plans.map fun plan =>
    typeText crate (staticsOf (plans.map ObjectPlan.name)) plan (.of plan.name)

end Emission

open Emission in
/-- A module is emitted for the types that can be named. -/
theorem CompiledSchema.emit_eq_ok_iff {compiled : CompiledSchema} {options : EmitOptions}
    {text : String} :
    (compiled.emit options).outcome = .ok text ↔
      TypeNames.Nameable compiled.typeNames ∧
        text = (if options.header then headerText else "") ++ importsText options.runtimeCrate ++
          String.join (typeTexts options.runtimeCrate compiled.plans) := by
  have hzip : compiled.plans.zip (compiled.typeNames.map TypeNames.of) =
      compiled.plans.map fun plan => (plan, TypeNames.of plan.name) := by
    have hmaps : (compiled.plans.map id).zip (compiled.plans.map (TypeNames.of ∘ ObjectPlan.name)) =
        compiled.plans.map fun plan => (plan, TypeNames.of plan.name) := List.zip_map'
    rwa [List.map_id, ← List.map_map] at hmaps
  have hmodule : moduleText options (compiled.plans.map fun plan =>
      (plan, TypeNames.of plan.name)) = (if options.header then headerText else "") ++
        importsText options.runtimeCrate ++
          String.join (typeTexts options.runtimeCrate compiled.plans) := by
    rw [moduleText, List.map_map, List.map_map, typeTexts, staticsOf, List.map_map]
    rfl
  rw [emit, Logged.bind_def, Logged.outcome_bind]
  cases hnames : TypeNames.ofTypes compiled.typeNames with
  | error error =>
      refine iff_of_false (by rintro ⟨⟩) fun h => ?_
      have hok := TypeNames.ofTypes_eq_ok_iff.mpr ⟨h.1, rfl⟩
      rw [hnames] at hok
      cases hok
  | ok names =>
      obtain ⟨hnameable, rfl⟩ := TypeNames.ofTypes_eq_ok_iff.mp hnames
      change Except.ok (moduleText options (compiled.plans.zip _)) = _ ↔ _
      rw [hzip, hmodule, Except.ok.injEq]
      exact ⟨fun h => ⟨hnameable, h.symm⟩, fun h => h.2.symm⟩

end RecordSchema
