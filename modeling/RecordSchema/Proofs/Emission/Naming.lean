import RecordSchema.Proofs.Compile
import RecordSchema.Proofs.Emission.Name

/-!
# Naming the types of a schema

Naming stops at the first type whose name in snake case is empty or that of a type in
front of it, `TypeNames.ofTypes_eq_error_iff`. If there is no such type, every type has a
routine and a static of its own, and both are identifiers.

Main statement: `compiled_types_named`, which says for the types of a compiled schema when
they are named, with what, and why they are not.
-/

namespace RecordSchema

namespace Emission

/-! ## Names without letters and digits -/

theorem snakeFrom_eq_nil_iff (started gap : Bool) (before : Option Char) (text : List Char) :
    snakeFrom started gap before text = [] ↔ ∀ c ∈ text, c.isAlphanum = false := by
  fun_induction snakeFrom started gap before text with
  | case1 => simp
  | case2 _ _ _ _ _ halphanum => simp [halphanum]
  | case3 _ _ _ _ _ halphanum => simp [halphanum]
  | case4 _ _ _ _ _ hother ih => simp [hother, ih]

theorem snakeCase_eq_empty_iff (name : String) :
    snakeCase name = "" ↔ ∀ c ∈ name.toList, c.isAlphanum = false := by
  rw [← String.toList_inj, snakeCase, String.toList_ofList]
  exact snakeFrom_eq_nil_iff false false none name.toList

theorem snakeCase_ne_empty_iff (name : String) :
    snakeCase name ≠ "" ↔ ∃ c ∈ name.toList, c.isAlphanum = true := by
  rw [Ne, snakeCase_eq_empty_iff]
  simp

namespace TypeNames

/-! ## Identifiers -/

theorem isHead_of_isTail {c : Char} (h : CratePath.isTail c = true) (hdigit : c.isDigit = false) :
    CratePath.isHead c = true := by
  rw [CratePath.isTail, Char.isAlphanum, hdigit, Bool.or_false] at h
  exact h

theorem isIdentifier_of_isTail {text : List Char} (hne : text ≠ [])
    (htail : ∀ c ∈ text, CratePath.isTail c = true)
    (hhead : ∀ c ∈ text.head?, c.isDigit = false) : CratePath.isIdentifier text = true := by
  cases text with
  | nil => exact absurd rfl hne
  | cons first rest =>
      obtain ⟨hfirst, hrest⟩ := List.forall_mem_cons.mp htail
      rw [CratePath.isIdentifier, isHead_of_isTail hfirst (hhead first rfl), Bool.true_and,
        List.all_eq_true]
      exact hrest

theorem isIdentifier_routine (typeName : String) :
    CratePath.isIdentifier (of typeName).routine.toList = true := by
  refine isIdentifier_of_isTail ?_ (isTail_of_mem_routine typeName) ?_
  · rw [toList_routine]
    exact List.append_ne_nil_of_left_ne_nil (by decide) _
  · intro c hc
    rw [toList_routine] at hc
    cases hc
    decide

/-- A static does not start with a digit, since an underscore is put in front of one. -/
theorem isDigit_head_static (typeName : String) :
    ∀ c ∈ (of typeName).static.toList.head?, c.isDigit = false := by
  intro c hc
  rw [of, ofSnake, staticName] at hc
  dsimp only at hc
  split at hc
  · cases (by simpa using hc : '_' = c)
    decide
  · case isFalse hdigit =>
      rw [String.toList_ofList] at hdigit
      cases hupper : (snakeCase typeName).toList.map Char.toUpper with
      | nil =>
          cases (by simpa [hupper] using hc : '_' = c)
          decide
      | cons first rest =>
          cases (by simpa [hupper] using hc : first = c)
          simpa [hupper] using hdigit

theorem isIdentifier_static (typeName : String) :
    CratePath.isIdentifier (of typeName).static.toList = true := by
  refine isIdentifier_of_isTail ?_ (isTail_of_mem_static typeName) (isDigit_head_static typeName)
  rw [Ne, String.toList_eq_nil_iff]
  exact static_ne_empty typeName

/-! ## Distinct names -/

theorem nodup_map_routine {typeNames : List String} (h : Nameable typeNames) :
    ((typeNames.map of).map routine).Nodup := by
  have hroutines : (typeNames.map of).map routine = (typeNames.map snakeCase).map routineName := by
    rw [List.map_map, List.map_map]
    rfl
  rw [hroutines]
  exact h.nodup.map fun _ _ heq => routineName_inj.mp heq

/-- Types with distinct names in snake case have distinct statics. -/
theorem nodup_map_static {typeNames : List String} (h : Nameable typeNames) :
    ((typeNames.map of).map static).Nodup := by
  rw [List.map_map]
  exact List.Nodup.map_on (fun first hfirst second hsecond heq =>
    List.inj_on_of_nodup_map h.nodup hfirst hsecond (snakeCase_eq_of_static_eq heq)) h.nodup.of_map

/-! ## Where naming stops -/

/-- What is taken behind types that have been named. -/
def takenBehind (taken : List (String × String)) : List String → List (String × String)
  | [] => taken
  | typeName :: rest => takenBehind (((of typeName).routine, typeName) :: taken) rest

theorem nameFrom_append_error {taken : List (String × String)} {front rest : List String}
    (h : NameableBehind taken front) {error : SchemaError}
    (hrest : nameFrom (takenBehind taken front) rest = .error error) :
    nameFrom taken (front ++ rest) = .error error := by
  induction front generalizing taken with
  | nil => exact hrest
  | cons typeName others ih =>
      obtain ⟨hempty, hlookup, hothers⟩ := nameableBehind_cons_iff.mp h
      rw [List.cons_append, nameFrom_of_free hempty hlookup, ih hothers hrest]
      rfl

theorem lookup_takenBehind_of_ne {taken : List (String × String)} {front : List String}
    {typeName : String} (h : ∀ other ∈ front, snakeCase other ≠ snakeCase typeName) :
    (takenBehind taken front).lookup (of typeName).routine =
      taken.lookup (of typeName).routine := by
  induction front generalizing taken with
  | nil => rfl
  | cons first others ih =>
      obtain ⟨hfirst, hothers⟩ := List.forall_mem_cons.mp h
      have hroutine : ((of typeName).routine == (of first).routine) = false :=
        beq_false_of_ne fun heq => hfirst (routineName_inj.mp heq).symm
      rw [takenBehind, ih hothers, List.lookup_cons, hroutine]

/-- A routine that has been taken is that of one type, which is found under it. -/
theorem lookup_takenBehind {taken : List (String × String)} {front : List String}
    (hnodup : (front.map snakeCase).Nodup) {first typeName : String} (hfirst : first ∈ front)
    (hsame : snakeCase first = snakeCase typeName) :
    (takenBehind taken front).lookup (of typeName).routine = some first := by
  induction front generalizing taken with
  | nil => cases hfirst
  | cons other rest ih =>
      rw [List.map_cons, List.nodup_cons] at hnodup
      rcases List.mem_cons.mp hfirst with rfl | hrest
      · have hothers : ∀ other ∈ rest, snakeCase other ≠ snakeCase typeName := by
          intro other hother heq
          exact hnodup.1 (List.mem_map.mpr ⟨other, hother, heq.trans hsame.symm⟩)
        rw [takenBehind, lookup_takenBehind_of_ne hothers, of_routine, of_routine, hsame,
          List.lookup_cons_self]
      · exact ih hnodup.2 hrest

theorem Nameable.behind_nil {typeNames : List String} (h : Nameable typeNames) :
    NameableBehind [] typeNames :=
  ⟨h.ne_empty, h.nodup, fun _ _ => rfl⟩

theorem ofTypes_of_empty {front : List String} (h : Nameable front) {typeName : String}
    (hempty : snakeCase typeName = "") (back : List String) :
    ofTypes (front ++ typeName :: back) = .error (.malformed (.noIdentifier typeName)) :=
  nameFrom_append_error h.behind_nil (nameFrom_of_empty hempty back)

theorem ofTypes_of_taken {front : List String} (h : Nameable front) {first typeName : String}
    (hfirst : first ∈ front) (hsame : snakeCase first = snakeCase typeName) (back : List String) :
    ofTypes (front ++ typeName :: back) =
      .error (.nameCollision first typeName (of typeName).routine) := by
  have hempty : snakeCase typeName ≠ "" := hsame ▸ h.ne_empty first hfirst
  exact nameFrom_append_error h.behind_nil
    (nameFrom_of_taken hempty (lookup_takenBehind h.nodup hfirst hsame) back)

theorem nameable_nil : Nameable [] :=
  ⟨by simp, by simp⟩

theorem nameable_append_singleton_iff {front : List String} {typeName : String} :
    Nameable (front ++ [typeName]) ↔ Nameable front ∧ snakeCase typeName ≠ "" ∧
      ∀ first ∈ front, snakeCase first ≠ snakeCase typeName := by
  constructor
  · rintro ⟨hne, hnodup⟩
    rw [List.map_append, List.map_singleton, List.nodup_append] at hnodup
    obtain ⟨hfront, -, hapart⟩ := hnodup
    refine ⟨⟨fun first hfirst => hne first (List.mem_append_left _ hfirst), hfront⟩,
      hne typeName (List.mem_append_right _ List.mem_cons_self), fun first hfirst => ?_⟩
    exact hapart _ (List.mem_map_of_mem hfirst) _ List.mem_cons_self
  · rintro ⟨⟨hne, hnodup⟩, hempty, hapart⟩
    refine ⟨fun other hother => ?_, ?_⟩
    · rcases List.mem_append.mp hother with hother | hother
      · exact hne other hother
      · rwa [List.mem_singleton.mp hother]
    · rw [List.map_append, List.map_singleton, List.nodup_append]
      refine ⟨hnodup, List.nodup_singleton _, fun snake hsnake snake' hsnake' => ?_⟩
      obtain ⟨first, hfirst, rfl⟩ := List.mem_map.mp hsnake
      rw [List.mem_singleton.mp hsnake']
      exact hapart first hfirst

/-- Among types that cannot be named there is a first one that stops the naming. -/
theorem exists_stop_of_not_nameable {typeNames : List String} (h : ¬ Nameable typeNames) :
    ∃ front typeName back, typeNames = front ++ typeName :: back ∧ Nameable front ∧
      (snakeCase typeName = "" ∨ ∃ first ∈ front, snakeCase first = snakeCase typeName) := by
  induction typeNames using List.reverseRecOn with
  | nil => exact absurd nameable_nil h
  | append_singleton front typeName ih =>
      by_cases hfront : Nameable front
      · refine ⟨front, typeName, [], rfl, hfront, ?_⟩
        by_contra hstop
        push Not at hstop
        exact h (nameable_append_singleton_iff.mpr ⟨hfront, hstop⟩)
      · obtain ⟨front', stop, back, rfl, hstop⟩ := ih hfront
        exact ⟨front', stop, back ++ [typeName], by simp, hstop⟩

/-- Naming stops at the first type whose name in snake case is empty or that of a type in
front of it, and the error tells which. -/
theorem ofTypes_eq_error_iff {typeNames : List String} {error : SchemaError} :
    ofTypes typeNames = .error error ↔
      ∃ front typeName back, typeNames = front ++ typeName :: back ∧ Nameable front ∧
        ((snakeCase typeName = "" ∧ error = .malformed (.noIdentifier typeName)) ∨
          ∃ first ∈ front, snakeCase first = snakeCase typeName ∧
            error = .nameCollision first typeName (of typeName).routine) := by
  constructor
  · intro h
    have hnot : ¬ Nameable typeNames := by
      intro hnameable
      rw [ofTypes_eq_ok_iff.mpr ⟨hnameable, rfl⟩] at h
      cases h
    obtain ⟨front, typeName, back, rfl, hfront, hempty | ⟨first, hfirst, hsame⟩⟩ :=
      exists_stop_of_not_nameable hnot
    · rw [ofTypes_of_empty hfront hempty] at h
      exact ⟨front, typeName, back, rfl, hfront, .inl ⟨hempty, (Except.error.inj h).symm⟩⟩
    · rw [ofTypes_of_taken hfront hfirst hsame] at h
      exact ⟨front, typeName, back, rfl, hfront,
        .inr ⟨first, hfirst, hsame, (Except.error.inj h).symm⟩⟩
  · rintro ⟨front, typeName, back, rfl, hfront, ⟨hempty, rfl⟩ | ⟨first, hfirst, hsame, rfl⟩⟩
    · exact ofTypes_of_empty hfront hempty back
    · exact ofTypes_of_taken hfront hfirst hsame back

theorem nameable_iff {typeNames : List String} :
    Nameable typeNames ↔
      (∀ typeName ∈ typeNames, ∃ c ∈ typeName.toList, c.isAlphanum = true) ∧
        (typeNames.map snakeCase).Nodup :=
  ⟨fun h => ⟨fun typeName hmem => (snakeCase_ne_empty_iff typeName).mp (h.ne_empty typeName hmem),
      h.nodup⟩,
    fun h => ⟨fun typeName hmem => (snakeCase_ne_empty_iff typeName).mpr (h.1 typeName hmem), h.2⟩⟩

end TypeNames

/-- The types of a compiled schema are named exactly if each name has a letter or a digit of
ASCII and the names in snake case are distinct. Then each type has its names, the routines
are distinct and so are the statics, and all are identifiers. Otherwise the error is about
the first type whose name in snake case is empty, or is that of a type in front of it. -/
theorem compiled_types_named {schema : Schema} {compiled : CompiledSchema}
    (hcompile : schema.compile.outcome = .ok compiled) :
    ((∃ names, TypeNames.ofTypes compiled.typeNames = .ok names) ↔
      (∀ typeName ∈ schema.names, ∃ c ∈ typeName.toList, c.isAlphanum = true) ∧
        (schema.names.map snakeCase).Nodup) ∧
    (∀ names, TypeNames.ofTypes compiled.typeNames = .ok names →
      names = schema.names.map TypeNames.of ∧
        (names.map TypeNames.routine).Nodup ∧ (names.map TypeNames.static).Nodup ∧
        ∀ typeNames ∈ names, CratePath.isIdentifier typeNames.routine.toList = true ∧
          CratePath.isIdentifier typeNames.static.toList = true) ∧
    (∀ error, TypeNames.ofTypes compiled.typeNames = .error error ↔
      ∃ front typeName back, schema.names = front ++ typeName :: back ∧
        ((∀ first ∈ front, snakeCase first ≠ "") ∧ (front.map snakeCase).Nodup) ∧
        ((snakeCase typeName = "" ∧ error = .malformed (.noIdentifier typeName)) ∨
          ∃ first ∈ front, snakeCase first = snakeCase typeName ∧
            error = .nameCollision first typeName ("validate_" ++ snakeCase typeName))) := by
  rw [Schema.typeNames_of_compile hcompile]
  refine ⟨?_, fun names hnames => ?_, fun error => ?_⟩
  · rw [← TypeNames.nameable_iff]
    constructor
    · rintro ⟨names, hnames⟩
      exact (TypeNames.ofTypes_eq_ok_iff.mp hnames).1
    · intro hnameable
      exact ⟨_, TypeNames.ofTypes_eq_ok_iff.mpr ⟨hnameable, rfl⟩⟩
  · obtain ⟨hnameable, rfl⟩ := TypeNames.ofTypes_eq_ok_iff.mp hnames
    refine ⟨rfl, TypeNames.nodup_map_routine hnameable, TypeNames.nodup_map_static hnameable, ?_⟩
    intro typeNames hmem
    obtain ⟨typeName, -, rfl⟩ := List.mem_map.mp hmem
    exact ⟨TypeNames.isIdentifier_routine typeName, TypeNames.isIdentifier_static typeName⟩
  · rw [TypeNames.ofTypes_eq_error_iff]
    constructor
    · rintro ⟨front, typeName, back, hsplit, hfront, hstop⟩
      exact ⟨front, typeName, back, hsplit, ⟨hfront.ne_empty, hfront.nodup⟩, hstop⟩
    · rintro ⟨front, typeName, back, hsplit, ⟨hne, hnodup⟩, hstop⟩
      exact ⟨front, typeName, back, hsplit, ⟨hne, hnodup⟩, hstop⟩

theorem compiled_types_named_profiles :
    ∃ compiled, (Schema.compile [("3D", []), ("UserProfile", []), ("user_profile", []),
        ("$", [])]).outcome = .ok compiled ∧
      TypeNames.ofTypes compiled.typeNames =
        .error (.nameCollision "UserProfile" "user_profile" "validate_user_profile") := by
  have hcompile := Schema.compile_without_properties ["3D", "UserProfile", "user_profile", "$"]
  have hroutine : "validate_user_profile" = "validate_" ++ snakeCase "user_profile" := by decide
  refine ⟨_, hcompile, ((compiled_types_named hcompile).2.2 _).mpr ?_⟩
  exact ⟨["3D", "UserProfile"], "user_profile", ["$"], rfl, by decide,
    .inr ⟨"UserProfile", by decide, by decide, by rw [hroutine]⟩⟩

end Emission

end RecordSchema
