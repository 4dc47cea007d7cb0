import RecordSchema.Proofs.Spelling

/-!
# Transforms settle

A value that has gone through a list of transforms is one that none of them
changes any more, in whatever order they stand. Two facts about single
transforms are behind this. Each transform leaves its own results alone, and a
value that one transform leaves alone is still left alone after another one: a
text that spells no number does not come to spell one by losing its blanks or
its capitals, and neither does trimming undo lowercasing or the other way round.

Any two transforms may also change places: a text that spells a number spells the
same one without its blanks and in lower case. So what comes out of a list depends
on its members only, `applyAll_eq_of_same_members`.
-/

namespace RecordSchema

namespace Number

theorem truncate_ofTruncated (x : Binary64) : (ofTruncated x).truncate = ofTruncated x := by
  by_cases h : -9223372036854775808 ≤ x.truncate ∧ x.truncate < 9223372036854775808
  · rw [ofTruncated, dif_pos h]
    rfl
  · have hfloat : ofTruncated x = float x := by
      rw [ofTruncated, dif_neg h]
    rw [hfloat]
    exact hfloat

theorem truncate_truncate (n : Number) : n.truncate.truncate = n.truncate := by
  cases n with
  | integer _ => rfl
  | float x => exact truncate_ofTruncated x

/-- A number that is read from a text is rounded already. -/
theorem truncate_of_ofWholeText? {text : List Char} {n : Number}
    (h : ofWholeText? text = some n) : n.truncate = n := by
  have hrounded : ∀ spelling : Spelling,
      spelling.value.nearest?.map ofTruncated = some n → n.truncate = n := by
    intro spelling hn
    obtain ⟨x, -, rfl⟩ := Option.map_eq_some_iff.mp hn
    exact truncate_ofTruncated x
  rw [ofWholeText?] at h
  split at h
  · cases h
  next spelling _ =>
    dsimp only at h
    split at h
    · split at h
      · cases h
        rfl
      · exact hrounded spelling h
    · exact hrounded spelling h

end Number

namespace Transform

/-! ## Values that a transform leaves alone -/

theorem apply_trim_string (text : String) :
    trim.apply (.string text) = .string (String.ofList (Text.trim text.toList)) := rfl

theorem apply_lowercase_string (text : String) :
    lowercase.apply (.string text) = .string (String.ofList (Text.lowercase text.toList)) := rfl

theorem apply_toInteger_string (text : String) :
    toInteger.apply (.string text) =
      match Number.ofWholeText? (Text.trim text.toList) with
      | some n => .number n
      | none => .string text := rfl

theorem apply_number_cases (transform : Transform) (n : Number) :
    transform.apply (.number n) = .number n ∨
      transform.apply (.number n) = .number n.truncate := by
  cases transform with
  | trim => exact .inl rfl
  | lowercase => exact .inl rfl
  | toInteger => exact .inr rfl

theorem apply_number_of_truncate {n : Number} (h : n.truncate = n) (transform : Transform) :
    transform.apply (.number n) = .number n := by
  rcases apply_number_cases transform n with hself | htruncate
  · exact hself
  · rw [htruncate, h]

/-- A text as it comes out of `toInteger`: it spells no number, or it has become
a number that no transform changes. -/
theorem apply_toInteger_string_cases (text : String) :
    (Number.ofWholeText? (Text.trim text.toList) = none ∧
      toInteger.apply (.string text) = .string text) ∨
    ∃ n : Number, n.truncate = n ∧ toInteger.apply (.string text) = .number n := by
  rw [apply_toInteger_string]
  cases h : Number.ofWholeText? (Text.trim text.toList) with
  | none => exact .inl ⟨rfl, rfl⟩
  | some n => exact .inr ⟨n, Number.truncate_of_ofWholeText? h, rfl⟩

theorem string_ofList_eq_iff {chars : List Char} {text : String} :
    Json.string (String.ofList chars) = .string text ↔ chars = text.toList := by
  rw [Json.string.injEq, ← String.toList_inj, String.toList_ofList]

theorem apply_trim_string_eq_iff (text : String) :
    trim.apply (.string text) = .string text ↔ Text.trim text.toList = text.toList := by
  rw [apply_trim_string, string_ofList_eq_iff]

theorem apply_lowercase_string_eq_iff (text : String) :
    lowercase.apply (.string text) = .string text ↔ Text.lowercase text.toList = text.toList := by
  rw [apply_lowercase_string, string_ofList_eq_iff]

theorem apply_toInteger_string_eq_iff (text : String) :
    toInteger.apply (.string text) = .string text ↔
      Number.ofWholeText? (Text.trim text.toList) = none := by
  rw [apply_toInteger_string]
  cases Number.ofWholeText? (Text.trim text.toList) with
  | none => exact iff_of_true rfl rfl
  | some n => exact iff_of_false (by rintro ⟨⟩) (by rintro ⟨⟩)

/-! ## Two transforms -/

/-- A transform leaves its own results alone. -/
theorem apply_apply (transform : Transform) (value : Json) :
    transform.apply (transform.apply value) = transform.apply value := by
  cases value with
  | null => rfl
  | boolean _ => rfl
  | array _ => rfl
  | object _ => rfl
  | number n =>
      rcases apply_number_cases transform n with hself | htruncate
      · rw [hself, hself]
      · rw [htruncate, apply_number_of_truncate n.truncate_truncate]
  | string text =>
      cases transform with
      | trim =>
          rw [apply_trim_string, apply_trim_string_eq_iff, String.toList_ofList, Text.trim_trim]
      | lowercase =>
          rw [apply_lowercase_string, apply_lowercase_string_eq_iff, String.toList_ofList,
            Text.lowercase_lowercase]
      | toInteger =>
          rcases apply_toInteger_string_cases text with ⟨-, hself⟩ | ⟨n, hn, hnumber⟩
          · rw [hself, hself]
          · rw [hnumber, apply_number_of_truncate hn]

/-- A text that a transform leaves alone is still left alone after another one. -/
theorem apply_apply_string_of_eq {transform : Transform} {text : String}
    (h : transform.apply (.string text) = .string text) (other : Transform) :
    transform.apply (other.apply (.string text)) = other.apply (.string text) := by
  cases other with
  | trim =>
      cases transform with
      | trim => exact apply_apply trim _
      | lowercase =>
          rw [apply_lowercase_string_eq_iff] at h
          rw [apply_trim_string, apply_lowercase_string_eq_iff, String.toList_ofList,
            ← Text.trim_lowercase, h]
      | toInteger =>
          rw [apply_toInteger_string_eq_iff] at h
          rw [apply_trim_string, apply_toInteger_string_eq_iff, String.toList_ofList,
            Text.trim_trim, h]
  | lowercase =>
      cases transform with
      | trim =>
          rw [apply_trim_string_eq_iff] at h
          rw [apply_lowercase_string, apply_trim_string_eq_iff, String.toList_ofList,
            Text.trim_lowercase, h]
      | lowercase => exact apply_apply lowercase _
      | toInteger =>
          rw [apply_toInteger_string_eq_iff] at h
          rw [apply_lowercase_string, apply_toInteger_string_eq_iff, String.toList_ofList,
            Text.trim_lowercase, Number.ofWholeText?_lowercase, h]
  | toInteger =>
      rcases apply_toInteger_string_cases text with ⟨-, hself⟩ | ⟨n, hn, hnumber⟩
      · rw [hself, h]
      · rw [hnumber, apply_number_of_truncate hn]

theorem apply_apply_of_eq {transform : Transform} {value : Json}
    (h : transform.apply value = value) (other : Transform) :
    transform.apply (other.apply value) = other.apply value := by
  cases value with
  | null => rfl
  | boolean _ => rfl
  | array _ => rfl
  | object _ => rfl
  | string text => exact apply_apply_string_of_eq h other
  | number n =>
      rcases apply_number_cases other n with hself | htruncate
      · rw [hself, h]
      · rw [htruncate, apply_number_of_truncate n.truncate_truncate]

/-! ## Lists of transforms -/

theorem apply_applyAll_of_eq {transform : Transform} {value : Json}
    (h : transform.apply value = value) (transforms : List Transform) :
    transform.apply (applyAll transforms value) = applyAll transforms value := by
  induction transforms generalizing value with
  | nil => exact h
  | cons other rest ih =>
      rw [applyAll_cons]
      exact ih (apply_apply_of_eq h other)

/-- No transform of a list changes what comes out of the list. -/
theorem apply_applyAll_of_mem {transforms : List Transform} {transform : Transform}
    (h : transform ∈ transforms) (value : Json) :
    transform.apply (applyAll transforms value) = applyAll transforms value := by
  induction transforms generalizing value with
  | nil => cases h
  | cons other rest ih =>
      rw [applyAll_cons]
      rcases List.mem_cons.mp h with rfl | hrest
      · exact apply_applyAll_of_eq (apply_apply transform value) rest
      · exact ih hrest (other.apply value)

theorem applyAll_eq_self {transforms : List Transform} {value : Json}
    (h : ∀ transform ∈ transforms, transform.apply value = value) :
    applyAll transforms value = value := by
  induction transforms with
  | nil => rfl
  | cons transform rest ih =>
      rw [applyAll_cons, h transform List.mem_cons_self]
      exact ih fun other hother => h other (List.mem_cons_of_mem _ hother)

/-- Transforming twice is transforming once. -/
theorem applyAll_applyAll (transforms : List Transform) (value : Json) :
    applyAll transforms (applyAll transforms value) = applyAll transforms value :=
  applyAll_eq_self fun _ hmem => apply_applyAll_of_mem hmem value

/-! ## The order of transforms -/

theorem apply_number_of_ne {transform : Transform} (h : transform ≠ toInteger) (n : Number) :
    transform.apply (.number n) = .number n := by
  cases transform with
  | trim => rfl
  | lowercase => rfl
  | toInteger => exact absurd rfl h

/-- Trimming and lowercasing make a text of a text, and it spells the same number. -/
theorem exists_text_of_ne {transform : Transform} (h : transform ≠ toInteger) (text : String) :
    ∃ after : String, transform.apply (.string text) = .string after ∧
      Number.ofWholeText? (Text.trim after.toList) =
        Number.ofWholeText? (Text.trim text.toList) := by
  cases transform with
  | trim =>
      refine ⟨_, apply_trim_string text, ?_⟩
      rw [String.toList_ofList, Text.trim_trim]
  | lowercase =>
      refine ⟨_, apply_lowercase_string text, ?_⟩
      rw [String.toList_ofList, Text.trim_lowercase, Number.ofWholeText?_lowercase]
  | toInteger => exact absurd rfl h

theorem apply_toInteger_comm {transform : Transform} (h : transform ≠ toInteger) (text : String) :
    toInteger.apply (transform.apply (.string text)) =
      transform.apply (toInteger.apply (.string text)) := by
  obtain ⟨after, hafter, hspells⟩ := exists_text_of_ne h text
  rw [hafter, apply_toInteger_string, apply_toInteger_string, hspells]
  cases Number.ofWholeText? (Text.trim text.toList) with
  | none => exact hafter.symm
  | some n => exact (apply_number_of_ne h n).symm

theorem apply_trim_comm_lowercase (text : String) :
    trim.apply (lowercase.apply (.string text)) = lowercase.apply (trim.apply (.string text)) := by
  rw [apply_lowercase_string, apply_trim_string, apply_trim_string, apply_lowercase_string,
    String.toList_ofList, String.toList_ofList, Text.trim_lowercase]

theorem apply_string_comm (first second : Transform) (text : String) :
    first.apply (second.apply (.string text)) = second.apply (first.apply (.string text)) := by
  by_cases hfirst : first = toInteger
  · by_cases hsecond : second = toInteger
    · rw [hfirst, hsecond]
    · rw [hfirst, apply_toInteger_comm hsecond]
  · by_cases hsecond : second = toInteger
    · rw [hsecond, apply_toInteger_comm hfirst]
    · cases first with
      | trim =>
          cases second with
          | trim => rfl
          | lowercase => exact apply_trim_comm_lowercase text
          | toInteger => exact absurd rfl hsecond
      | lowercase =>
          cases second with
          | trim => exact (apply_trim_comm_lowercase text).symm
          | lowercase => rfl
          | toInteger => exact absurd rfl hsecond
      | toInteger => exact absurd rfl hfirst

theorem apply_number_comm (first second : Transform) (n : Number) :
    first.apply (second.apply (.number n)) = second.apply (first.apply (.number n)) := by
  have htruncated : ∀ transform : Transform,
      transform.apply (.number n.truncate) = .number n.truncate :=
    apply_number_of_truncate n.truncate_truncate
  rcases apply_number_cases first n with hfirst | hfirst
  · rcases apply_number_cases second n with hsecond | hsecond
    · rw [hsecond, hfirst, hsecond]
    · rw [hfirst, hsecond, htruncated]
  · rcases apply_number_cases second n with hsecond | hsecond
    · rw [hsecond, hfirst, htruncated]
    · rw [hfirst, hsecond, htruncated, htruncated]

/-- Two transforms may change places. -/
theorem apply_comm (first second : Transform) (value : Json) :
    first.apply (second.apply value) = second.apply (first.apply value) := by
  cases value with
  | null => rfl
  | boolean _ => rfl
  | array _ => rfl
  | object _ => rfl
  | number n => exact apply_number_comm first second n
  | string text => exact apply_string_comm first second text

theorem apply_applyAll_comm (transform : Transform) (transforms : List Transform) (value : Json) :
    transform.apply (applyAll transforms value) = applyAll transforms (transform.apply value) := by
  induction transforms generalizing value with
  | nil => rfl
  | cons first rest ih => rw [applyAll_cons, applyAll_cons, ih, apply_comm]

theorem applyAll_comm (transforms transforms' : List Transform) (value : Json) :
    applyAll transforms (applyAll transforms' value) =
      applyAll transforms' (applyAll transforms value) := by
  induction transforms generalizing value with
  | nil => rfl
  | cons first rest ih => rw [applyAll_cons, applyAll_cons, apply_applyAll_comm, ih]

/-- Transforms that have been applied already change nothing when they are applied again. -/
theorem applyAll_of_subset {transforms transforms' : List Transform}
    (h : ∀ transform ∈ transforms', transform ∈ transforms) (value : Json) :
    applyAll transforms' (applyAll transforms value) = applyAll transforms value :=
  applyAll_eq_self fun transform hmem => apply_applyAll_of_mem (h transform hmem) value

/-- What comes out of a list of transforms depends on its members only, not on their order and
not on how often they stand there. So a list may be applied twice, and any two transforms may
change places. -/
theorem applyAll_eq_of_same_members {transforms transforms' : List Transform}
    (h : ∀ transform, transform ∈ transforms ↔ transform ∈ transforms') :
    (∀ value, applyAll transforms value = applyAll transforms' value) ∧
      (∀ value, applyAll transforms (applyAll transforms value) = applyAll transforms value) ∧
      ∀ (first second : Transform) (value : Json),
        first.apply (second.apply value) = second.apply (first.apply value) := by
  refine ⟨fun value => ?_, applyAll_applyAll transforms, apply_comm⟩
  calc applyAll transforms value
      = applyAll transforms' (applyAll transforms value) :=
        (applyAll_of_subset (fun transform hmem => (h transform).mpr hmem) value).symm
    _ = applyAll transforms (applyAll transforms' value) :=
        applyAll_comm transforms' transforms value
    _ = applyAll transforms' value :=
        applyAll_of_subset (fun transform hmem => (h transform).mp hmem) value

theorem applyAll_spaced_thousand :
    (∀ transform, transform ∈ [lowercase, trim, toInteger, trim] ↔
      transform ∈ [toInteger, trim, lowercase]) ∧
    applyAll [lowercase, trim, toInteger, trim] (.string " -1.0005E3 ") =
      applyAll [toInteger, trim, lowercase] (.string " -1.0005E3 ") ∧
    applyAll [toInteger, trim, lowercase] (.string " -1.0005E3 ") =
      .number (.integer ⟨-1000, by decide, by decide⟩) := by
  have hsame : ∀ transform, transform ∈ [lowercase, trim, toInteger, trim] ↔
      transform ∈ [toInteger, trim, lowercase] := by
    intro transform
    cases transform <;> simp
  exact ⟨hsame, (applyAll_eq_of_same_members hsame).1 _, by rfl⟩

/-! ## Arrays and objects -/

theorem applyAll_array (transforms : List Transform) (elements : List Json) :
    applyAll transforms (.array elements) = .array elements :=
  applyAll_eq_self fun _ _ => rfl

theorem applyAll_object (transforms : List Transform) (members : List (String × Json)) :
    applyAll transforms (.object members) = .object members :=
  applyAll_eq_self fun _ _ => rfl

end Transform

end RecordSchema
