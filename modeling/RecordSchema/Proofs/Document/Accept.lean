import RecordSchema.Proofs.Document.Members
import RecordSchema.Proofs.Document.Role

/-!
# Which values are schema documents

`Schema.ofValue` reads exactly the values that the grammar of documents allows, and reads
them as what they are documents of. The proof follows the value. The members of an object
and the elements of an array come to one statement each, in which a draft of the fields
that have been read before is carried along; a step of either is
`SpecDraft.settles_set_iff`.

Main statements: `Json.readsDocuments` for the parts of a document, and
`Schema.ofValue_eq_ok_iff`.
-/

namespace RecordSchema

/-! ## Collecting fields -/

namespace SpecDraft

variable {draft : SpecDraft} {field : SpecField} {names : List String}

/-- What a draft comes to say of a field, if the field is still to be read from the given
value, or is not to be read any more. -/
def Settles (draft : SpecDraft) (field : SpecField) (given : Option Json)
    (meaning : field.Meaning) : Prop :=
  match given with
  | some value => FieldDocument field value meaning
  | none => (draft.slot field).or field.default? = some meaning

theorem settles_empty_iff {given : Option Json} {meaning : field.Meaning} :
    empty.Settles field given meaning ↔ GivenDocument field given meaning := by
  cases given with
  | some value =>
      refine ⟨.given, ?_⟩
      rintro ⟨hdocument⟩
      exact hdocument
  | none =>
      rw [Settles, slot_empty, Option.none_or]
      refine ⟨.leftOut, ?_⟩
      intro h
      cases h with
      | leftOut hdefault => exact hdefault

theorem settles_set_self {meaning meaning' : field.Meaning} :
    (draft.set field meaning).Settles field none meaning' ↔ meaning = meaning' := by
  rw [Settles, slot_set_self, Option.some_or, Option.some.injEq]

theorem settles_set_of_ne {other : SpecField} (h : other ≠ field) {meaning : field.Meaning}
    {given : Option Json} {meaning' : other.Meaning} :
    (draft.set field meaning).Settles other given meaning' ↔
      draft.Settles other given meaning' := by
  cases given with
  | some value => exact Iff.rfl
  | none => rw [Settles, Settles, slot_set_of_ne draft meaning h]

theorem lacks_nil (draft : SpecDraft) : draft.Lacks [] :=
  ⟨List.nodup_nil, fun _ _ hmem => nomatch hmem⟩

theorem lacks_cons_unknown_iff {name : String} (hname : SpecField.ofName? name = none) :
    draft.Lacks (name :: names) ↔ draft.Lacks names := by
  refine ⟨fun h => ⟨?_, fun other field hother => h.has_eq_false other field
    (List.mem_cons_of_mem _ hother)⟩, .cons_unknown hname⟩
  simpa [Place.declares, hname] using h.nodup

/-- A field is lacking in front of others if it is not in the draft, none of the others, and
they are lacking. -/
theorem lacks_cons_iff :
    draft.Lacks (field.name :: names) ↔
      draft.has field = false ∧ field.name ∉ names ∧ draft.Lacks names := by
  have hdeclares : Place.spec.declares field.name = true := by simp [Place.declares]
  constructor
  · intro h
    have hnodup := h.nodup
    rw [List.filter_cons_of_pos hdeclares, List.nodup_cons, List.mem_filter] at hnodup
    refine ⟨h.has_eq_false _ field List.mem_cons_self (SpecField.ofName?_name field),
      fun hmem => hnodup.1 ⟨hmem, hdeclares⟩, hnodup.2, fun other other' hother => ?_⟩
    exact h.has_eq_false other other' (List.mem_cons_of_mem _ hother)
  · rintro ⟨hhas, hfresh, h⟩
    constructor
    · rw [List.filter_cons_of_pos hdeclares, List.nodup_cons]
      exact ⟨fun hmem => hfresh (List.mem_of_mem_filter hmem), h.nodup⟩
    · intro other other' hother hname
      rcases List.mem_cons.mp hother with rfl | hother
      · rw [SpecField.ofName?_name] at hname
        cases hname
        exact hhas
      · exact h.has_eq_false other other' hother hname

/-- What is lacking in a draft with one more field lacked before, and is not that field. -/
theorem lacks_set_iff {meaning : field.Meaning} :
    (draft.set field meaning).Lacks names ↔ field.name ∉ names ∧ draft.Lacks names := by
  have hhas : field.name ∉ names → ∀ name other, name ∈ names →
      SpecField.ofName? name = some other →
        (draft.set field meaning).has other = draft.has other := by
    intro hfresh name other hmem hname
    have hne : other ≠ field := by
      rintro rfl
      rw [SpecField.ofName?_eq_some_iff] at hname
      exact hfresh (hname ▸ hmem)
    rw [has_eq_isSome_slot, slot_set_of_ne draft meaning hne, has_eq_isSome_slot]
  constructor
  · intro h
    have hfresh : field.name ∉ names := by
      intro hmem
      have hself := h.has_eq_false _ field hmem (SpecField.ofName?_name field)
      rw [has_eq_isSome_slot, slot_set_self] at hself
      cases hself
    exact ⟨hfresh, h.nodup, fun name other hmem hname =>
      hhas hfresh name other hmem hname ▸ h.has_eq_false name other hmem hname⟩
  · rintro ⟨hfresh, h⟩
    exact ⟨h.nodup, fun name other hmem hname =>
      (hhas hfresh name other hmem hname).trans (h.has_eq_false name other hmem hname)⟩

/-- A step of reading: the value of one field is looked at, and the other fields are as they
were. -/
theorem settles_set_iff {value : Json} {given rest : SpecField → Option Json}
    {meaning : field.Meaning} {fields : SpecFields} (hself : given field = some value)
    (hrest : rest field = none) (hothers : ∀ other, other ≠ field → given other = rest other) :
    (FieldDocument field value meaning ∧
      ∀ other, (draft.set field meaning).Settles other (rest other) (fields.get other)) ↔
    meaning = fields.get field ∧ ∀ other, draft.Settles other (given other) (fields.get other) := by
  constructor
  · rintro ⟨hdocument, hsettles⟩
    have hmeaning : meaning = fields.get field := by
      have hfield := hsettles field
      rwa [hrest, settles_set_self] at hfield
    refine ⟨hmeaning, fun other => ?_⟩
    by_cases hne : other = field
    · subst hne
      rw [hself]
      exact hmeaning ▸ hdocument
    · rw [hothers other hne]
      exact (settles_set_of_ne hne).mp (hsettles other)
  · rintro ⟨rfl, hsettles⟩
    constructor
    · have hfield := hsettles field
      rwa [hself] at hfield
    · intro other
      by_cases hne : other = field
      · subst hne
        rw [hrest, settles_set_self]
      · rw [settles_set_of_ne hne, ← hothers other hne]
        exact hsettles other

end SpecDraft

namespace Json

/-- Members give fields if the known ones among them are distinct and lacking, and each
has a value of its kind. -/
theorem fieldMembers_eq_ok_iff {members : Entries Json}
    (hmembers : ∀ name value, (name, value) ∈ members → value.ReadsDocuments)
    {draft : SpecDraft} {fields : SpecFields} :
    (fieldMembers members draft).outcome = .ok fields ↔
      draft.Lacks members.names ∧ ∀ field : SpecField,
        draft.Settles field (Entries.get? members field.name) (fields.get field) := by
  -- along the members: the draft holds the fields of those before them
  induction members generalizing draft with
  | nil =>
      rw [fieldMembers, Logged.ofExcept, SpecDraft.fields_eq_ok_iff]
      exact (and_iff_right (SpecDraft.lacks_nil draft)).symm
  | cons member rest ih =>
      obtain ⟨name, value⟩ := member
      have hrest : ∀ name value, (name, value) ∈ rest → value.ReadsDocuments :=
        fun name value hmem => hmembers name value (List.mem_cons_of_mem _ hmem)
      rw [fieldMembers, Entries.names_cons]
      cases hname : SpecField.ofName? name with
      | none =>
          have hget : ∀ field : SpecField,
              Entries.get? ((name, value) :: rest) field.name = Entries.get? rest field.name := by
            intro field
            rw [Entries.get?_cons, if_neg]
            rintro rfl
            rw [SpecField.ofName?_name] at hname
            cases hname
          simp only [ih hrest, SpecDraft.lacks_cons_unknown_iff hname, hget]
      | some field =>
          obtain rfl := SpecField.ofName?_eq_some_iff.mp hname
          have hself : Entries.get? ((field.name, value) :: rest) field.name = some value := by
            rw [Entries.get?_cons, if_pos rfl]
          have hothers : ∀ other, other ≠ field →
              Entries.get? ((field.name, value) :: rest) other.name =
                Entries.get? rest other.name := by
            intro other hne
            rw [Entries.get?_cons, if_neg fun heq => hne (SpecField.name_injective heq.symm)]
          have hread := hmembers field.name value List.mem_cons_self
          rw [SpecDraft.lacks_cons_iff]
          dsimp only
          split
          · next hhas => simp [hhas, Logged.fail]
          · next hhas =>
            rw [Logged.bind_def, Logged.outcome_bind]
            refine Except.bind_eq_ok_iff.trans ?_
            constructor
            · rintro ⟨draft', hdraft, hfields⟩
              obtain ⟨meaning, hdocument, rfl⟩ := (read_eq_ok_iff hread).mp hdraft
              obtain ⟨hlacks, hsettles⟩ := (ih hrest).mp hfields
              -- the field is none of the others, so no later member says anything of it
              obtain ⟨hfresh, hlacks⟩ := SpecDraft.lacks_set_iff.mp hlacks
              exact ⟨⟨by simpa using hhas, hfresh, hlacks⟩, ((SpecDraft.settles_set_iff hself
                (Entries.get?_eq_none_iff.mpr hfresh) hothers).mp ⟨hdocument, hsettles⟩).2⟩
            · rintro ⟨⟨-, hfresh, hlacks⟩, hsettles⟩
              obtain ⟨hdocument, hsettles⟩ := (SpecDraft.settles_set_iff hself
                (Entries.get?_eq_none_iff.mpr hfresh) hothers).mpr ⟨rfl, hsettles⟩
              exact ⟨_, (read_eq_ok_iff hread).mpr ⟨_, hdocument, rfl⟩,
                (ih hrest).mpr ⟨SpecDraft.lacks_set_iff.mpr ⟨hfresh, hlacks⟩, hsettles⟩⟩

/-- The element of a field, if `position` elements have been read before these. -/
def elementOf (elements : List Json) (position : Nat) (field : SpecField) : Option Json :=
  if position ≤ field.position then elements[field.position - position]? else none

@[simp] theorem elementOf_nil (position : Nat) (field : SpecField) :
    elementOf [] position field = none := by
  simp [elementOf]

theorem elementOf_cons_self (value : Json) (rest : List Json) (field : SpecField) :
    elementOf (value :: rest) field.position field = some value := by
  simp [elementOf]

theorem elementOf_cons_of_ne {value : Json} {rest : List Json} {position : Nat}
    {field : SpecField} (h : field.position ≠ position) :
    elementOf (value :: rest) position field = elementOf rest (position + 1) field := by
  rw [elementOf, elementOf]
  by_cases hle : position ≤ field.position
  · obtain ⟨n, hn⟩ : ∃ n, field.position - position = n + 1 :=
      ⟨field.position - position - 1, by omega⟩
    rw [if_pos hle, if_pos (by omega), hn, List.getElem?_cons_succ]
    congr 1
    omega
  · rw [if_neg hle, if_neg (by omega)]

/-- Elements give fields if they are as many as there are fields or one less, and each is
a value of the kind of its field. -/
theorem fieldElements_eq_ok_iff {elements : List Json}
    (helements : ∀ value ∈ elements, value.ReadsDocuments) {length position : Nat}
    (hposition : position ≤ 8) {draft : SpecDraft} {fields : SpecFields} :
    (fieldElements length elements position draft).outcome = .ok fields ↔
      (position + elements.length = 7 ∨ position + elements.length = 8) ∧
        ∀ field, draft.Settles field (elementOf elements position field) (fields.get field) := by
  induction elements generalizing position draft with
  | nil =>
      have hfields : (Logged.ofExcept draft.fields).outcome = .ok fields ↔
          ∀ field, draft.Settles field (elementOf [] position field) (fields.get field) := by
        simp only [elementOf_nil]
        exact SpecDraft.fields_eq_ok_iff
      rw [fieldElements, ← hfields, List.length_nil, Nat.add_zero]
      split
      · next hlt =>
        change position < 8 at hlt
        rw [SpecDraft.sequenceFields]
        split
        · exact iff_of_false (by rintro ⟨⟩) fun h => by omega
        split
        · exact iff_of_false (by rintro ⟨⟩) fun h => by omega
        · exact (and_iff_right (by omega)).symm
      · next hlt =>
        change ¬ position < 8 at hlt
        exact (and_iff_right (by omega)).symm
  | cons value rest ih =>
      rw [fieldElements]
      cases hfield : SpecField.all[position]? with
      | none =>
          have hlength : 8 ≤ position := List.getElem?_eq_none_iff.mp hfield
          refine iff_of_false (by rintro ⟨⟩) fun h => ?_
          have hcount := h.1
          rw [List.length_cons] at hcount
          omega
      | some field =>
          obtain rfl := SpecField.all_eq_some_iff.mp hfield
          have hread := helements value List.mem_cons_self
          have hrest : ∀ value ∈ rest, value.ReadsDocuments :=
            fun value hmem => helements value (List.mem_cons_of_mem _ hmem)
          have hnone : elementOf rest (field.position + 1) field = none := if_neg (by omega)
          have hothers : ∀ other, other ≠ field →
              elementOf (value :: rest) field.position other =
                elementOf rest (field.position + 1) other :=
            fun other hne => elementOf_cons_of_ne fun heq =>
              hne (SpecField.position_injective heq)
          have hself := elementOf_cons_self value rest field
          dsimp only
          rw [Logged.bind_def, Logged.outcome_bind]
          refine Except.bind_eq_ok_iff.trans ?_
          rw [List.length_cons, ← Nat.add_assoc, Nat.add_right_comm]
          constructor
          · rintro ⟨draft', hdraft, hfields⟩
            obtain ⟨meaning, hdocument, rfl⟩ := (read_eq_ok_iff hread).mp hdraft
            obtain ⟨hcount, hsettles⟩ := (ih hrest field.position_lt).mp hfields
            exact ⟨hcount,
              ((SpecDraft.settles_set_iff hself hnone hothers).mp ⟨hdocument, hsettles⟩).2⟩
          · rintro ⟨hcount, hsettles⟩
            obtain ⟨hdocument, hsettles⟩ :=
              (SpecDraft.settles_set_iff hself hnone hothers).mpr ⟨rfl, hsettles⟩
            exact ⟨_, (read_eq_ok_iff hread).mpr ⟨_, hdocument, rfl⟩,
              (ih hrest field.position_lt).mpr ⟨hcount, hsettles⟩⟩

end Json

/-! ## Properties -/

namespace SpecFields

theorem propertyType_eq_ok_iff {fields : SpecFields} {type : PropertyType} :
    fields.propertyType = .ok type ↔ fields.HasType type := by
  constructor
  · intro h
    rw [propertyType] at h
    split at h
    · next htype =>
      cases h
      exact .string htype
    split at h
    · next htype =>
      cases h
      exact .number htype
    split at h
    · next htype =>
      cases h
      exact .boolean htype
    split at h
    · next htype =>
      split at h
      · next properties hproperties =>
        cases h
        exact .object htype hproperties
      · cases h
    split at h
    · next htype =>
      split at h
      · next items hitems =>
        cases h
        exact .array htype hitems
      · cases h
    split at h
    · cases h
    · cases h
      exact .named (by simp [*])
  · intro h
    cases h with
    | string htype => simp [propertyType, htype]
    | number htype => simp [propertyType, htype]
    | boolean htype => simp [propertyType, htype]
    | object htype hproperties => simp [propertyType, htype, hproperties]
    | array htype hitems => simp [propertyType, htype, hitems]
    | named htype =>
        simp only [List.mem_cons, List.not_mem_nil, or_false, not_or] at htype
        simp [propertyType, htype]

/-- Fields give the property that they describe. -/
theorem toSpec_eq_ok_iff {fields : SpecFields} {spec : PropertySpec} :
    fields.toSpec.outcome = .ok spec ↔ fields.Describes spec := by
  have hsteps : fields.toSpec.outcome = fields.propertyType.bind fun type =>
      .ok ⟨type, fields.required, fields.transforms⟩ := by
    rw [toSpec, Logged.bind_def, Logged.outcome_bind, Logged.bind_def]
    exact Logged.outcome_bind _ _
  rw [hsteps]
  refine Except.bind_eq_ok_iff.trans ⟨?_, ?_⟩
  · rintro ⟨type, htype, hspec⟩
    cases hspec
    exact ⟨propertyType_eq_ok_iff.mp htype, rfl, rfl⟩
  · rintro ⟨htype, hrequired, htransforms⟩
    obtain ⟨type, required, transforms⟩ := spec
    cases hrequired
    cases htransforms
    exact ⟨type, propertyType_eq_ok_iff.mpr htype, rfl⟩

end SpecFields

namespace EntriesDocument

variable {α : Type} {Document : Json → α → Prop}

theorem names_eq {members : Entries Json} {entries : Entries α}
    (h : EntriesDocument Document members entries) : entries.names = members.names := by
  induction h with
  | nil => rfl
  | cons _ _ ih => rw [Entries.names_cons, Entries.names_cons, ih]

theorem nil_iff {entries : Entries α} : EntriesDocument Document [] entries ↔ entries = [] := by
  constructor
  · rintro ⟨⟩
    rfl
  · rintro rfl
    exact .nil

theorem cons_iff {name : String} {value : Json} {members : Entries Json} {entries : Entries α} :
    EntriesDocument Document ((name, value) :: members) entries ↔
      ∃ x rest, Document value x ∧ EntriesDocument Document members rest ∧
        entries = (name, x) :: rest := by
  constructor
  · intro h
    cases h with
    | cons hvalue hrest => exact ⟨_, _, hvalue, hrest, rfl⟩
  · rintro ⟨x, rest, hvalue, hrest, rfl⟩
    exact .cons hvalue hrest

end EntriesDocument

namespace Json

/-- Members are read as entries, behind those before them, if their names are distinct and
new and each value is a document. -/
theorem readEntries_eq_ok_iff {α : Type} {kind : EntryKind} {decode : Json → Logged ContentError α}
    {Document : Json → α → Prop} {members : Entries Json}
    (hdecode : ∀ name value, (name, value) ∈ members →
      ∀ x, (decode value).outcome = .ok x ↔ Document value x) {front all : Entries α} :
    (readEntries kind decode members front).outcome = .ok all ↔
      (members.names.Nodup ∧ ∀ name ∈ members.names, name ∉ front.names) ∧
        ∃ entries, EntriesDocument Document members entries ∧ all = front ++ entries := by
  induction members generalizing front with
  | nil => simp [readEntries, Logged.ok, EntriesDocument.nil_iff, eq_comm]
  | cons member rest ih =>
      obtain ⟨name, value⟩ := member
      have hrest : ∀ name value, (name, value) ∈ rest →
          ∀ x, (decode value).outcome = .ok x ↔ Document value x :=
        fun name value hmem => hdecode name value (List.mem_cons_of_mem _ hmem)
      have hfront (x : α) : Entries.names (front ++ [(name, x)]) = front.names ++ [name] := by
        simp [Entries.names]
      rw [readEntries, Entries.names_cons, List.nodup_cons, List.forall_mem_cons]
      split
      · next hhas =>
        rw [Entries.has_iff_mem_names] at hhas
        exact iff_of_false (by rintro ⟨⟩) fun h => h.1.2.1 hhas
      · next hhas =>
        rw [Entries.has_iff_mem_names] at hhas
        rw [Logged.bind_def, Logged.outcome_bind]
        refine Except.bind_eq_ok_iff.trans ?_
        constructor
        · rintro ⟨x, hvalue, hread⟩
          obtain ⟨⟨hnodup, hfresh⟩, entries, hentries, rfl⟩ := (ih hrest).mp hread
          simp only [hfront, List.mem_append, List.mem_singleton, not_or] at hfresh
          refine ⟨⟨⟨fun hmem => (hfresh name hmem).2 rfl, hnodup⟩, hhas,
            fun other hother => (hfresh other hother).1⟩, (name, x) :: entries, ?_, by simp⟩
          exact .cons ((hdecode name value List.mem_cons_self x).mp hvalue) hentries
        · rintro ⟨⟨⟨hname, hnodup⟩, -, hfresh⟩, entries, hentries, rfl⟩
          obtain ⟨x, entries, hvalue, htail, rfl⟩ := EntriesDocument.cons_iff.mp hentries
          refine ⟨x, (hdecode name value List.mem_cons_self x).mpr hvalue,
            (ih hrest).mpr ⟨⟨hnodup, fun other hother => ?_⟩, entries, htail, by simp⟩⟩
          rw [hfront, List.mem_append, List.mem_singleton, not_or]
          exact ⟨hfresh other hother, fun heq => hname (heq ▸ hother)⟩

/-- An object is a document of a property if its known members are distinct and say, with
what is meant by leaving out the others, what the property is. -/
theorem specDocument_object_iff {members : Entries Json} {spec : PropertySpec} :
    SpecDocument (.object members) spec ↔
      ∃ fields : SpecFields, (SpecDraft.empty.Lacks members.names ∧
        ∀ field : SpecField, SpecDraft.empty.Settles field (Entries.get? members field.name)
          (fields.get field)) ∧ fields.Describes spec := by
  simp only [SpecDraft.settles_empty_iff]
  constructor
  · rintro (⟨hnodup, hgiven, hdescribes⟩ | _)
    refine ⟨_, ⟨⟨hnodup, fun _ field _ _ => ?_⟩, hgiven⟩, hdescribes⟩
    rw [SpecDraft.has_eq_isSome_slot, SpecDraft.slot_empty]
    rfl
  · rintro ⟨fields, ⟨hlacks, hgiven⟩, hdescribes⟩
    exact .object hlacks.nodup hgiven hdescribes

theorem specDocument_array_iff {elements : List Json} {spec : PropertySpec} :
    SpecDocument (.array elements) spec ↔
      ∃ fields : SpecFields, ((0 + elements.length = 7 ∨ 0 + elements.length = 8) ∧
        ∀ field : SpecField, SpecDraft.empty.Settles field (elementOf elements 0 field)
          (fields.get field)) ∧ fields.Describes spec := by
  have helement (field : SpecField) : elementOf elements 0 field = elements[field.position]? :=
    if_pos (Nat.zero_le _)
  simp only [SpecDraft.settles_empty_iff, helement, Nat.zero_add]
  constructor
  · rintro (_ | ⟨hlength, hgiven, hdescribes⟩)
    exact ⟨_, ⟨hlength, hgiven⟩, hdescribes⟩
  · rintro ⟨fields, ⟨hlength, hgiven⟩, hdescribes⟩
    exact .array hlength hgiven hdescribes

theorem propertySpec_object_eq_ok_iff {members : Entries Json}
    (hmembers : ∀ name value, (name, value) ∈ members → value.ReadsDocuments)
    {spec : PropertySpec} :
    (propertySpec (.object members)).outcome = .ok spec ↔ SpecDocument (.object members) spec := by
  have hread : (propertySpec (.object members)).outcome =
      (fieldMembers members .empty).outcome.bind fun fields => fields.toSpec.outcome := by
    rw [propertySpec]
    exact Logged.outcome_bind _ _
  rw [hread, specDocument_object_iff]
  refine Except.bind_eq_ok_iff.trans (exists_congr fun fields => ?_)
  rw [fieldMembers_eq_ok_iff hmembers, SpecFields.toSpec_eq_ok_iff]

theorem propertySpec_array_eq_ok_iff {elements : List Json}
    (helements : ∀ value ∈ elements, value.ReadsDocuments) {spec : PropertySpec} :
    (propertySpec (.array elements)).outcome = .ok spec ↔ SpecDocument (.array elements) spec := by
  have hread : (propertySpec (.array elements)).outcome =
      (fieldElements elements.length elements 0 .empty).outcome.bind
        fun fields => fields.toSpec.outcome := by
    rw [propertySpec]
    exact Logged.outcome_bind _ _
  rw [hread, specDocument_array_iff]
  refine Except.bind_eq_ok_iff.trans (exists_congr fun fields => ?_)
  rw [fieldElements_eq_ok_iff helements (Nat.zero_le 8), SpecFields.toSpec_eq_ok_iff]

theorem propertySet_object_eq_ok_iff {members : Entries Json}
    (hmembers : ∀ name value, (name, value) ∈ members → value.ReadsDocuments)
    {set : PropertySet} :
    (propertySet (.object members)).outcome = .ok set ↔ SetDocument (.object members) set := by
  rw [propertySet, propertyMembers_eq,
    readEntries_eq_ok_iff fun name value hmem => (hmembers name value hmem).spec]
  constructor
  · rintro ⟨⟨hnodup, -⟩, entries, hentries, rfl⟩
    exact .object hnodup hentries
  · rintro ⟨hnodup, hentries⟩
    exact ⟨⟨hnodup, fun _ _ => List.not_mem_nil⟩, set, hentries, rfl⟩

/-- What holds of a value if it holds of its parts holds of every value. -/
@[elab_as_elim]
theorem of_parts {P : Json → Prop} (null : P .null) (boolean : ∀ flag, P (.boolean flag))
    (number : ∀ n, P (.number n)) (string : ∀ text, P (.string text))
    (array : ∀ elements, (∀ value ∈ elements, P value) → P (.array elements))
    (object : ∀ members, (∀ name value, (name, value) ∈ members → P value) → P (.object members))
    (value : Json) : P value := by
  refine @Json.rec P (fun elements => ∀ value ∈ elements, P value)
    (fun members => ∀ name value, (name, value) ∈ members → P value) (fun member => P member.2)
    null boolean number string array object ?_ ?_ ?_ ?_ (fun _ _ h => h) value
  · exact fun _ hmem => nomatch hmem
  · exact fun first rest hfirst hrest => List.forall_mem_cons.mpr ⟨hfirst, hrest⟩
  · exact fun _ _ hmem => nomatch hmem
  · intro first rest hfirst hrest name value hmem
    rcases List.mem_cons.mp hmem with heq | hmem
    · cases heq
      exact hfirst
    · exact hrest name value hmem

/-- Every value is read as what it is a document of. -/
theorem readsDocuments (value : Json) : value.ReadsDocuments := by
  induction value using of_parts with
  | null | boolean _ | number _ | string _ =>
      exact ⟨fun _ => iff_of_false (by rintro ⟨⟩) (by rintro ⟨⟩),
        fun _ => iff_of_false (by rintro ⟨⟩) (by rintro ⟨⟩)⟩
  | array elements ih =>
      exact ⟨fun _ => propertySpec_array_eq_ok_iff ih,
        fun _ => iff_of_false (by rintro ⟨⟩) (by rintro ⟨⟩)⟩
  | object members ih =>
      exact ⟨fun _ => propertySpec_object_eq_ok_iff ih, fun _ => propertySet_object_eq_ok_iff ih⟩

end Json

theorem Json.schema_object_eq_ok_iff {members : Entries Json} {schema : Schema} :
    (Json.schema (.object members)).outcome = .ok schema ↔
      SchemaDocument (.object members) schema := by
  have hread : (Json.schema (.object members)).outcome =
      (typeMembers members []).outcome.bind fun types =>
        if types.has "" then .error .emptyTypeName else .ok types := by
    rw [Json.schema, Logged.bind_def, Logged.outcome_bind]
    congr 1
    funext types
    split <;> rfl
  have hmembers (name : String) (value : Json) (_ : (name, value) ∈ members) :=
    (readsDocuments value).set
  rw [hread]
  refine Except.bind_eq_ok_iff.trans ?_
  simp only [typeMembers_eq, readEntries_eq_ok_iff hmembers]
  constructor
  · rintro ⟨types, ⟨⟨hnodup, -⟩, entries, hentries, rfl⟩, hschema⟩
    split at hschema
    · cases hschema
    · next hempty =>
      cases hschema
      rw [Entries.has_iff_mem_names, hentries.names_eq] at hempty
      exact .object hnodup hempty hentries
  · rintro ⟨hnodup, hempty, hentries⟩
    refine ⟨schema, ⟨⟨hnodup, fun _ _ => List.not_mem_nil⟩, schema, hentries, rfl⟩, if_neg ?_⟩
    rwa [Entries.has_iff_mem_names, hentries.names_eq]

/-- The values that are read as schemas are the documents of schemas, and are read as what
they are documents of. -/
theorem Schema.ofValue_eq_ok_iff {value : Json} {schema : Schema} :
    (Schema.ofValue value).outcome = .ok schema ↔ SchemaDocument value schema := by
  rw [Schema.ofValue, Logged.mapError, Except.mapError_eq_ok_iff]
  cases value with
  | object members => exact Json.schema_object_eq_ok_iff
  | _ => exact iff_of_false (by rintro ⟨⟩) (by rintro ⟨⟩)

end RecordSchema
