import RecordSchema.Proofs.Document.Repetition
import RecordSchema.Proofs.Result
import RecordSchema.Schema.FromValue

/-!
# Members of objects

How the decoders of values go through the members of an object. Properties and types
are read one behind the other by the same rule, `Json.readEntries`. The fields of a
property are collected in a draft: known fields are distinct, `SpecDraft.Lacks`, and
members of other names are passed over.
-/

namespace RecordSchema

namespace Json

/-- The named things that the members of an object describe, behind those before them:
what `propertyMembers` and `typeMembers` have in common. -/
def readEntries {α : Type} (kind : EntryKind) (decode : Json → Logged ContentError α) :
    Entries Json → Entries α → Logged ContentError (Entries α)
  | [], front => Logged.ok front
  | (name, value) :: rest, front =>
    if front.has name then
      Logged.fail (.duplicateEntry kind name)
    else do
      let x ← decode value
      readEntries kind decode rest (front ++ [(name, x)])

theorem propertyMembers_eq (entries : Entries Json) (front : PropertySet) :
    propertyMembers entries front = readEntries .property propertySpec entries front := by
  induction entries generalizing front with
  | nil => rw [propertyMembers, readEntries]
  | cons entry rest ih => simp only [propertyMembers, readEntries, ih]

theorem typeMembers_eq (entries : Entries Json) (front : Schema) :
    typeMembers entries front = readEntries .type propertySet entries front := by
  induction entries generalizing front with
  | nil => rw [typeMembers, readEntries]
  | cons entry rest ih => simp only [typeMembers, readEntries, ih]

/-- Names that are read as entries are distinct, and distinct from those before them. -/
theorem nodup_of_readEntries {α : Type} {kind : EntryKind}
    {decode : Json → Logged ContentError α} {entries : Entries Json} {front all : Entries α}
    (hfront : front.names.Nodup)
    (h : (readEntries kind decode entries front).outcome = .ok all) :
    (front.names ++ entries.names).Nodup := by
  induction entries generalizing front with
  | nil => simpa using hfront
  | cons entry rest ih =>
      obtain ⟨name, value⟩ := entry
      rw [readEntries] at h
      by_cases hname : front.has name
      · rw [if_pos hname] at h
        cases h
      · rw [if_neg hname, Logged.bind_def, Logged.outcome_bind] at h
        obtain ⟨x, _, h⟩ := Except.bind_eq_ok_iff.mp h
        rw [Entries.has_iff_mem_names] at hname
        have hfront' : Entries.names (front ++ [(name, x)]) = front.names ++ [name] := by
          simp [Entries.names]
        have hnodup : (front.names ++ [name]).Nodup :=
          hfront.append (List.nodup_singleton name) (by simpa using hname)
        have hall := ih (by rwa [hfront']) h
        rwa [hfront', List.append_assoc] at hall

/-- Unknown fields are passed over. -/
theorem fieldMembers_filter (entries : Entries Json) (draft : SpecDraft) :
    fieldMembers (entries.filter fun entry => Place.spec.declares entry.1) draft =
      fieldMembers entries draft := by
  induction entries generalizing draft with
  | nil => rfl
  | cons entry rest ih =>
      obtain ⟨name, value⟩ := entry
      cases hname : SpecField.ofName? name with
      | none =>
          have hdeclares : Place.spec.declares name = false := by simp [Place.declares, hname]
          simp only [List.filter_cons, hdeclares, Bool.false_eq_true, if_false, ih, fieldMembers,
            hname]
      | some field =>
          have hdeclares : Place.spec.declares name = true := by simp [Place.declares, hname]
          simp only [List.filter_cons, hdeclares, if_true, ih, fieldMembers, hname]

end Json

/-- A field that is read is in the draft, and nothing else changes. -/
theorem SpecDraft.has_of_read {ε : Type} {draft draft' : SpecDraft} {value : FieldValue ε}
    {field : SpecField} (h : (draft.read value field).outcome = .ok draft') (other : SpecField) :
    draft'.has other = (draft.has other || other == field) := by
  cases field <;>
    (rw [SpecDraft.read, Logged.bind_def, Logged.outcome_bind] at h
     obtain ⟨x, _, h⟩ := Except.bind_eq_ok_iff.mp h
     cases h
     cases other <;> simp [SpecDraft.has])

/-- The known fields among the names are distinct, and none of them is in the draft. -/
structure SpecDraft.Lacks (draft : SpecDraft) (names : List String) : Prop where
  nodup : (names.filter Place.spec.declares).Nodup
  has_eq_false : ∀ name field, name ∈ names → SpecField.ofName? name = some field →
    draft.has field = false

namespace SpecDraft.Lacks

variable {draft draft' : SpecDraft} {name : String} {names : List String} {field : SpecField}

theorem cons_unknown (hname : SpecField.ofName? name = none) (h : draft.Lacks names) :
    draft.Lacks (name :: names) where
  nodup := by simpa [Place.declares, hname] using h.nodup
  has_eq_false := by
    intro other field hother hfield
    rcases List.mem_cons.mp hother with rfl | hother
    · cases hname.symm.trans hfield
    · exact h.has_eq_false other field hother hfield

/-- What is lacking behind a field that was read was lacking before, and is another one. -/
theorem cons_read {ε : Type} {value : FieldValue ε} (hname : SpecField.ofName? name = some field)
    (hhas : draft.has field = false) (hread : (draft.read value field).outcome = .ok draft')
    (h : draft'.Lacks names) : draft.Lacks (name :: names) := by
  have hothers : ∀ other field', other ∈ names → SpecField.ofName? other = some field' →
      draft.has field' = false ∧ field' ≠ field := by
    intro other field' hother hfield'
    have hnone := h.has_eq_false other field' hother hfield'
    rw [has_of_read hread, Bool.or_eq_false_iff] at hnone
    exact ⟨hnone.1, by simpa using hnone.2⟩
  have hdeclares : Place.spec.declares name = true := by simp [Place.declares, hname]
  constructor
  · rw [List.filter_cons_of_pos hdeclares, List.nodup_cons]
    exact ⟨fun hmem => (hothers name field (List.mem_of_mem_filter hmem) hname).2 rfl, h.nodup⟩
  · intro other field' hother hfield'
    rcases List.mem_cons.mp hother with rfl | hother
    · cases hname.symm.trans hfield'
      exact hhas
    · exact (hothers other field' hother hfield').1

end SpecDraft.Lacks

namespace Json

/-- Fields that are read are distinct, and were lacking before. -/
theorem lacks_of_fieldMembers {entries : Entries Json} {draft : SpecDraft} {fields : SpecFields}
    (h : (fieldMembers entries draft).outcome = .ok fields) : draft.Lacks entries.names := by
  induction entries generalizing draft with
  | nil => exact ⟨List.nodup_nil, fun _ _ hmem => nomatch hmem⟩
  | cons entry rest ih =>
      obtain ⟨name, value⟩ := entry
      rw [fieldMembers] at h
      cases hname : SpecField.ofName? name with
      | none =>
          rw [hname] at h
          exact .cons_unknown hname (ih h)
      | some field =>
          rw [hname] at h
          dsimp only at h
          split at h
          · cases h
          · next hhas =>
            rw [Logged.bind_def, Logged.outcome_bind] at h
            obtain ⟨draft', hread, h⟩ := Except.bind_eq_ok_iff.mp h
            exact .cons_read hname (by simpa using hhas) hread (ih h)

end Json

end RecordSchema
