/-!
# Named values in order

`Entries α` is a list of names with their values, in the order in which the
names were first added. Objects of a document, the properties of a record type
and the types of a schema are all of this shape, and their order matters: it is
the order of checks, of reports and of everything written.

`get?` finds the first value of a name and `put` replaces it where it stands, or
adds a new name at the end. Names are distinct in every list built by `put`.
-/

namespace RecordSchema

universe u

/-- Names with their values, in order. -/
abbrev Entries (α : Type u) := List (String × α)

namespace Entries

variable {α : Type u}

/-- The names, in order. -/
def names (entries : Entries α) : List String :=
  entries.map Prod.fst

/-- The first value under a name. -/
def get? : Entries α → String → Option α
  | [], _ => none
  | (key, value) :: rest, name => if key = name then some value else get? rest name

/-- Whether the name occurs. -/
def has (entries : Entries α) (name : String) : Bool :=
  (entries.get? name).isSome

/-- Gives a name a value: in its first place if it has one, at the end if not. -/
def put : Entries α → String → α → Entries α
  | [], name, new => [(name, new)]
  | (key, value) :: rest, name, new =>
    if key = name then (key, new) :: rest else (key, value) :: put rest name new

/-- The list with every occurrence of a name taken out. -/
def erase (entries : Entries α) (name : String) : Entries α :=
  entries.filter fun entry => entry.1 != name

@[simp] theorem names_nil : names ([] : Entries α) = [] := rfl

@[simp] theorem names_cons (entry : String × α) (rest : Entries α) :
    names (entry :: rest) = entry.1 :: names rest := rfl

theorem names_append (entries entries' : Entries α) :
    names (entries ++ entries') = names entries ++ names entries' :=
  List.map_append

@[simp] theorem get?_nil (name : String) : get? ([] : Entries α) name = none := rfl

theorem get?_cons (key : String) (value : α) (rest : Entries α) (name : String) :
    get? ((key, value) :: rest) name =
      if key = name then some value else get? rest name := rfl

theorem get?_append (front entries : Entries α) (name : String) :
    get? (front ++ entries) name = (front.get? name).or (entries.get? name) := by
  induction front with
  | nil => rfl
  | cons entry rest ih =>
      rw [List.cons_append, get?_cons, get?_cons, ih]
      split <;> rfl

@[simp] theorem put_nil (name : String) (value : α) :
    put [] name value = [(name, value)] := rfl

theorem get?_eq_none_iff {entries : Entries α} {name : String} :
    entries.get? name = none ↔ name ∉ entries.names := by
  induction entries with
  | nil => simp
  | cons entry rest ih =>
    obtain ⟨key, value⟩ := entry
    by_cases h : key = name
    · simp [get?_cons, h]
    · simp [get?_cons, h, ih, Ne.symm h]

theorem mem_names_of_get? {entries : Entries α} {name : String} {value : α}
    (h : entries.get? name = some value) : name ∈ entries.names := by
  cases Decidable.em (name ∈ entries.names) with
  | inl hmem => exact hmem
  | inr hmem =>
      rw [get?_eq_none_iff.mpr hmem] at h
      cases h

theorem exists_get?_of_mem_names {entries : Entries α} {name : String}
    (h : name ∈ entries.names) : ∃ value, entries.get? name = some value := by
  cases hget : entries.get? name with
  | none => exact absurd h (get?_eq_none_iff.mp hget)
  | some value => exact ⟨value, rfl⟩

theorem has_iff_mem_names {entries : Entries α} {name : String} :
    entries.has name = true ↔ name ∈ entries.names := by
  cases h : entries.get? name with
  | none => simp [has, h, get?_eq_none_iff.mp h]
  | some value => simp [has, h, mem_names_of_get? h]

theorem mem_of_get? {entries : Entries α} {name : String} {value : α}
    (h : entries.get? name = some value) : (name, value) ∈ entries := by
  induction entries with
  | nil => cases h
  | cons entry rest ih =>
      obtain ⟨key, first⟩ := entry
      rw [get?_cons] at h
      by_cases hkey : key = name
      · rw [if_pos hkey] at h
        cases h
        cases hkey
        exact List.mem_cons_self
      · rw [if_neg hkey] at h
        exact List.mem_cons_of_mem _ (ih h)

/-- Where names are distinct, every value is found. -/
theorem get?_of_mem {entries : Entries α} (hnodup : entries.names.Nodup) {name : String}
    {value : α} (hmem : (name, value) ∈ entries) : entries.get? name = some value := by
  induction entries with
  | nil => cases hmem
  | cons entry rest ih =>
      obtain ⟨key, first⟩ := entry
      rw [names_cons, List.nodup_cons] at hnodup
      rw [get?_cons]
      rcases List.mem_cons.mp hmem with heq | hrest
      · cases heq
        exact if_pos rfl
      · have hne : key ≠ name := by
          rintro rfl
          exact hnodup.1 (List.mem_map.mpr ⟨(key, value), hrest, rfl⟩)
        rw [if_neg hne]
        exact ih hnodup.2 hrest

/-- A change of every value is a change of what is found. -/
theorem get?_map {β : Type u} (f : α → β) (entries : Entries α) (name : String) :
    get? (entries.map fun (key, value) => (key, f value)) name = (entries.get? name).map f := by
  induction entries with
  | nil => rfl
  | cons entry rest ih =>
      obtain ⟨key, value⟩ := entry
      by_cases h : key = name
      · simp [get?_cons, h]
      · simpa [get?_cons, h] using ih

theorem get?_filter {p : String → Bool} {name : String} (h : p name = true)
    (entries : Entries α) :
    get? (entries.filter fun entry => p entry.1) name = entries.get? name := by
  induction entries with
  | nil => rfl
  | cons entry rest ih =>
      obtain ⟨key, value⟩ := entry
      rw [List.filter_cons, get?_cons]
      by_cases hkey : key = name
      · simp [hkey, h, get?_cons]
      · rw [if_neg hkey]
        split
        · rw [get?_cons, if_neg hkey, ih]
        · exact ih

/-- Where names are distinct, what is found does not depend on the order. -/
theorem get?_of_perm {entries entries' : Entries α} (hperm : entries.Perm entries')
    (hnodup : entries.names.Nodup) (name : String) : entries.get? name = entries'.get? name := by
  have hnames : entries.names.Perm entries'.names := hperm.map Prod.fst
  cases hget : entries.get? name with
  | some value =>
      have hmem := hperm.mem_iff.mp (mem_of_get? hget)
      exact (get?_of_mem (hnames.nodup_iff.mp hnodup) hmem).symm
  | none =>
      rw [get?_eq_none_iff] at hget
      exact (get?_eq_none_iff.mpr fun hmem => hget (hnames.mem_iff.mpr hmem)).symm

theorem get?_put_of_ne {entries : Entries α} {key name : String} (h : key ≠ name) (value : α) :
    (entries.put key value).get? name = entries.get? name := by
  induction entries with
  | nil => simp [get?_cons, h]
  | cons entry rest ih =>
      obtain ⟨first, old⟩ := entry
      rw [put]
      by_cases hfirst : first = key
      · subst hfirst
        simp [get?_cons, h]
      · simp [get?_cons, hfirst, ih]

/-- Putting a value where it is already changes nothing. -/
theorem put_eq_self {entries : Entries α} {name : String} {value : α}
    (h : entries.get? name = some value) : entries.put name value = entries := by
  induction entries with
  | nil => cases h
  | cons entry rest ih =>
      obtain ⟨key, first⟩ := entry
      rw [get?_cons] at h
      rw [put]
      by_cases hkey : key = name
      · rw [if_pos hkey] at h
        cases h
        rw [if_pos hkey]
      · rw [if_neg hkey] at h
        rw [if_neg hkey, ih h]

theorem get?_put_self (entries : Entries α) (name : String) (value : α) :
    (entries.put name value).get? name = some value := by
  induction entries with
  | nil => simp [get?_cons]
  | cons entry rest ih =>
    obtain ⟨key, old⟩ := entry
    by_cases h : key = name <;> simp [put, get?_cons, h, ih]

theorem get?_put (entries : Entries α) (key : String) (x : α) (name : String) :
    (entries.put key x).get? name = if key = name then some x else entries.get? name := by
  split
  · next heq => rw [← heq, get?_put_self]
  · next hne => rw [get?_put_of_ne hne]

theorem get?_erase_self (entries : Entries α) (name : String) :
    (entries.erase name).get? name = none := by
  rw [get?_eq_none_iff, erase, names]
  simp

theorem get?_erase_of_ne {other : String} (h : other ≠ name) (entries : Entries α) :
    (entries.erase name).get? other = entries.get? other :=
  get?_filter (p := fun key => key != name) (bne_iff_ne.mpr h) entries

end Entries

end RecordSchema
