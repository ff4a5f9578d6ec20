set_option autoImplicit false

namespace CommandFile

/-- The definitions in force, the newest first. -/
structure Table (α : Type) where
  entries : List (String × α)
  deriving DecidableEq

namespace Table
variable {α : Type}

def empty : Table α := ⟨[]⟩

def find? (t : Table α) (name : String) : Option α := t.entries.lookup name

def erase (t : Table α) (name : String) : Table α := ⟨t.entries.filter (·.1 != name)⟩

def define (t : Table α) (name : String) (value : α) : Table α :=
  ⟨(name, value) :: (t.erase name).entries⟩

@[simp] theorem find?_empty (name : String) : (empty : Table α).find? name = none := rfl

@[simp] theorem find?_erase_self (t : Table α) (name : String) :
    (t.erase name).find? name = none := by
  obtain ⟨entries⟩ := t
  simp only [erase, find?]
  induction entries with
  | nil => rfl
  | cons entry rest ih =>
    obtain ⟨key, value⟩ := entry
    by_cases h : key = name
    · simpa [h] using ih
    · have h' : (name == key) = false := by simpa using Ne.symm h
      simpa [h, List.lookup_cons, h'] using ih

theorem find?_erase_of_ne (t : Table α) {name other : String} (h : other ≠ name) :
    (t.erase name).find? other = t.find? other := by
  obtain ⟨entries⟩ := t
  simp only [erase, find?]
  induction entries with
  | nil => rfl
  | cons entry rest ih =>
    obtain ⟨key, value⟩ := entry
    by_cases hk : key = name
    · have h' : (other == key) = false := by simpa [hk] using h
      simpa [hk, List.lookup_cons, hk ▸ h'] using ih
    · by_cases ho : other = key
      · simp [hk, ho]
      · have h' : (other == key) = false := by simpa using ho
        simpa [hk, List.lookup_cons, h'] using ih

@[simp] theorem find?_define_self (t : Table α) (name : String) (value : α) :
    (t.define name value).find? name = some value := by
  simp [define, find?]

theorem find?_define_of_ne (t : Table α) {name other : String} (h : other ≠ name) (value : α) :
    (t.define name value).find? other = t.find? other := by
  have h' : (other == name) = false := by simpa using h
  rw [← find?_erase_of_ne t h]
  simp [define, find?, List.lookup_cons, h']

end Table
end CommandFile
