/-! Tables that list their entries in the order in which the keys were first set. -/

namespace Ttk91

/-- Keys with their values; no key occurs twice in a table built by `insert`. -/
abbrev Table (κ α : Type) := List (κ × α)

namespace Table

variable {κ α : Type} [DecidableEq κ]

def find? (table : Table κ α) (key : κ) : Option α :=
  match table with
  | [] => none
  | (k, a) :: rest => if k = key then some a else find? rest key

/-- Set the value of a key: a known key keeps its place, a new one goes to the end. -/
def insert (table : Table κ α) (key : κ) (value : α) : Table κ α :=
  match table with
  | [] => [(key, value)]
  | (k, a) :: rest => if k = key then (k, value) :: rest else (k, a) :: insert rest key value

def keys (table : Table κ α) : List κ := table.map Prod.fst

theorem find?_insert (table : Table κ α) (key other : κ) (value : α) :
    find? (insert table key value) other =
      if key = other then some value else find? table other := by
  induction table with
  | nil => simp [insert, find?]
  | cons entry rest ih =>
    obtain ⟨k, a⟩ := entry
    by_cases hk : k = key
    · subst hk
      by_cases ho : k = other <;> simp [insert, find?, ho]
    · by_cases ho : k = other
      · subst ho
        simp [insert, find?, hk, Ne.symm hk]
      · simp [insert, find?, hk, ho, ih]

theorem insert_of_not_mem {table : Table κ α} {key : κ} (value : α) (h : key ∉ table.keys) :
    table.insert key value = table ++ [(key, value)] := by
  induction table with
  | nil => rfl
  | cons entry rest ih =>
    obtain ⟨k, a⟩ := entry
    simp only [keys, List.map_cons, List.mem_cons, not_or] at h
    simp [insert, Ne.symm h.1, ih h.2]

end Table
end Ttk91
