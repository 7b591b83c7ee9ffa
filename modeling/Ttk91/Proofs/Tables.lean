import Ttk91.Table

/-! Tables with distinct keys: what an insertion does to the keys, and looking up against being an
entry. -/

namespace Ttk91.Table

variable {κ α β : Type}

theorem keys_cons (k : κ) (a : α) (table : Table κ α) :
    keys ((k, a) :: table) = k :: keys table := rfl

theorem keys_append (table more : Table κ α) : keys (table ++ more) = table.keys ++ more.keys :=
  List.map_append

theorem mem_keys_of_mem {table : Table κ α} {k : κ} {a : α} (h : (k, a) ∈ table) :
    k ∈ table.keys :=
  List.mem_map_of_mem h

theorem keys_map_value (f : α → β) (table : Table κ α) :
    keys (table.map fun entry => (entry.1, f entry.2)) = table.keys := by
  simp [keys]

theorem nodup_keys_concat {table : Table κ α} {entry : κ × α} (hn : table.keys.Nodup)
    (hfresh : entry.1 ∉ table.keys) : (keys (table ++ [entry])).Nodup := by
  rw [keys_append, List.nodup_append]
  refine ⟨hn, by simp [keys], ?_⟩
  rintro a ha b hb rfl
  obtain rfl : a = entry.1 := by simpa [keys] using hb
  exact hfresh ha

theorem not_mem_keys_of_nodup {table entries : Table κ α} {entry : κ × α}
    (h : (keys (table ++ entry :: entries)).Nodup) : entry.1 ∉ table.keys := by
  rw [keys_append, List.nodup_append] at h
  intro hmem
  exact h.2.2 entry.1 hmem entry.1 (by simp [keys]) rfl

variable [DecidableEq κ]

theorem keys_insert_of_mem {table : Table κ α} {key : κ} (value : α) (h : key ∈ table.keys) :
    (table.insert key value).keys = table.keys := by
  induction table with
  | nil => cases h
  | cons entry rest ih =>
    obtain ⟨k, a⟩ := entry
    by_cases hk : k = key
    · simp [insert, keys, hk]
    · have hrest : key ∈ keys rest := by simpa [keys, Ne.symm hk] using h
      rw [insert, if_neg hk, keys_cons, keys_cons, ih hrest]

theorem nodup_keys_insert {table : Table κ α} (hn : table.keys.Nodup) (key : κ) (value : α) :
    (table.insert key value).keys.Nodup := by
  by_cases hmem : key ∈ table.keys
  · rw [keys_insert_of_mem value hmem]
    exact hn
  · rw [insert_of_not_mem value hmem]
    exact nodup_keys_concat hn hmem

theorem mem_of_find? {table : Table κ α} {key : κ} {value : α}
    (h : table.find? key = some value) : (key, value) ∈ table := by
  induction table with
  | nil => simp [find?] at h
  | cons entry rest ih =>
    obtain ⟨k, a⟩ := entry
    by_cases hk : k = key
    · rw [find?, if_pos hk, Option.some.injEq] at h
      simp [hk, h]
    · rw [find?, if_neg hk] at h
      exact List.mem_cons_of_mem _ (ih h)

theorem find?_of_mem {table : Table κ α} (hn : table.keys.Nodup) {key : κ} {value : α}
    (h : (key, value) ∈ table) : table.find? key = some value := by
  induction table with
  | nil => cases h
  | cons entry rest ih =>
    obtain ⟨k, a⟩ := entry
    rw [keys_cons, List.nodup_cons] at hn
    rcases List.mem_cons.mp h with heq | h
    · obtain ⟨rfl, rfl⟩ := Prod.mk.inj heq
      rw [find?, if_pos rfl]
    · have hk : k ≠ key := fun hk => hn.1 (hk ▸ mem_keys_of_mem h)
      rw [find?, if_neg hk, ih hn.2 h]

theorem find?_eq_some_iff {table : Table κ α} (hn : table.keys.Nodup) {key : κ} {value : α} :
    table.find? key = some value ↔ (key, value) ∈ table :=
  ⟨mem_of_find?, find?_of_mem hn⟩

/-- With distinct keys, the order of the entries does not matter for looking up. -/
theorem find?_perm {table other : Table κ α} (hn : table.keys.Nodup) (hp : table.Perm other)
    (key : κ) : other.find? key = table.find? key := by
  have hn' : other.keys.Nodup := (hp.map Prod.fst).nodup_iff.mp hn
  apply Option.ext
  intro value
  rw [find?_eq_some_iff hn, find?_eq_some_iff hn', hp.mem_iff]

theorem mem_iff_of_find?_eq {table other : Table κ α} (hn : table.keys.Nodup)
    (hn' : other.keys.Nodup) (h : ∀ key, table.find? key = other.find? key) (entry : κ × α) :
    entry ∈ table ↔ entry ∈ other := by
  obtain ⟨k, a⟩ := entry
  rw [← find?_eq_some_iff hn, ← find?_eq_some_iff hn', h k]

theorem find?_map_value (f : α → β) (table : Table κ α) (key : κ) :
    find? (table.map fun entry => (entry.1, f entry.2)) key = (table.find? key).map f := by
  induction table with
  | nil => rfl
  | cons entry rest ih =>
    obtain ⟨k, a⟩ := entry
    by_cases hk : k = key
    · simp [find?, hk]
    · simp only [List.map_cons, find?, if_neg hk, ih]

end Ttk91.Table
