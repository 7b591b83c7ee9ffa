import Ttk91.Command.FileTree

/-! Files that have been written: they are read back by the same path, and nothing else in the tree
has changed. Paths of files have a name. -/

namespace Ttk91.FileTree

variable {before after : FileTree} {path : Text} {bytes : ByteArray}

theorem lookup_eq_ok_iff {tree : FileTree} {place : List Text} {name : Text}
    {entry : Option Entry} :
    tree.lookup place name = .ok entry ↔
      byteLength name ≤ maxNameBytes ∧ tree.entry? (place ++ [name]) = entry := by
  rw [lookup]
  split
  · simp only [reduceCtorEq, false_iff, not_and]
    omega
  · simp only [Except.ok.injEq, iff_and_self]
    omega

/-- Two trees with the same working directory, where the second has all directories of the first. -/
structure KeepsDirectories (before after : FileTree) : Prop where
  current_eq : after.current = before.current
  directory : ∀ place, before.entry? place = some .directory → after.entry? place = some .directory

theorem KeepsDirectories.enter (h : KeepsDirectories before after) {place next : List Text}
    {name : Text} (henter : before.enter place name = .ok next) :
    after.enter place name = .ok next := by
  unfold FileTree.enter at henter ⊢
  by_cases hdot : name = ['.']
  · rw [if_pos hdot] at henter ⊢
    exact henter
  by_cases hup : name = ['.', '.']
  · rw [if_neg hdot, if_pos hup] at henter ⊢
    exact henter
  rw [if_neg hdot, if_neg hup] at henter ⊢
  split at henter
  · cases henter
  · cases henter
  · cases henter
  · rename_i hlookup
    obtain ⟨hlength, hentry⟩ := lookup_eq_ok_iff.mp hlookup
    rw [lookup_eq_ok_iff.mpr ⟨hlength, h.directory _ hentry⟩]
    exact henter

theorem KeepsDirectories.enterAll (h : KeepsDirectories before after) {names : List Text}
    {place last : List Text} (henter : before.enterAll place names = .ok last) :
    after.enterAll place names = .ok last := by
  induction names generalizing place with
  | nil => exact henter
  | cons name rest ih =>
    unfold FileTree.enterAll at henter ⊢
    split at henter
    · cases henter
    · rename_i next hnext
      rw [h.enter hnext]
      exact ih henter

theorem KeepsDirectories.target (h : KeepsDirectories before after) {target : Target}
    (htarget : before.target path = .ok target) : after.target path = .ok target := by
  unfold FileTree.target at htarget ⊢
  split at htarget
  · cases htarget
  rename_i hne
  split at htarget
  · cases htarget
  rename_i hlength
  rw [if_neg hne, if_neg hlength]
  split at htarget
  · exact htarget
  · simp only at htarget ⊢
    split at htarget
    · cases htarget
    · rename_i hplace
      rw [h.current_eq, h.enterAll hplace]
      exact htarget

theorem entry?_insert (tree : FileTree) {place : List Text} (hne : place ≠ []) (entry : Entry)
    (other : List Text) :
    entry? { tree with entries := tree.entries.insert place entry } other =
      if other = place then some entry else tree.entry? other := by
  unfold entry?
  by_cases hother : other = []
  · have hroot : other ≠ place := fun heq => hne (heq ▸ hother)
    rw [if_neg hroot, if_pos (by simp [hother]), if_pos (by simp [hother])]
  · have hbelow : ¬other.isEmpty = true := by simpa using hother
    rw [if_neg hbelow, if_neg hbelow, Table.find?_insert]
    simp only [eq_comm]

theorem write_eq_ok (h : before.write path bytes = .ok after) :
    ∃ place name, before.target path = .ok (.named place name false) ∧
      byteLength name ≤ maxNameBytes ∧ before.entry? (place ++ [name]) ≠ some .directory ∧
      after = { before with entries := before.entries.insert (place ++ [name]) (.file bytes) } := by
  unfold write at h
  split at h
  · cases h
  · cases h
  rename_i place name slash htarget
  split at h
  · cases h
  rename_i hslash
  obtain rfl : slash = false := (Bool.not_eq_true slash).mp hslash
  split at h
  · cases h
  · cases h
  · rename_i entry hdirectory hlookup
    obtain ⟨hlength, hentry⟩ := lookup_eq_ok_iff.mp hlookup
    refine ⟨place, name, htarget, hlength, ?_, (Except.ok.inj h).symm⟩
    rw [hentry]
    exact hdirectory

/-- The tree after a file was written: the file stands where the path leads to, and everything else
is as it was. -/
structure Written (before : FileTree) (path : Text) (bytes : ByteArray) (after : FileTree) :
    Prop where
  current_eq : after.current = before.current
  entry?_eq : ∃ place name, before.target path = .ok (.named place name false) ∧
    ∀ other, after.entry? other =
      if other = place ++ [name] then some (.file bytes) else before.entry? other
  read_eq : after.read path = .ok bytes

theorem written_of_write (h : before.write path bytes = .ok after) :
    Written before path bytes after := by
  obtain ⟨place, name, htarget, hlength, hdirectory, rfl⟩ := write_eq_ok h
  have hne : place ++ [name] ≠ [] := by simp
  have hentry := entry?_insert before hne (.file bytes)
  refine ⟨rfl, ⟨place, name, htarget, hentry⟩, ?_⟩
  have hkeeps : KeepsDirectories before
      { before with entries := before.entries.insert (place ++ [name]) (.file bytes) } := by
    refine ⟨rfl, fun other hother => ?_⟩
    have hother' : other ≠ place ++ [name] := fun heq => hdirectory (heq ▸ hother)
    rw [hentry, if_neg hother', hother]
  have hlookup := lookup_eq_ok_iff.mpr ⟨hlength, hentry (place ++ [name])⟩
  simp [read, hkeeps.target htarget, hlookup]

theorem mem_names_of_target {tree : FileTree} {place : List Text} {name : Text} {slash : Bool}
    (h : tree.target path = .ok (.named place name slash)) :
    name ∈ Path.names path ∧ name ≠ ['.'] := by
  unfold target at h
  split at h
  · cases h
  split at h
  · cases h
  split at h
  · cases h
  rename_i last before hnames
  simp only at h
  split at h
  · cases h
  split at h
  · cases h
  rename_i hdots
  cases h
  exact ⟨by rw [← List.mem_reverse, hnames]; simp, fun heq => hdots (Or.inl heq)⟩

/-- What can be read has a name, and so the name can get another suffix. -/
theorem exists_withSuffix?_of_read {tree : FileTree} (h : tree.read path = .ok bytes)
    (suffix : Text) : ∃ renamed, Path.withSuffix? path suffix = some renamed := by
  unfold read at h
  split at h
  · cases h
  · cases h
  rename_i place name slash htarget
  obtain ⟨hname, hdot⟩ := mem_names_of_target htarget
  have hmem : name ∈ ((Path.names path).filter (· != ['.'])).reverse := by
    simp [hname, hdot]
  unfold Path.withSuffix?
  split
  · rename_i hnil
    rw [hnil] at hmem
    cases hmem
  · exact ⟨_, rfl⟩

end Ttk91.FileTree
