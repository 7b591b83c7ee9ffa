import Ttk91.Proofs.EncoderImage

/-! The canonical spelling of instructions. Every line in it is encoded, and the listing of its word
is the line again. -/

namespace Ttk91.Listing

/-- The signs in front of an address. Only an instruction that needs no memory has immediate
operands. -/
inductive IsAddressSign (defaultMode : Int) : Char → Prop
  | immediate (h : defaultMode = 1) : IsAddressSign defaultMode '='
  | direct : IsAddressSign defaultMode ' '
  | indirect : IsAddressSign defaultMode '@'

/-- The signs in front of a register. A register is no memory. -/
inductive IsRegisterSign (defaultMode : Int) : Char → Prop
  | direct (h : defaultMode = 1) : IsRegisterSign defaultMode ' '
  | indirect : IsRegisterSign defaultMode '@'

/-- The canonical second operands, by their forms: an address, an address with an index register, a
register, or the memory that a register in parentheses points to. -/
inductive IsOperand (defaultMode : Int) : Text → Prop
  | address {sign : Char} (a : Int) (hsign : IsAddressSign defaultMode sign)
      (ha : -32768 ≤ a ∧ a ≤ 32767) : IsOperand defaultMode (sign :: Text.ofInt a)
  | indexed {sign : Char} (a : Int) (r : Register) (hsign : IsAddressSign defaultMode sign)
      (ha : -32768 ≤ a ∧ a ≤ 32767) (hne : a ≠ 0) (hr : r ≠ Register.zero) :
      IsOperand defaultMode (sign :: (Text.ofInt a ++ '(' :: r.displayName ++ [')']))
  | register {sign : Char} (r : Register) (hsign : IsRegisterSign defaultMode sign)
      (hr : r ≠ Register.zero) : IsOperand defaultMode (sign :: r.displayName)
  | pointer (r : Register) (hr : r ≠ Register.zero) :
      IsOperand defaultMode ('@' :: '(' :: r.displayName ++ [')'])

inductive IsCanonical (i : Instruction) : Text → Prop
  | bare (hformat : i.format = .bare) : IsCanonical i i.name
  | first (hformat : i.format = .first) (r : Register) :
      IsCanonical i (padded i.name ++ r.displayName)
  | second {operand : Text} (hformat : i.format = .second)
      (hoperand : IsOperand i.defaultMode operand) : IsCanonical i (padded i.name ++ operand)
  | both {operand : Text} (hformat : i.format = .both) (r : Register)
      (hoperand : IsOperand i.defaultMode operand) :
      IsCanonical i (padded i.name ++ r.displayName ++ ", ".toList ++ operand)

variable {defaultMode : Int} {sign : Char}

/-! Every sign is that of a written mode. -/

theorem IsAddressSign.exists_written (h : IsAddressSign defaultMode sign)
    (hdefault : defaultMode = 0 ∨ defaultMode = 1) :
    ∃ written, modeSign written = sign ∧ -defaultMode ≤ written ∧ written ≤ 1 := by
  cases h with
  | immediate h => exact ⟨-1, rfl, by omega, by omega⟩
  | direct => exact ⟨0, rfl, by omega, by omega⟩
  | indirect => exact ⟨1, rfl, by omega, by omega⟩

theorem IsRegisterSign.exists_written (h : IsRegisterSign defaultMode sign)
    (hdefault : defaultMode = 0 ∨ defaultMode = 1) :
    ∃ written, modeSign written = sign ∧ 1 - defaultMode ≤ written ∧ written ≤ 1 := by
  cases h with
  | direct h => exact ⟨0, rfl, by omega, by omega⟩
  | indirect => exact ⟨1, rfl, by omega, by omega⟩

/-! The mode of a word that is listed with a given written mode. -/

theorem writtenMode_address {index : Register} {address : Int}
    (h : address ≠ 0 ∨ index = Register.zero) (written defaultMode : Int) :
    writtenMode (written + defaultMode) index.val address defaultMode = written := by
  have hbare : ¬(address = 0 ∧ index ≠ Register.zero) := fun hbare =>
    h.elim (fun hne => hne hbare.1) hbare.2
  rw [writtenMode_eq, if_neg hbare]
  omega

theorem writtenMode_register {index : Register} (h : index ≠ Register.zero)
    (written defaultMode : Int) :
    writtenMode (written + defaultMode - 1) index.val 0 defaultMode = written := by
  rw [writtenMode_eq, if_pos ⟨rfl, h⟩]
  omega

/-- A canonical operand is the listed one of a mode that is at most one above the default. -/
theorem IsOperand.exists_second {text : Text} (h : IsOperand defaultMode text)
    (hdefault : defaultMode = 0 ∨ defaultMode = 1) :
    ∃ mode index address, 0 ≤ mode ∧ mode ≤ defaultMode + 1 ∧
      (-2 ^ 15 ≤ address ∧ address < 2 ^ 15) ∧
      second (writtenMode mode (index : Register).val address defaultMode) index address =
        text := by
  cases h with
  | address a hsign ha =>
    obtain ⟨written, rfl, hlow, hhigh⟩ := hsign.exists_written hdefault
    refine ⟨written + defaultMode, Register.zero, a, by omega, by omega, by omega, ?_⟩
    have hne : written ≠ 2 := by omega
    rw [writtenMode_address (Or.inr rfl), second_eq]
    simp [body, hne]
  | indexed a r hsign ha hne hr =>
    obtain ⟨written, rfl, hlow, hhigh⟩ := hsign.exists_written hdefault
    refine ⟨written + defaultMode, r, a, by omega, by omega, by omega, ?_⟩
    rw [writtenMode_address (Or.inl hne), second_eq]
    simp [body, hne, hr]
  | register r hsign hr =>
    obtain ⟨written, rfl, hlow, hhigh⟩ := hsign.exists_written hdefault
    refine ⟨written + defaultMode - 1, r, 0, by omega, by omega, by decide, ?_⟩
    have hne : written ≠ 2 := by omega
    rw [writtenMode_register hr, second_eq]
    simp [body, hne, hr]
  | pointer r hr =>
    refine ⟨2 + defaultMode - 1, r, 0, by omega, by omega, by decide, ?_⟩
    rw [writtenMode_register hr]
    rfl

variable {i : Instruction} {line : Text}

theorem IsCanonical.exists_render (h : IsCanonical i line)
    (hdefault : i.defaultMode = 0 ∨ i.defaultMode = 1) :
    ∃ f : Fields, f.opcode = i.opcode ∧ (0 ≤ f.mode ∧ f.mode < 4) ∧
      (-2 ^ 15 ≤ f.address ∧ f.address < 2 ^ 15) ∧ f.Emitted i ∧ render i f = line := by
  have hnone : -2 ^ 15 ≤ (0 : Int) ∧ (0 : Int) < 2 ^ 15 := by decide
  cases h with
  | bare hformat =>
    have hmode : 0 ≤ i.defaultMode ∧ i.defaultMode < 4 := by omega
    refine ⟨⟨i.opcode, Register.zero, i.defaultMode, Register.zero, 0⟩, rfl, hmode, hnone, ?_⟩
    simp [Fields.Emitted, render, hformat]
  | first hformat r =>
    have hmode : 0 ≤ i.defaultMode ∧ i.defaultMode < 4 := by omega
    refine ⟨⟨i.opcode, r, i.defaultMode, Register.zero, 0⟩, rfl, hmode, hnone, ?_⟩
    simp [Fields.Emitted, render, hformat]
  | second hformat hoperand =>
    obtain ⟨mode, index, address, hlow, hhigh, haddress, rfl⟩ := hoperand.exists_second hdefault
    have hmode : 0 ≤ mode ∧ mode < 4 := by omega
    refine ⟨⟨i.opcode, Register.zero, mode, index, address⟩, rfl, hmode, haddress, ?_⟩
    simp [Fields.Emitted, render, hformat, hhigh]
  | both hformat r hoperand =>
    obtain ⟨mode, index, address, hlow, hhigh, haddress, rfl⟩ := hoperand.exists_second hdefault
    have hmode : 0 ≤ mode ∧ mode < 4 := by omega
    refine ⟨⟨i.opcode, r, mode, index, address⟩, rfl, hmode, haddress, ?_⟩
    simp [Fields.Emitted, render, hformat, hhigh]

/-- A canonical line is read and encoded without any symbols, and the listing of its word is the
line, character for character. -/
theorem exists_encodeAlone_of_isCanonical (hi : i ∈ Instruction.all) (h : IsCanonical i line) :
    ∃ word, encodeAlone line = .ok [⟨word, 0, i.name⟩] ∧ instruction lenient word = line := by
  have hlt := Instruction.opcode_lt_of_mem hi
  obtain ⟨f, hopcode, hmode, haddress, hemitted, rfl⟩ :=
    h.exists_render (Instruction.defaultMode_of_mem hi)
  have hfields : Fields.ofWord f.toWord = f := Fields.ofWord_toWord (by omega) hmode haddress
  have hfound : Instruction.ofOpcode? (Fields.ofWord f.toWord).opcode = some i := by
    rw [hfields, hopcode]
    exact Instruction.ofOpcode?_of_mem hi
  have hlisted : instruction lenient f.toWord = render i f := by
    rw [(instruction_of_found hfound).2.2, hfields]
  refine ⟨f.toWord, ?_, hlisted⟩
  rw [← hlisted]
  exact encodeAlone_of_emitted (Fields.pack_bounds ..) hfound (by rwa [hfields])

/-- The forms that the two default modes write differently: an immediate address with an index, a
register as a pointer, and a register in parentheses. -/
theorem exists_encodeAlone_of_isCanonical_forms :
    (∃ word, encodeAlone "LOAD  FP, =-32768(SP)".toList = .ok [⟨word, 0, "LOAD".toList⟩] ∧
      instruction lenient word = "LOAD  FP, =-32768(SP)".toList) ∧
    (∃ word, encodeAlone "STORE R0, @R5".toList = .ok [⟨word, 0, "STORE".toList⟩] ∧
      instruction lenient word = "STORE R0, @R5".toList) ∧
    ∃ word, encodeAlone "JUMP  @(FP)".toList = .ok [⟨word, 0, "JUMP".toList⟩] ∧
      instruction lenient word = "JUMP  @(FP)".toList := by
  have hload : padded "LOAD".toList ++ Register.displayName 7 ++ ", ".toList ++
      '=' :: (Text.ofInt (-32768) ++ '(' :: Register.displayName 6 ++ [')']) =
      "LOAD  FP, =-32768(SP)".toList := by decide +kernel
  have hstore : padded "STORE".toList ++ Register.displayName 0 ++ ", ".toList ++
      '@' :: Register.displayName 5 = "STORE R0, @R5".toList := by decide +kernel
  have hjump : padded "JUMP".toList ++ '@' :: '(' :: Register.displayName 7 ++ [')'] =
      "JUMP  @(FP)".toList := by decide +kernel
  rw [← hload, ← hstore, ← hjump]
  refine ⟨?_, ?_, ?_⟩
  · exact exists_encodeAlone_of_isCanonical (i := ⟨"LOAD".toList, 0x02, .both, 1, true⟩) (by decide)
      (.both rfl 7 (.indexed (-32768) 6 (.immediate rfl) (by decide) (by decide) (by decide)))
  · exact exists_encodeAlone_of_isCanonical (i := ⟨"STORE".toList, 0x01, .both, 0, true⟩)
      (by decide) (.both rfl 0 (.register 5 .indirect (by decide)))
  · exact exists_encodeAlone_of_isCanonical (i := ⟨"JUMP".toList, 0x20, .second, 0, true⟩)
      (by decide) (.second rfl (.pointer 7 (by decide)))

end Ttk91.Listing
