import Ttk91.Encoding
import Ttk91.Proofs.WordFields

/-! What the encoder makes of instructions: which fields its words can have. -/

namespace Ttk91

namespace Format

def hasFirst : Format → Bool
  | .first | .both => true
  | .bare | .second => false

def hasSecond : Format → Bool
  | .second | .both => true
  | .bare | .first => false

end Format

namespace Instruction

variable {i : Instruction}

theorem find?_of_nodup_map {κ : Type} [BEq κ] [LawfulBEq κ] {key : Instruction → κ}
    {l : List Instruction} (hn : (l.map key).Nodup) (h : i ∈ l) :
    l.find? (fun j => key j == key i) = some i := by
  induction l with
  | nil => cases h
  | cons j l ih =>
    rw [List.map_cons, List.nodup_cons] at hn
    rcases List.mem_cons.mp h with rfl | h
    · simp
    · have hne : key j ≠ key i := fun heq => hn.1 (heq ▸ List.mem_map_of_mem h)
      rw [List.find?_cons_of_neg (by simpa using hne), ih hn.2 h]

theorem mem_of_named? {token : Text} (h : named? token = some i) :
    i ∈ all ∧ i.name = Text.upper token :=
  ⟨List.mem_of_find?_eq_some h, by simpa using List.find?_some h⟩

theorem opcode_lt_of_mem (h : i ∈ all) : i.opcode < 256 := by
  have hall : ∀ i ∈ all, i.opcode < 256 := by decide
  exact hall i h

theorem defaultMode_of_mem (h : i ∈ all) : i.defaultMode = 0 ∨ i.defaultMode = 1 := by
  have hall : ∀ i ∈ all, i.defaultMode = 0 ∨ i.defaultMode = 1 := by decide
  exact hall i h

theorem ofOpcode?_of_mem (h : i ∈ all) : ofOpcode? i.opcode = some i := by
  have hcode : (fun j : Instruction => (j.opcode : Int) == (i.opcode : Int)) =
      fun j => j.opcode == i.opcode := by
    funext j
    rw [Bool.eq_iff_iff, beq_iff_eq, beq_iff_eq]
    exact Int.ofNat_inj
  rw [ofOpcode?, hcode]
  exact find?_of_nodup_map opcodes_nodup h

theorem assign?_eq_some {format : Format} {operands : List Text} {firstText secondText : Text}
    (h : assign? format operands = some (firstText, secondText)) :
    (format.hasFirst = false → firstText = ['R', '0']) ∧
      (format.hasSecond = false → secondText = []) := by
  unfold assign? at h
  split at h <;> cases h <;> simp [Format.hasFirst, Format.hasSecond]

theorem second_eq_ok {symbols : SymbolTable} {text : Text} {mode address : Int}
    {index : Register} (h : i.second symbols text = .ok (mode, index, address)) :
    (text = [] ∧ mode = i.defaultMode ∧ index = Register.zero ∧ address = 0) ∨
      ∃ operand, Operand.parse text = .ok operand ∧ mode = i.defaultMode + operand.mode := by
  unfold second at h
  split at h
  · rename_i hempty
    cases h
    exact Or.inl ⟨List.isEmpty_iff.mp hempty, rfl, rfl, rfl⟩
  · split at h
    · cases h
    · rename_i operand hoperand
      split at h
      · cases h
      · cases h
        exact Or.inr ⟨operand, hoperand, rfl⟩

end Instruction

namespace Operand

theorem mode_eq_of_parseBody {token : Text} {mode : Int} {minus text : Text} {operand : Operand}
    (h : parseBody token mode minus text = .ok operand) :
    operand.mode = mode - 1 ∨ operand.mode = mode := by
  unfold parseBody at h
  split at h
  · split at h
    · cases h
      exact Or.inl rfl
    · cases h
  · split at h
    · cases h
      exact Or.inr rfl
    · split at h
      · cases h
      · split at h
        · cases h
        · split at h
          · cases h
          · cases h
            exact Or.inr rfl

theorem splitMode_bounds (token : Text) : -1 ≤ (splitMode token).1 ∧ (splitMode token).1 ≤ 1 := by
  unfold splitMode
  split <;> simp

/-- An operand raises the mode by one or lowers it by two, at most. -/
theorem mode_bounds_of_parse {token : Text} {operand : Operand} (h : parse token = .ok operand) :
    -2 ≤ operand.mode ∧ operand.mode ≤ 1 := by
  have hsign := splitMode_bounds token
  have hmode : operand.mode = (splitMode token).1 - 1 ∨ operand.mode = (splitMode token).1 :=
    mode_eq_of_parseBody h
  omega

end Operand

/-- The fields that an instruction keeps: those of the operands that it has, with a mode at most
one above the default. -/
def Fields.canonical (i : Instruction) (f : Fields) : Fields where
  opcode := i.opcode
  first := if i.format.hasFirst then f.first else Register.zero
  mode := if i.format.hasSecond then min f.mode (i.defaultMode + 1) else i.defaultMode
  index := if i.format.hasSecond then f.index else Register.zero
  address := if i.format.hasSecond then f.address else 0

namespace Statement

theorem encode_eq_ok {st : Statement} {symbols : SymbolTable} {word : Int}
    (h : st.encode symbols = .ok word) :
    ∃ (i : Instruction) (firstText secondText : Text) (first : Register) (mode : Int)
      (index : Register) (address : Int), Instruction.named? st.keyword = some i ∧
      Instruction.assign? i.format st.operands = some (firstText, secondText) ∧
      Register.parse firstText = .ok first ∧
      i.second symbols secondText = .ok (mode, index, address) ∧ 0 ≤ mode ∧ mode ≤ 2 ∧
      Bits.fitsAddress address = true ∧
      word = Fields.pack i.opcode first.val mode index.val address := by
  unfold encode at h
  split at h
  · cases h
  · rename_i i hnamed
    split at h
    · cases h
    · rename_i firstText secondText hassign
      split at h
      · cases h
      · rename_i first hfirst
        split at h
        · cases h
        · rename_i mode index address hsecond
          split at h
          · cases h
          · rename_i hmode
            split at h
            · cases h
            · rename_i haddress
              cases h
              have hrange : 0 ≤ mode ∧ mode ≤ 2 := Decidable.not_not.mp hmode
              exact ⟨i, firstText, secondText, first, mode, index, address, hnamed, hassign,
                hfirst, hsecond, hrange.1, hrange.2, Bool.not_eq_false _ ▸ haddress, rfl⟩

theorem encode_of_operands {st : Statement} {symbols : SymbolTable} {i : Instruction}
    {firstText secondText : Text} {first index : Register} {mode address : Int}
    (hnamed : Instruction.named? st.keyword = some i)
    (hassign : Instruction.assign? i.format st.operands = some (firstText, secondText))
    (hfirst : Register.parse firstText = .ok first)
    (hsecond : i.second symbols secondText = .ok (mode, index, address))
    (hmode : 0 ≤ mode ∧ mode ≤ 2) (haddress : Bits.fitsAddress address = true) :
    st.encode symbols = .ok (Fields.pack i.opcode first.val mode index.val address) := by
  simp [encode, hnamed, hassign, hfirst, hsecond, hmode, haddress]

theorem encode_bounds {st : Statement} {symbols : SymbolTable} {word : Int}
    (h : st.encode symbols = .ok word) : -2 ^ 31 ≤ word ∧ word < 2 ^ 31 := by
  obtain ⟨_, _, _, _, _, _, _, -, -, -, -, -, -, -, rfl⟩ := encode_eq_ok h
  exact Fields.pack_bounds ..

theorem canonical_of_encode {st : Statement} {symbols : SymbolTable} {word : Int}
    (h : st.encode symbols = .ok word) :
    ∃ i ∈ Instruction.all, Fields.ofWord word = (Fields.ofWord word).canonical i := by
  obtain ⟨i, firstText, secondText, first, mode, index, address, hnamed, hassign, hfirst, hsecond,
    hpos, hle, -, rfl⟩ := encode_eq_ok h
  have hmem := (Instruction.mem_of_named? hnamed).1
  have hopcode := Instruction.opcode_lt_of_mem hmem
  have hplaces := Instruction.assign?_eq_some hassign
  refine ⟨i, hmem, ?_⟩
  rw [Fields.ofWord_pack first index address (by omega) (by omega)]
  have hfirst' : i.format.hasFirst = false → first = Register.zero := by
    intro hno
    rw [hplaces.1 hno] at hfirst
    exact (Except.ok.inj hfirst).symm
  have hsecond' : i.format.hasSecond = false →
      mode = i.defaultMode ∧ index = Register.zero ∧ address = 0 := by
    intro hno
    rw [hplaces.2 hno] at hsecond
    cases hsecond
    exact ⟨rfl, rfl, rfl⟩
  have hmode : mode ≤ i.defaultMode + 1 := by
    rcases Instruction.second_eq_ok hsecond with ⟨-, rfl, -⟩ | ⟨operand, hoperand, rfl⟩
    · omega
    · have := Operand.mode_bounds_of_parse hoperand
      omega
  have hfields : first = (if i.format.hasFirst then first else Register.zero) := by
    cases hf : i.format.hasFirst with
    | true => rfl
    | false => exact hfirst' hf
  cases hs : i.format.hasSecond with
  | true =>
    simp only [Fields.canonical, hs, if_true, Fields.mk.injEq, true_and, and_true]
    exact ⟨hfields, by omega⟩
  | false =>
    obtain ⟨rfl, rfl, rfl⟩ := hsecond' hs
    simp only [Fields.canonical, hs, Fields.mk.injEq, true_and]
    exact ⟨hfields, rfl, rfl, rfl⟩

end Statement
end Ttk91
