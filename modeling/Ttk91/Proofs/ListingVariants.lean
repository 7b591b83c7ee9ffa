import Ttk91.Proofs.PackedFields
import Ttk91.Proofs.StrictListing

/-! Listings of arbitrary words. Every integer is listed, only its lowest 32 bits count, and what
the rules of a listing refuse is all that they change. -/

namespace Ttk91

theorem Instruction.ofOpcode?_eq_none_iff {code : Int} :
    Instruction.ofOpcode? code = none ↔ ∀ i ∈ Instruction.all, (i.opcode : Int) ≠ code := by
  simp [Instruction.ofOpcode?, List.find?_eq_none]

namespace Listing

variable {word : Int} {i : Instruction}

def classicOnly : Rules := ⟨false, true⟩

theorem instruction_congr (rules : Rules) {other : Int} (h : other % 2 ^ 32 = word % 2 ^ 32) :
    instruction rules other = instruction rules word := by
  have hfields : Fields.ofWord other = Fields.ofWord word := by
    rw [← Fields.ofWord_unsigned other, Bits.unsigned_eq, h, ← Bits.unsigned_eq,
      Fields.ofWord_unsigned]
  rw [instruction, instruction, hfields]

/-- The address is the only number in a listing, and it is never too long to be shown. -/
theorem isShowable_address (word : Int) :
    Text.isShowable (Fields.ofWord word).address = true := by
  have hbounds := Fields.ofWord_address_bounds word
  exact Text.isShowable_of_natAbs_lt (by omega)

theorem instruction_lenient_ne_unknown
    (hfound : Instruction.ofOpcode? (Fields.ofWord word).opcode = some i) :
    instruction lenient word ≠ unknown := by
  obtain ⟨hi, -, htext⟩ := instruction_of_found hfound
  rw [htext]
  exact render_ne_unknown hi _

/-- Without rules, only an unknown operation code stands in the way of a listing. -/
theorem instruction_lenient_eq_unknown_iff (word : Int) :
    instruction lenient word = unknown ↔
      Instruction.ofOpcode? (Fields.ofWord word).opcode = none := by
  cases hfound : Instruction.ofOpcode? (Fields.ofWord word).opcode with
  | none => exact iff_of_true (instruction_of_not_found lenient hfound) rfl
  | some i => exact iff_of_false (instruction_lenient_ne_unknown hfound) (by simp)

theorem instruction_unknown_or_lenient (rules : Rules) (word : Int) :
    instruction rules word = unknown ∨ instruction rules word = instruction lenient word := by
  cases hfound : Instruction.ofOpcode? (Fields.ofWord word).opcode with
  | none => exact Or.inl (instruction_of_not_found rules hfound)
  | some i =>
    rw [instruction_eq_ite rules hfound]
    split
    · exact Or.inl rfl
    · exact Or.inr rfl

theorem instruction_strict_eq_unknown_iff
    (hfound : Instruction.ofOpcode? (Fields.ofWord word).opcode = some i) :
    instruction strict word = unknown ↔
      isValidMode (writtenFor i (Fields.ofWord word)) i.defaultMode = false := by
  rw [instruction_eq_ite strict hfound]
  simp [strict, instruction_lenient_ne_unknown hfound]

theorem instruction_classicOnly_eq_unknown_iff
    (hfound : Instruction.ofOpcode? (Fields.ofWord word).opcode = some i) :
    instruction classicOnly word = unknown ↔ i.classic = false := by
  rw [instruction_eq_ite classicOnly hfound]
  simp [classicOnly, instruction_lenient_ne_unknown hfound]

/-- The classic listing refuses what one of its two rules refuses alone. -/
theorem instruction_classic_eq_ite (word : Int) :
    instruction classic word =
      if instruction strict word = unknown ∨ instruction classicOnly word = unknown then unknown
      else instruction lenient word := by
  cases hfound : Instruction.ofOpcode? (Fields.ofWord word).opcode with
  | none =>
    rw [if_pos (Or.inl (instruction_of_not_found strict hfound))]
    exact instruction_of_not_found classic hfound
  | some i =>
    rw [instruction_eq_ite classic hfound]
    simp only [instruction_strict_eq_unknown_iff hfound,
      instruction_classicOnly_eq_unknown_iff hfound, classic, true_and]
    simp only [or_comm]

/-- Every integer is listed under all rules: no field is out of range, no number is too long, and
words that agree modulo `2 ^ 32` have the same text. Without rules a word is refused only for its
operation code. Rules refuse words and change no text, and the classic listing refuses exactly what
one of its two rules refuses. -/
theorem instruction_total (word : Int) :
    (Fields.Decodes word (Fields.ofWord word) ∧
      Text.isShowable (Fields.ofWord word).address = true) ∧
    (∀ (rules : Rules) (other : Int), other % 2 ^ 32 = word % 2 ^ 32 →
      instruction rules other = instruction rules word) ∧
    (instruction lenient word = unknown ↔
      ∀ i ∈ Instruction.all, (i.opcode : Int) ≠ word / 2 ^ 24 % 2 ^ 8) ∧
    (∀ rules : Rules,
      instruction rules word = unknown ∨ instruction rules word = instruction lenient word) ∧
    instruction classic word =
      if instruction strict word = unknown ∨ instruction classicOnly word = unknown then unknown
      else instruction lenient word := by
  have hopcode : (Fields.ofWord word).opcode = word / 2 ^ 24 % 2 ^ 8 := Bits.field_eq word 31 24
  refine ⟨⟨Fields.decodes_ofWord word, isShowable_address word⟩,
    fun rules other h => instruction_congr rules h, ?_,
    fun rules => instruction_unknown_or_lenient rules word, instruction_classic_eq_ite word⟩
  rw [instruction_lenient_eq_unknown_iff, hopcode, Instruction.ofOpcode?_eq_none_iff]

/-- A negative number of more than 64 bits that ends in an addition with the highest mode: it has a
listing, and neither a strict nor a classic one. -/
theorem instruction_total_negative :
    (0x11380000 - 2 ^ 70 : Int) % 2 ^ 32 = 0x11380000 % 2 ^ 32 ∧
    instruction lenient (0x11380000 - 2 ^ 70) = "ADD   R1, @(R0)".toList ∧
    instruction strict (0x11380000 - 2 ^ 70) = unknown ∧
    instruction classic (0x11380000 - 2 ^ 70) = unknown := by
  have hmod : (0x11380000 - 2 ^ 70 : Int) % 2 ^ 32 = 0x11380000 % 2 ^ 32 := by decide
  obtain ⟨-, hsame, -, -, hclassic⟩ := instruction_total 0x11380000
  have hstrict : instruction strict 0x11380000 = unknown := by decide +kernel
  rw [if_pos (Or.inl hstrict)] at hclassic
  rw [hsame lenient _ hmod, hsame strict _ hmod, hsame classic _ hmod]
  exact ⟨hmod, by decide +kernel, hstrict, hclassic⟩

end Listing
end Ttk91
