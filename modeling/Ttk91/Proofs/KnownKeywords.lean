import Ttk91.Proofs.Faults
import Ttk91.Proofs.ListedInstruction
import Ttk91.Proofs.StableCase

/-! The keywords of each kind of statement. A pass that meets only keywords of the right kind never
complains about one. -/

namespace Ttk91

namespace WordKind

/-- The spellings of the keywords of a kind. Registers and plain words are no keywords. -/
def spellings : WordKind → List Text
  | .code => Instruction.all.map Instruction.name
  | .constant => [equ]
  | .data => [ds, dc]
  | .directive => [org]
  | .register | .plain => []

def IsKeyword (kind : WordKind) : Prop :=
  kind = .code ∨ kind = .constant ∨ kind = .data ∨ kind = .directive

theorem isKeyword_iff {kind : WordKind} : kind.IsKeyword ↔ kind ≠ .plain ∧ kind ≠ .register := by
  cases kind <;> simp [IsKeyword]

theorem upper_mem_spellings {word : Text} (h : (ofWord word).IsKeyword) :
    Text.upper word ∈ (ofWord word).spellings := by
  revert h
  fun_cases ofWord word with
  | case1 keyword hcode =>
    intro _
    obtain ⟨i, hi⟩ := Option.isSome_iff_exists.mp hcode
    obtain ⟨hmem, hname⟩ := Instruction.mem_of_named? hi
    rw [Text.upper_upper] at hname
    exact List.mem_map.mpr ⟨i, hmem, hname⟩
  | case2 => exact fun h => absurd rfl (isKeyword_iff.mp h).2
  | case3 keyword hcode hregister hequ => exact fun _ => List.mem_singleton.mpr hequ
  | case4 keyword hcode hregister hequ hdata => exact fun _ => by simpa [spellings] using hdata
  | case5 keyword hcode hregister hequ hdata horg => exact fun _ => List.mem_singleton.mpr horg
  | case6 => exact fun h => absurd rfl (isKeyword_iff.mp h).1

end WordKind

/-! Keywords that are none of their statement's kind. -/

/-- Whether a fault says that a pass does not know the keyword of a statement. -/
def Fault.isForeign : Fault → Bool
  | .notDirective _ | .notData _ | .unknownInstruction _ => true
  | _ => false

theorem Fault.OfValue.isForeign_eq {fault : Fault} (h : fault.OfValue) :
    fault.isForeign = false := by
  cases h <;> rfl

namespace Statement

variable {st : Statement} {fault : Fault}

theorem isForeign_of_dataWords (hk : st.keyword ∈ WordKind.data.spellings)
    (h : st.dataWords = .error fault) : fault.isForeign = false := by
  rcases dataWords_eq_error h with hvalue | ⟨-, hdc, hds⟩
  · exact hvalue.isForeign_eq
  · simp [WordKind.spellings, hdc, hds] at hk

theorem isForeign_of_encode {symbols : SymbolTable} (hk : st.keyword ∈ WordKind.code.spellings)
    (h : st.encode symbols = .error fault) : fault.isForeign = false := by
  cases encodeFault_of_encode h with
  | unknownInstruction hnamed =>
    obtain ⟨i, hi, hname⟩ := List.mem_map.mp hk
    rw [← hname, Instruction.named?_name hi] at hnamed
    cases hnamed
  | _ => rfl

end Statement

namespace Program

variable {program : Program}

/-- A failure in which no keyword is foreign to its statement's kind. -/
def Known (failure : Failure) : Prop :=
  ∀ line fault, failure = .faulty line fault → fault.isForeign = false

theorem known_faulty {line : Int} {fault : Fault} (h : fault.isForeign = false) :
    Known (.faulty line fault) := by
  intro line' fault' heq
  obtain ⟨-, rfl⟩ := Failure.faulty.inj heq
  exact h

variable (hk : ∀ st ∈ program, st.keyword ∈ st.kind.spellings)
include hk

theorem known_of_originAfter {found : Option Int} {failure : Failure}
    (h : originAfter found program = .error failure) : Known failure := by
  obtain ⟨st, hst, hkind, fault, rfl, hvalue | rfl | ⟨rfl, hkey⟩⟩ := originAfter_eq_error h
  · exact known_faulty hvalue.isForeign_eq
  · exact known_faulty rfl
  · have hmem := hk st hst
    simp [hkind, WordKind.spellings, hkey] at hmem

theorem known_of_dataSegment {failure : Failure} (h : dataSegment program = .error failure) :
    Known failure := by
  obtain ⟨st, hst, hkind, fault, rfl, hfault⟩ := dataSegment_eq_error h
  exact known_faulty (Statement.isForeign_of_dataWords (hkind ▸ hk st hst) hfault)

theorem known_of_encode {symbols : SymbolTable} {address : Int} {failure : Failure}
    (h : encode symbols address program = .error failure) : Known failure := by
  obtain ⟨st, hst, hkind, fault, rfl, hfault⟩ := encode_eq_error h
  exact known_faulty (Statement.isForeign_of_encode (hkind ▸ hk st hst) hfault)

end Program
end Ttk91
