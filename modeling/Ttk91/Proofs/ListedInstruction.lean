import Ttk91.Listing
import Ttk91.Proofs.Encoder
import Ttk91.Proofs.Numeral
import Ttk91.Proofs.SourceReader

/-! Listed instructions read as source lines: the words of such a line, its operands, and the word
that it is encoded into. -/

namespace Ttk91

namespace Statement

/-- Whether a word of a line ends before a character. -/
def endsWord (c : Char) : Bool := isSeparator c || c == ';'

theorem endsWord_eq_false {c : Char} (h : endsWord c = false) :
    isSeparator c = false ∧ c ≠ ';' := by
  simpa [endsWord] using h

end Statement

namespace Text

def IsCapital (c : Char) : Prop := 65 ≤ c.toNat ∧ c.toNat < 65 + 26

instance (c : Char) : Decidable (IsCapital c) := inferInstanceAs (Decidable (_ ∧ _))

theorem upperChar_of_isCapital {c : Char} (h : IsCapital c) : upperChar c = [c] :=
  of_range (p := fun c => upperChar c = [c]) (by decide) h

theorem upper_of_isCapital {t : Text} (h : ∀ c ∈ t, IsCapital c) : upper t = t :=
  upper_of_forall fun c hc => upperChar_of_isCapital (h c hc)

theorem endsWord_of_isCapital {c : Char} (h : IsCapital c) : Statement.endsWord c = false := by
  have hblank : isBlank c = false := isBlank_of_graphic (by unfold IsCapital at h; omega)
  have hcomma : c ≠ ',' := by
    rintro rfl
    exact absurd h (by decide)
  have hsemicolon : c ≠ ';' := by
    rintro rfl
    exact absurd h (by decide)
  simp [Statement.endsWord, Statement.isSeparator, hblank, hcomma, hsemicolon]

end Text

namespace Instruction

variable {i : Instruction}

theorem name_spelling (h : i ∈ all) :
    i.name ≠ [] ∧ i.name.length < 6 ∧ ∀ c ∈ i.name, Text.IsCapital c := by
  have hall : ∀ i ∈ all, i.name ≠ [] ∧ i.name.length < 6 ∧
      i.name.all (fun c => decide (Text.IsCapital c)) = true := by decide +kernel
  obtain ⟨hne, hlength, hcapital⟩ := hall i h
  exact ⟨hne, hlength, by simpa using hcapital⟩

theorem upper_name (h : i ∈ all) : Text.upper i.name = i.name :=
  Text.upper_of_isCapital (name_spelling h).2.2

theorem named?_name (h : i ∈ all) : named? i.name = some i := by
  rw [named?, upper_name h]
  exact find?_of_nodup_map names_nodup h

theorem name_word (h : i ∈ all) :
    i.name ≠ [] ∧ i.name.length < 6 ∧ ∀ c ∈ i.name, Statement.endsWord c = false := by
  obtain ⟨hne, hlength, hcapital⟩ := name_spelling h
  exact ⟨hne, hlength, fun c hc => Text.endsWord_of_isCapital (hcapital c hc)⟩

end Instruction

theorem Register.displayName_word (r : Register) :
    r.displayName ≠ [] ∧ ∀ c ∈ r.displayName, Statement.endsWord c = false := by
  have hall : ∀ r : Register, r.displayName ≠ [] ∧
      r.displayName.all (fun c => !Statement.endsWord c) = true := by decide
  exact ⟨(hall r).1, Text.eq_false_of_all (hall r).2⟩

/-! Operands behind their sign. -/

/-- No register starts with a character that is none of the first letters. -/
theorem Register.exists_parse_eq_error_of_head {c : Char} {t : Text}
    (hc : Text.upperChar c = [c]) (hne : c ∉ ['S', 'F', 'R'])
    (hblank : ∀ d ∈ c :: t, Text.isBlank d = false) : ∃ e, Register.parse (c :: t) = .error e := by
  have htrim : Text.trim (c :: t) = c :: t := Text.trimBy_of_all_not hblank
  have hupper : Text.upper (c :: t) = c :: Text.upper t := by simp [Text.upper, hc]
  unfold Register.parse
  rw [htrim, hupper]
  split
  · rename_i heq
    exact absurd (by simp [(List.cons.inj heq).1]) hne
  · rename_i heq
    exact absurd (by simp [(List.cons.inj heq).1]) hne
  · rename_i heq
    exact absurd (by simp [(List.cons.inj heq).1]) hne
  · exact ⟨_, rfl⟩

theorem Register.exists_parse_eq_error {c : Char} {t : Text} (hc : c.isDigit = true ∨ c = '(')
    (hblank : ∀ d ∈ c :: t, Text.isBlank d = false) : ∃ e, Register.parse (c :: t) = .error e := by
  apply Register.exists_parse_eq_error_of_head _ _ hblank
  · rcases hc with hc | rfl
    · exact Text.upperChar_of_isDigit hc
    · decide
  · intro hmem
    rcases hc with hc | rfl
    · simp only [List.mem_cons, List.not_mem_nil, or_false] at hmem
      rcases hmem with rfl | rfl | rfl <;> exact absurd hc (by decide)
    · exact absurd hmem (by decide)

namespace Operand

theorem exists_splitMinus_ofInt (address : Int) (t : Text) :
    ∃ minus, splitMinus (Text.ofInt address ++ t) = (minus, Text.ofNat address.natAbs ++ t) ∧
      Text.ofInt address = minus ++ Text.ofNat address.natAbs := by
  cases address with
  | ofNat n =>
    refine ⟨[], ?_, rfl⟩
    obtain ⟨c, u, hu, hc⟩ := Text.exists_ofNat_eq_cons n
    have hne : c ≠ '-' := by
      rintro rfl
      exact absurd hc (by decide)
    simp only [Text.ofInt, hu, List.cons_append, Int.ofNat_eq_natCast, Int.natAbs_natCast]
    rw [splitMinus.eq_def]
    split
    · rename_i heq
      exact absurd (List.cons.inj heq).1 hne
    · rfl
  | negSucc n => exact ⟨['-'], rfl, rfl⟩

theorem splitMinus_displayName :
    ∀ r : Register, splitMinus r.displayName = ([], r.displayName) := by
  decide

theorem parseBody_displayName (token : Text) (mode : Int) (r : Register) :
    parseBody token mode [] r.displayName = .ok ⟨mode - 1, r, []⟩ := by
  simp [parseBody, Register.parse_displayName]

theorem parseBody_ofNat (token : Text) (mode : Int) (minus : Text) (n : Nat) :
    parseBody token mode minus (Text.ofNat n) =
      .ok ⟨mode, Register.zero, minus ++ Text.ofNat n⟩ := by
  have hdigit : ∀ c ∈ Text.ofNat n, c.isDigit = true := fun _ => Text.isDigit_of_mem_ofNat
  have hopen : '(' ∉ Text.ofNat n := fun h => absurd (hdigit _ h) (by decide)
  obtain ⟨c, t, ht, hc⟩ := Text.exists_ofNat_eq_cons n
  obtain ⟨e, he⟩ : ∃ e, Register.parse (Text.ofNat n) = .error e := by
    rw [ht]
    exact Register.exists_parse_eq_error (Or.inl hc)
      fun d hd => Text.isBlank_of_isDigit (hdigit d (ht ▸ hd))
  simp [parseBody, he, Text.cut_of_not_mem hopen]

theorem parseBody_indexed (token : Text) (mode : Int) (minus digits : Text)
    (hdigit : ∀ c ∈ digits, c.isDigit = true) (r : Register) :
    parseBody token mode minus (digits ++ '(' :: (r.displayName ++ [')'])) =
      .ok ⟨mode, r, minus ++ digits⟩ := by
  have hname : ∀ c ∈ r.displayName, Text.isBlank c = false := fun c hc =>
    Statement.isBlank_of_isSeparator
      (Statement.endsWord_eq_false ((Register.displayName_word r).2 c hc)).1
  have hopen : '(' ∉ digits := fun h => absurd (hdigit _ h) (by decide)
  have hclose : ∀ r : Register, ')' ∉ r.displayName := by decide
  have hblank : ∀ c ∈ digits ++ '(' :: (r.displayName ++ [')']), Text.isBlank c = false := by
    intro c hc
    simp only [List.mem_append, List.mem_cons, List.not_mem_nil, or_false] at hc
    rcases hc with hc | rfl | hc | rfl
    · exact Text.isBlank_of_isDigit (hdigit c hc)
    · decide
    · exact hname c hc
    · decide
  obtain ⟨e, he⟩ : ∃ e, Register.parse (digits ++ '(' :: (r.displayName ++ [')'])) = .error e := by
    cases digits with
    | nil => exact Register.exists_parse_eq_error (Or.inr rfl) hblank
    | cons c t => exact Register.exists_parse_eq_error (Or.inl (hdigit c (by simp))) hblank
  simp [parseBody, he, Text.cut_append _ hopen, Text.cut_append _ (hclose r),
    Register.parse_displayName]

end Operand

namespace Listing

def body (written : Int) (index : Register) (address : Int) : Text :=
  let indexed := '(' :: index.displayName ++ [')']
  if written = 2 then (if address = 0 then indexed else Text.ofInt address ++ indexed)
  else if index = Register.zero then Text.ofInt address
  else if address = 0 then index.displayName
  else Text.ofInt address ++ indexed

theorem second_eq (written : Int) (index : Register) (address : Int) :
    second written index address = modeSign written :: body written index address := rfl

/-- What a listed operand is read as, behind a sign for `mode`. A bare register lowers the mode. -/
def operandRead (mode written : Int) (index : Register) (address : Int) : Operand where
  mode := if written ≠ 2 ∧ address = 0 ∧ index ≠ Register.zero then mode - 1 else mode
  register := index
  address := if address = 0 ∧ (written = 2 ∨ index ≠ Register.zero) then [] else Text.ofInt address

theorem parseBody_body (token : Text) (mode written : Int) (index : Register) (address : Int) :
    Operand.parseBody token mode (Operand.splitMinus (body written index address)).1
        (Operand.splitMinus (body written index address)).2 =
      .ok (operandRead mode written index address) := by
  have hindexed : Operand.parseBody token mode
      (Operand.splitMinus (Text.ofInt address ++ '(' :: (index.displayName ++ [')']))).1
      (Operand.splitMinus (Text.ofInt address ++ '(' :: (index.displayName ++ [')']))).2 =
      .ok ⟨mode, index, Text.ofInt address⟩ := by
    obtain ⟨minus, hsplit, hint⟩ := Operand.exists_splitMinus_ofInt address
      ('(' :: (index.displayName ++ [')']))
    rw [hsplit, hint]
    exact Operand.parseBody_indexed token mode minus _ (fun _ => Text.isDigit_of_mem_ofNat) index
  by_cases hw : written = 2
  · by_cases ha : address = 0
    · have hopen : Operand.splitMinus ('(' :: (index.displayName ++ [')'])) =
          ([], '(' :: (index.displayName ++ [')'])) := rfl
      have h := Operand.parseBody_indexed token mode [] [] (by simp) index
      simpa [body, operandRead, hw, ha, hopen] using h
    · simpa [body, operandRead, hw, ha] using hindexed
  · by_cases hi : index = Register.zero
    · obtain ⟨minus, hsplit, hint⟩ := Operand.exists_splitMinus_ofInt address []
      have h := Operand.parseBody_ofNat token mode minus address.natAbs
      rw [← hint] at h
      simp only [List.append_nil] at hsplit
      simp [body, operandRead, hw, hi, hsplit, h]
    · by_cases ha : address = 0
      · simp [body, operandRead, hw, hi, ha, Operand.splitMinus_displayName,
          Operand.parseBody_displayName]
      · simpa [body, operandRead, hw, hi, ha] using hindexed

def isOperandChar (c : Char) : Bool := c.isDigit || ['-', '(', ')', 'R', 'S', 'F', 'P'].contains c

theorem isOperandChar_of_mem_body {written : Int} {index : Register} {address : Int} {c : Char}
    (h : c ∈ body written index address) : isOperandChar c = true := by
  have hall : ∀ r : Register, r.displayName.all isOperandChar = true := by decide
  have hname : c ∈ index.displayName → isOperandChar c = true := List.all_eq_true.mp (hall index) c
  have hint : c ∈ Text.ofInt address → isOperandChar c = true := by
    intro hc
    rcases Text.mem_ofInt hc with hdigit | rfl
    · simp [isOperandChar, hdigit]
    · rfl
  have hindexed : c ∈ '(' :: index.displayName ++ [')'] → isOperandChar c = true := by
    intro hc
    simp only [List.cons_append, List.mem_cons, List.mem_append, List.not_mem_nil, or_false] at hc
    rcases hc with rfl | hc | rfl
    · rfl
    · exact hname hc
    · rfl
  unfold body at h
  simp only at h
  split at h
  · split at h
    · exact hindexed h
    · exact (List.mem_append.mp h).elim hint hindexed
  · split at h
    · exact hint h
    · split at h
      · exact hname h
      · exact (List.mem_append.mp h).elim hint hindexed

theorem endsWord_of_isOperandChar {c : Char} (h : isOperandChar c = true) :
    Statement.endsWord c = false := by
  simp only [isOperandChar, List.contains_eq_mem, Bool.or_eq_true, decide_eq_true_eq, List.mem_cons,
    List.not_mem_nil, or_false] at h
  rcases h with h | rfl | rfl | rfl | rfl | rfl | rfl | rfl
  · have hsemicolon : c ≠ ';' := by
      rintro rfl
      exact absurd h (by decide)
    have hcomma : c ≠ ',' := by
      rintro rfl
      exact absurd h (by decide)
    simp [Statement.endsWord, Statement.isSeparator, Text.isBlank_of_isDigit h, hsemicolon, hcomma]
  all_goals decide

theorem body_ne_nil (written : Int) (index : Register) (address : Int) :
    body written index address ≠ [] := by
  have hname : ∀ r : Register, r.displayName ≠ [] := by decide
  have hint := Text.ofInt_ne_nil address
  unfold body
  simp only
  split
  · split <;> simp
  · split
    · exact hint
    · split
      · exact hname index
      · simp

/-- The word that a second operand is read as: a space in place of a sign is no part of it. -/
def operandWord (written : Int) (index : Register) (address : Int) : Text :=
  if written = 0 then body written index address else second written index address

theorem modeSign_of_ne {written : Int} (h : written ≠ 0) :
    modeSign written = '=' ∨ modeSign written = '@' ∨ modeSign written = '?' := by
  unfold modeSign
  rw [if_neg h]
  split
  · simp
  · split <;> simp

theorem mem_operandWord {written : Int} {index : Register} {address : Int} {c : Char}
    (h : c ∈ operandWord written index address) :
    Statement.endsWord c = false := by
  have hbody (hc : c ∈ body written index address) : Statement.endsWord c = false :=
    endsWord_of_isOperandChar (isOperandChar_of_mem_body hc)
  unfold operandWord at h
  split at h
  · exact hbody h
  · rename_i hw
    rcases List.mem_cons.mp h with rfl | h
    · rcases modeSign_of_ne hw with hsign | hsign | hsign <;> rw [hsign] <;> decide
    · exact hbody h

theorem operandWord_ne_nil (written : Int) (index : Register) (address : Int) :
    operandWord written index address ≠ [] := by
  unfold operandWord
  split
  · exact body_ne_nil written index address
  · simp [second_eq]

theorem mem_second {written : Int} {index : Register} {address : Int} {c : Char}
    (h : c ∈ second written index address) : c = ' ' ∨ c ∈ operandWord written index address := by
  by_cases hw : written = 0
  · subst hw
    exact List.mem_cons.mp h
  · rw [operandWord, if_neg hw]
    exact Or.inr h

theorem words_second (written : Int) (index : Register) (address : Int) :
    Statement.words (second written index address) = [operandWord written index address] := by
  have hword := Text.wordsBy_word (operandWord_ne_nil written index address)
    fun _ hc => (Statement.endsWord_eq_false (mem_operandWord hc)).1
  by_cases hw : written = 0
  · have hsign : modeSign written = ' ' := by rw [hw]; rfl
    rw [second_eq, hsign, Statement.words, Text.wordsBy_cons_sep _ (by decide), ← hword,
      operandWord, if_pos hw]
  · rw [Statement.words, ← hword, operandWord, if_neg hw]

theorem splitMode_operandWord {written : Int} (hlow : -1 ≤ written) (hhigh : written ≤ 2)
    (index : Register) (address : Int) :
    Operand.splitMode (operandWord written index address) =
      (min written 1, body written index address) := by
  have hcases : written = -1 ∨ written = 0 ∨ written = 1 ∨ written = 2 := by omega
  rcases hcases with rfl | rfl | rfl | rfl
  · rfl
  · obtain ⟨c, t, ht⟩ := List.exists_cons_of_ne_nil (body_ne_nil 0 index address)
    have hmem : c ∈ body 0 index address := by simp [ht]
    have hc := isOperandChar_of_mem_body hmem
    have hword : operandWord 0 index address = c :: t := ht
    rw [hword, ht, Operand.splitMode.eq_def]
    split
    · rename_i heq
      exact absurd ((List.cons.inj heq).1 ▸ hc) (by decide)
    · rename_i heq
      exact absurd ((List.cons.inj heq).1 ▸ hc) (by decide)
    · rfl
  · rfl
  · rfl

theorem parse_operandWord {written : Int} (hlow : -1 ≤ written) (hhigh : written ≤ 2)
    (index : Register) (address : Int) :
    Operand.parse (operandWord written index address) =
      .ok (operandRead (min written 1) written index address) := by
  simp only [Operand.parse, splitMode_operandWord hlow hhigh]
  exact parseBody_body _ _ written index address

end Listing

theorem SymbolTable.resolve_ofInt {n : Int} (h : -2 ^ 31 ≤ n ∧ n < 2 ^ 31) :
    SymbolTable.resolve [] (Text.ofInt n) = .ok n := by
  simp [SymbolTable.resolve, Text.ofInt_ne_nil, Literal.constant?_ofInt, Literal.integer_ofInt h,
    Table.find?]

namespace Listing

theorem resolve_operandRead (mode written : Int) (index : Register) {address : Int}
    (h : -2 ^ 31 ≤ address ∧ address < 2 ^ 31) :
    SymbolTable.resolve [] (operandRead mode written index address).address = .ok address := by
  simp only [operandRead]
  split
  · rename_i hzero
    rw [hzero.1]
    rfl
  · exact SymbolTable.resolve_ofInt h

theorem writtenMode_eq (mode : Int) (index : Register) (address defaultMode : Int) :
    writtenMode mode index.val address defaultMode =
      mode - defaultMode + if address = 0 ∧ index ≠ Register.zero then 1 else 0 := by
  have hindex : (index.val : Int) ≠ 0 ↔ index ≠ Register.zero := by
    rw [ne_eq, ne_eq, Fin.ext_iff, Int.natCast_eq_zero]
    rfl
  simp only [writtenMode, modeShift, hindex]
  split <;> omega

def listedOperand (i : Instruction) (f : Fields) : Text :=
  operandWord (writtenMode f.mode f.index.val f.address i.defaultMode) f.index f.address

/-- The second operand of a listed instruction gives the mode back, or the highest mode that can be
written. -/
theorem second_listedOperand {i : Instruction} (hi : i ∈ Instruction.all) {f : Fields}
    (hmode : 0 ≤ f.mode) (haddress : -2 ^ 31 ≤ f.address ∧ f.address < 2 ^ 31)
    (hwritten : writtenMode f.mode f.index.val f.address i.defaultMode ≤ 2) :
    i.second [] (listedOperand i f) =
      .ok (min f.mode (i.defaultMode + 1), f.index, f.address) := by
  have hdefault := Instruction.defaultMode_of_mem hi
  have hshift := writtenMode_eq f.mode f.index f.address i.defaultMode
  unfold listedOperand
  generalize writtenMode f.mode f.index.val f.address i.defaultMode = written at hshift hwritten ⊢
  have hlow : -1 ≤ written := by
    split at hshift <;> omega
  have hparse := parse_operandWord hlow hwritten f.index f.address
  have hresolve := resolve_operandRead (min written 1) written f.index haddress
  -- Written mode 2 stands for a mode one or two above the default, all others for themselves.
  have hstored : Instruction.storedMode i.defaultMode
      (operandRead (min written 1) written f.index f.address).mode =
      min f.mode (i.defaultMode + 1) := by
    simp only [Instruction.storedMode, operandRead]
    by_cases hbare : f.address = 0 ∧ f.index ≠ Register.zero
    · rw [if_pos hbare] at hshift
      by_cases htwo : written = 2
      · rw [if_neg (by simp [htwo])]
        omega
      · rw [if_pos ⟨htwo, hbare⟩]
        omega
    · rw [if_neg hbare] at hshift
      rw [if_neg fun h => hbare h.2]
      omega
  simp only [Instruction.second, List.isEmpty_iff, operandWord_ne_nil, if_false, hparse, hresolve,
    hstored]
  rfl

def operandWords (i : Instruction) (f : Fields) : List Text :=
  match i.format with
  | .bare => []
  | .first => [f.first.displayName]
  | .second => [listedOperand i f]
  | .both => [f.first.displayName, listedOperand i f]

theorem assign?_operandWords (i : Instruction) (f : Fields) :
    Instruction.assign? i.format (operandWords i f) =
      some (if i.format.hasFirst then f.first.displayName else ['R', '0'],
        if i.format.hasSecond then listedOperand i f else []) := by
  cases hf : i.format <;>
    simp [operandWords, hf, Instruction.assign?, Format.hasFirst, Format.hasSecond]

/-- The fields of a listed instruction are read back in their canonical form. -/
theorem encode_operandWords {i : Instruction} (hi : i ∈ Instruction.all) {f : Fields}
    (hmode : 0 ≤ f.mode) (haddress : -2 ^ 15 ≤ f.address ∧ f.address < 2 ^ 15)
    (hwritten : i.format.hasSecond = true →
      writtenMode f.mode f.index.val f.address i.defaultMode ≤ 2) (line : Int) :
    Statement.encode ⟨.code, i.name, operandWords i f, line, none, none⟩ [] =
      .ok (f.canonical i).toWord := by
  have hdefault := Instruction.defaultMode_of_mem hi
  have hassign := assign?_operandWords i f
  have hfirst : Register.parse (if i.format.hasFirst then f.first.displayName else ['R', '0']) =
      .ok (f.canonical i).first := by
    cases hf : i.format.hasFirst with
    | true => simp [Fields.canonical, hf, Register.parse_displayName]
    | false =>
      simp only [Fields.canonical, hf]
      rfl
  have hsecond : i.second [] (if i.format.hasSecond then listedOperand i f else []) =
      .ok ((f.canonical i).mode, (f.canonical i).index, (f.canonical i).address) := by
    cases hs : i.format.hasSecond with
    | true => simp [Fields.canonical, hs, second_listedOperand hi hmode (by omega) (hwritten hs)]
    | false =>
      simp only [Fields.canonical, hs]
      rfl
  have hrange : 0 ≤ (f.canonical i).mode ∧ (f.canonical i).mode ≤ 2 := by
    simp only [Fields.canonical]
    split <;> omega
  have hfits : -32768 ≤ (f.canonical i).address ∧ (f.canonical i).address ≤ 65535 := by
    simp only [Fields.canonical]
    split <;> omega
  exact Statement.encode_of_operands (Instruction.named?_name hi) hassign hfirst hsecond hrange
    (decide_eq_true hfits)

theorem words_render {i : Instruction} (hi : i ∈ Instruction.all) (f : Fields) :
    Statement.words (render i f) = i.name :: operandWords i f := by
  obtain ⟨hne, hlen, hname⟩ := Instruction.name_word hi
  obtain ⟨hfirst, hdisplay⟩ := Register.displayName_word f.first
  have hnameWord : ∀ c ∈ i.name, Statement.isSeparator c = false := fun c hc =>
    (Statement.endsWord_eq_false (hname c hc)).1
  have hfirstWord : ∀ c ∈ f.first.displayName, Statement.isSeparator c = false := fun c hc =>
    (Statement.endsWord_eq_false (hdisplay c hc)).1
  have hspace : Statement.isSeparator ' ' = true := by decide
  have hcomma : Statement.isSeparator ',' = true := by decide
  have hpadded (t : Text) : Statement.words (padded i.name ++ t) = i.name :: Statement.words t := by
    obtain ⟨k, hk⟩ : ∃ k, 6 - i.name.length = k + 1 := ⟨5 - i.name.length, by omega⟩
    rw [padded, hk, List.replicate_succ, List.append_assoc, List.cons_append, Statement.words,
      Text.wordsBy_word_append _ hne hnameWord hspace,
      Text.wordsBy_replicate_append k t hspace]
    rfl
  unfold render operandWords
  cases hf : i.format with
  | bare => exact Text.wordsBy_word hne hnameWord
  | first =>
    simp only [hpadded]
    rw [Statement.words, Text.wordsBy_word hfirst hfirstWord]
  | second => simp only [hpadded, words_second, listedOperand]
  | both =>
    simp only [List.append_assoc, hpadded]
    rw [Statement.words, Text.wordsBy_word_append _ hfirst hfirstWord hcomma,
      Text.wordsBy_cons_sep _ hspace]
    exact congrArg (fun ws => i.name :: f.first.displayName :: ws) (words_second _ _ _)

theorem render_ne_nil {i : Instruction} (hi : i ∈ Instruction.all) (f : Fields) :
    render i f ≠ [] := by
  intro hnil
  have hwords := words_render hi f
  rw [hnil] at hwords
  cases hwords

theorem mem_render {i : Instruction} (hi : i ∈ Instruction.all) {f : Fields} {c : Char}
    (h : c ∈ render i f) : c ≠ ';' ∧ Text.isBreak c = false := by
  have hspace : ' ' ≠ ';' ∧ Text.isBreak ' ' = false := by decide
  have hword (hc : Statement.endsWord c = false) : c ≠ ';' ∧ Text.isBreak c = false := by
    have hends := Statement.endsWord_eq_false hc
    exact ⟨hends.2, Text.isBreak_of_not_isBlank (Statement.isBlank_of_isSeparator hends.1)⟩
  have hname (hc : c ∈ i.name) := hword ((Instruction.name_word hi).2.2 c hc)
  have hfirst (hc : c ∈ f.first.displayName) := hword ((Register.displayName_word f.first).2 c hc)
  have hpadded (hc : c ∈ padded i.name) : c ≠ ';' ∧ Text.isBreak c = false := by
    rcases List.mem_append.mp hc with hc | hc
    · exact hname hc
    · rw [(List.mem_replicate.mp hc).2]
      exact hspace
  have hsecond {written : Int} (hc : c ∈ second written f.index f.address) :
      c ≠ ';' ∧ Text.isBreak c = false := by
    rcases mem_second hc with rfl | hc
    · exact hspace
    · exact hword (mem_operandWord hc)
  unfold render at h
  cases hf : i.format <;> simp only [hf, List.append_assoc, List.mem_append, List.mem_cons] at h
  case bare => exact hname h
  case first => exact h.elim hpadded hfirst
  case second => exact h.elim hpadded hsecond
  case both =>
    rcases h with h | h | rfl | rfl | h
    · exact hpadded h
    · exact hfirst h
    · decide
    · exact hspace
    · exact hsecond h

theorem ofLine_render {i : Instruction} (hi : i ∈ Instruction.all) (f : Fields) (line : Int) :
    Statement.ofLine line (render i f) =
      .ok (some ⟨.code, i.name, operandWords i f, line, none, none⟩) := by
  have hupper := Instruction.upper_name hi
  have hkind : WordKind.ofWord i.name = .code := by
    simp [WordKind.ofWord, hupper, Instruction.named?_name hi]
  have hcut : Text.cut ';' (render i f) = (render i f, none) :=
    Text.cut_of_not_mem fun h => (mem_render hi h).1 rfl
  simp [Statement.ofLine, hcut, words_render hi, hkind, Statement.ofKeyword, hupper, Except.map]

theorem instruction_of_found {word : Int} {i : Instruction}
    (h : Instruction.ofOpcode? (Fields.ofWord word).opcode = some i) :
    i ∈ Instruction.all ∧ (i.opcode : Int) = (Fields.ofWord word).opcode ∧
      instruction lenient word = render i (Fields.ofWord word) := by
  refine ⟨List.mem_of_find?_eq_some h, ?_, ?_⟩
  · simpa using List.find?_some h
  · simp [instruction, lenient, h]

end Listing
end Ttk91
