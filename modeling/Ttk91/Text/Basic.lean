/-! Texts as character lists: cutting at a character, white space, words and lines. -/

namespace Ttk91

/-- A text is the list of its characters; every rule of this library recurses on it. -/
abbrev Text := List Char

namespace Text

def inRanges (ranges : List (Nat × Nat)) (c : Char) : Bool :=
  ranges.any fun r => r.1 ≤ c.toNat && c.toNat ≤ r.2

/-- Cut at the first `c`: what stands before it, and what follows it when there is one. -/
def cut (c : Char) : Text → Text × Option Text
  | [] => ([], none)
  | d :: t => if d = c then ([], some t) else (d :: (cut c t).1, (cut c t).2)

theorem cut_of_not_mem {c : Char} {t : Text} (h : c ∉ t) : cut c t = (t, none) := by
  induction t with
  | nil => rfl
  | cons d t ih =>
    simp only [List.mem_cons, not_or] at h
    simp [cut, Ne.symm h.1, ih h.2]

theorem cut_append {c : Char} {a : Text} (b : Text) (h : c ∉ a) :
    cut c (a ++ c :: b) = (a, some b) := by
  induction a with
  | nil => simp [cut]
  | cons d a ih =>
    simp only [List.mem_cons, not_or] at h
    simp [cut, Ne.symm h.1, ih h.2]

def join (glue : Text) : List Text → Text
  | [] => []
  | [t] => t
  | t :: u :: ts => t ++ glue ++ join glue (u :: ts)

/-! White space. -/

def blankRanges : List (Nat × Nat) :=
  [(0x09, 0x0D), (0x1C, 0x20), (0x85, 0x85), (0xA0, 0xA0), (0x1680, 0x1680), (0x2000, 0x200A),
   (0x2028, 0x2029), (0x202F, 0x202F), (0x205F, 0x205F), (0x3000, 0x3000)]

def isBlank (c : Char) : Bool := inRanges blankRanges c

def trimBy (p : Char → Bool) (t : Text) : Text :=
  ((t.dropWhile p).reverse.dropWhile p).reverse

theorem trimBy_of_all_not {p : Char → Bool} {t : Text} (h : ∀ c ∈ t, p c = false) :
    trimBy p t = t := by
  have drop (u : Text) (hu : ∀ c ∈ u, p c = false) : u.dropWhile p = u := by
    cases u with
    | nil => rfl
    | cons c u => simp [hu c (by simp)]
  rw [trimBy, drop t h, drop t.reverse (by simpa using h), List.reverse_reverse]

def trim (t : Text) : Text := trimBy isBlank t

/-! Words between separators. -/

/-- The parts between separators, empty ones included. -/
def pieces (sep : Char → Bool) : Text → List Text
  | [] => [[]]
  | c :: t =>
    if sep c then [] :: pieces sep t
    else match pieces sep t with
      | [] => [[c]]
      | p :: ps => (c :: p) :: ps

theorem pieces_of_all_not {sep : Char → Bool} {t : Text} (h : ∀ c ∈ t, sep c = false) :
    pieces sep t = [t] := by
  induction t with
  | nil => rfl
  | cons c t ih => simp [pieces, h c (by simp), ih fun d hd => h d (by simp [hd])]

/-- The maximal runs of characters that are no separators. -/
def wordsBy (sep : Char → Bool) (t : Text) : List Text :=
  (pieces sep t).filter fun w => !w.isEmpty

def words (t : Text) : List Text := wordsBy isBlank t

/-! Lines. A carriage return followed by a line feed ends one line, and a break at the very end
opens no further line. -/

def breakRanges : List (Nat × Nat) :=
  [(0x0A, 0x0D), (0x1C, 0x1E), (0x85, 0x85), (0x2028, 0x2029)]

def isBreak (c : Char) : Bool := inRanges breakRanges c

theorem isBlank_of_isBreak {c : Char} (h : isBreak c = true) : isBlank c = true := by
  simp only [isBreak, isBlank, inRanges, breakRanges, blankRanges, List.any_cons, List.any_nil,
    Bool.or_false, Bool.or_eq_true, Bool.and_eq_true, decide_eq_true_eq] at h ⊢
  omega

def lines : Text → List Text
  | [] => []
  | '\r' :: '\n' :: t => [] :: lines t
  | c :: t =>
    if isBreak c then [] :: lines t
    else match lines t with
      | [] => [[c]]
      | l :: ls => (c :: l) :: ls

def unlines : List Text → Text
  | [] => []
  | l :: ls => l ++ '\n' :: unlines ls

theorem lines_cons_of_not_break {c : Char} (t : Text) (h : isBreak c = false) :
    lines (c :: t) = match lines t with
      | [] => [[c]]
      | l :: ls => (c :: l) :: ls := by
  rw [lines.eq_def]
  split
  · contradiction
  · rename_i heq
    obtain ⟨rfl, -⟩ := List.cons.inj heq
    exact absurd h (by decide)
  · rename_i heq
    obtain ⟨rfl, rfl⟩ := List.cons.inj heq
    simp [h]

theorem lines_append_newline {l : Text} (t : Text) (h : ∀ c ∈ l, isBreak c = false) :
    lines (l ++ '\n' :: t) = l :: lines t := by
  induction l with
  | nil => rw [List.nil_append, lines.eq_def]; rfl
  | cons c l ih =>
    rw [List.cons_append, lines_cons_of_not_break _ (h c (by simp)),
      ih fun d hd => h d (by simp [hd])]

theorem lines_unlines {ls : List Text} (h : ∀ l ∈ ls, ∀ c ∈ l, isBreak c = false) :
    lines (unlines ls) = ls := by
  induction ls with
  | nil => rfl
  | cons l ls ih =>
    rw [unlines, lines_append_newline _ (h l (by simp)), ih fun m hm => h m (by simp [hm])]

end Text
end Ttk91
