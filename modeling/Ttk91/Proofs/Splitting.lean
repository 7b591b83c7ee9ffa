import Ttk91.Text.Basic

/-! Words and lines of texts that are put together from parts, and what the characters of a word
or of a line can be. -/

namespace Ttk91.Text

/-- What a cut leaves: the separator stood between the two parts and not in the first one. -/
theorem cut_eq_some {c : Char} {t a b : Text} (h : cut c t = (a, some b)) :
    t = a ++ c :: b ∧ c ∉ a := by
  induction t generalizing a with
  | nil => simp [cut] at h
  | cons d t ih =>
    by_cases hd : d = c
    · simp only [cut, hd, if_true, Prod.mk.injEq, Option.some.injEq] at h
      obtain ⟨rfl, rfl⟩ := h
      simp [hd]
    · simp only [cut, hd, if_false, Prod.mk.injEq] at h
      obtain ⟨rfl, hb⟩ := h
      obtain ⟨ht, hc⟩ := ih (Prod.ext rfl hb)
      exact ⟨by rw [List.cons_append, ← ht], by simp [hc, Ne.symm hd]⟩

theorem not_mem_of_cut {c : Char} {t a : Text} (h : cut c t = (a, none)) : c ∉ t := by
  induction t generalizing a with
  | nil => simp
  | cons d t ih =>
    by_cases hd : d = c
    · simp [cut, hd] at h
    · simp only [cut, hd, if_false, Prod.mk.injEq] at h
      have hrest := ih (Prod.ext rfl h.2)
      simp [hrest, Ne.symm hd]

theorem length_cut_le (c : Char) (t : Text) : (cut c t).1.length ≤ t.length := by
  fun_induction cut c t with
  | case1 => simp
  | case2 t => simp
  | case3 d t hd ih => simpa using ih

/-- Evaluating a test on a concrete text settles it for the text's characters. -/
theorem eq_false_of_all {p : Char → Bool} {t : Text} (h : t.all (fun c => !p c) = true) :
    ∀ c ∈ t, p c = false := by
  simpa using h

theorem pieces_ne_nil (sep : Char → Bool) (t : Text) : pieces sep t ≠ [] := by
  cases t with
  | nil => simp [pieces]
  | cons c t =>
    rw [pieces]
    split
    · simp
    · split <;> simp

theorem pieces_append_cons {sep : Char → Bool} {c : Char} (a b : Text) (hc : sep c = true) :
    pieces sep (a ++ c :: b) = pieces sep a ++ pieces sep b := by
  induction a with
  | nil => simp [pieces, hc]
  | cons d a ih =>
    cases hd : sep d with
    | true => simp [pieces, hd, ih]
    | false =>
      obtain ⟨p, ps, hp⟩ := List.exists_cons_of_ne_nil (pieces_ne_nil sep a)
      simp [pieces, hd, ih, hp]

theorem mem_piece {sep : Char → Bool} {t p : Text} (hp : p ∈ pieces sep t) {c : Char}
    (hc : c ∈ p) : sep c = false ∧ c ∈ t := by
  induction t generalizing p with
  | nil =>
    obtain rfl : p = [] := by simpa [pieces] using hp
    cases hc
  | cons d t ih =>
    cases hd : sep d with
    | true =>
      simp only [pieces, hd, if_true, List.mem_cons] at hp
      rcases hp with rfl | hp
      · cases hc
      · exact ⟨(ih hp hc).1, List.mem_cons_of_mem d (ih hp hc).2⟩
    | false =>
      obtain ⟨q, qs, hq⟩ := List.exists_cons_of_ne_nil (pieces_ne_nil sep t)
      have hcons : pieces sep (d :: t) = (d :: q) :: qs := by simp [pieces, hd, hq]
      rw [hcons] at hp
      rcases List.mem_cons.mp hp with rfl | hp
      · rcases List.mem_cons.mp hc with rfl | hc
        · exact ⟨hd, List.mem_cons_self⟩
        · have h := ih (p := q) (by simp [hq]) hc
          exact ⟨h.1, List.mem_cons_of_mem d h.2⟩
      · have h := ih (p := p) (by simp [hq, hp]) hc
        exact ⟨h.1, List.mem_cons_of_mem d h.2⟩

/-! Words. -/

theorem length_wordsBy_le (sep : Char → Bool) (t : Text) :
    (wordsBy sep t).length ≤ t.length + 1 := by
  have hpieces : (pieces sep t).length ≤ t.length + 1 := by
    fun_induction pieces sep t with
    | case1 => simp
    | case2 d t hd ih => simpa using ih
    | case3 d t hd hnil ih => simp
    | case4 d t hd p ps hp ih =>
      rw [hp] at ih
      exact Nat.le_succ_of_le ih
  exact Nat.le_trans (List.length_filter_le _ _) hpieces

@[simp] theorem wordsBy_nil (sep : Char → Bool) : wordsBy sep [] = [] := rfl

/-- A separator ends a word; all other facts about words follow from this one. -/
theorem wordsBy_append_cons {sep : Char → Bool} {c : Char} (a b : Text) (hc : sep c = true) :
    wordsBy sep (a ++ c :: b) = wordsBy sep a ++ wordsBy sep b := by
  rw [wordsBy, pieces_append_cons a b hc, List.filter_append, wordsBy, wordsBy]

theorem wordsBy_cons_sep {sep : Char → Bool} {c : Char} (t : Text) (hc : sep c = true) :
    wordsBy sep (c :: t) = wordsBy sep t := by
  simpa using wordsBy_append_cons [] t hc

theorem wordsBy_word {sep : Char → Bool} {w : Text} (hne : w ≠ [])
    (hw : ∀ c ∈ w, sep c = false) : wordsBy sep w = [w] := by
  rw [wordsBy, pieces_of_all_not hw]
  simp [hne]

theorem wordsBy_word_append {sep : Char → Bool} {c : Char} {w : Text} (t : Text) (hne : w ≠ [])
    (hw : ∀ d ∈ w, sep d = false) (hc : sep c = true) :
    wordsBy sep (w ++ c :: t) = w :: wordsBy sep t := by
  rw [wordsBy_append_cons w t hc, wordsBy_word hne hw, List.singleton_append]

theorem wordsBy_replicate_append {sep : Char → Bool} {c : Char} (n : Nat) (t : Text)
    (hc : sep c = true) : wordsBy sep (List.replicate n c ++ t) = wordsBy sep t := by
  induction n with
  | zero => rfl
  | succ n ih => rw [List.replicate_succ, List.cons_append, wordsBy_cons_sep _ hc, ih]

theorem ne_nil_of_mem_wordsBy {sep : Char → Bool} {t w : Text} (hw : w ∈ wordsBy sep t) :
    w ≠ [] := by
  have h := (List.mem_filter.mp hw).2
  simpa using h

theorem mem_word {sep : Char → Bool} {t w : Text} (hw : w ∈ wordsBy sep t) {c : Char}
    (hc : c ∈ w) : sep c = false ∧ c ∈ t :=
  mem_piece (List.mem_filter.mp hw).1 hc

/-! Lines. -/

theorem lines_nil : lines [] = [] := by rw [lines.eq_def]

theorem lines_line {l : Text} (hne : l ≠ []) (hl : ∀ c ∈ l, isBreak c = false) :
    lines l = [l] := by
  induction l with
  | nil => exact absurd rfl hne
  | cons c l ih =>
    rw [lines_cons_of_not_break l (hl c List.mem_cons_self)]
    cases l with
    | nil => rw [lines_nil]
    | cons d l => rw [ih (by simp) fun e he => hl e (List.mem_cons_of_mem c he)]

/-- Texts without breaks are also the lines of what they make up with line feeds between them, as
long as the last one does not vanish. -/
theorem lines_join {ls : List Text} (hne : ∀ l ∈ ls, l ≠ [])
    (hl : ∀ l ∈ ls, ∀ c ∈ l, isBreak c = false) : lines (join ['\n'] ls) = ls := by
  induction ls with
  | nil => exact lines_nil
  | cons l ls ih =>
    cases ls with
    | nil => exact lines_line (hne l (by simp)) (hl l (by simp))
    | cons m ls =>
      have hrest := ih (fun k hk => hne k (by simp [hk])) (fun k hk => hl k (by simp [hk]))
      rw [join, List.append_assoc, List.singleton_append, lines_append_newline _ (hl l (by simp)),
        hrest]

theorem isBreak_of_mem_line {t l : Text} (hl : l ∈ lines t) {c : Char} (hc : c ∈ l) :
    isBreak c = false := by
  fun_induction lines t generalizing l with
  | case1 => cases hl
  | case2 t ih =>
    rcases List.mem_cons.mp hl with rfl | hl
    · cases hc
    · exact ih hl hc
  | case3 d t _ hd ih =>
    rcases List.mem_cons.mp hl with rfl | hl
    · cases hc
    · exact ih hl hc
  | case4 d t _ hd hnil ih =>
    obtain rfl : l = [d] := by simpa using hl
    obtain rfl : c = d := by simpa using hc
    simpa using hd
  | case5 d t _ hd m ms hm ih =>
    rcases List.mem_cons.mp hl with rfl | hl
    · rcases List.mem_cons.mp hc with rfl | hc
      · simpa using hd
      · exact ih (by simp [hm]) hc
    · exact ih (by simp [hm, hl]) hc

theorem length_le_of_mem_lines {t l : Text} (hl : l ∈ lines t) : l.length ≤ t.length := by
  fun_induction lines t generalizing l with
  | case1 => cases hl
  | case2 t ih =>
    rcases List.mem_cons.mp hl with rfl | hl
    · simp
    · exact Nat.le_succ_of_le (Nat.le_succ_of_le (ih hl))
  | case3 d t _ hd ih =>
    rcases List.mem_cons.mp hl with rfl | hl
    · simp
    · exact Nat.le_succ_of_le (ih hl)
  | case4 d t _ hd hnil ih =>
    obtain rfl : l = [d] := by simpa using hl
    simp
  | case5 d t _ hd m ms hm ih =>
    rcases List.mem_cons.mp hl with rfl | hl
    · exact Nat.succ_le_succ (ih (by simp [hm]))
    · exact Nat.le_succ_of_le (ih (by simp [hm, hl]))

theorem length_lines_le (t : Text) : (lines t).length ≤ t.length := by
  fun_induction lines t with
  | case1 => simp
  | case2 t ih => simp only [List.length_cons]; omega
  | case3 d t _ hd ih => simp only [List.length_cons]; omega
  | case4 d t _ hd hnil ih => simp
  | case5 d t _ hd m ms hm ih =>
    rw [hm] at ih
    simp only [List.length_cons] at ih ⊢
    omega

end Ttk91.Text
