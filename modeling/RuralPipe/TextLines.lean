/-
Texts and their lines, the way a text mode reads them.

Reading turns each of the line ends `\n`, `\r\n` and `\r` into `\n`
(`universalNewlines`), and gives the lines with their ends, the last one possibly
without (`readLines`). So a text as it is read is some terminated lines and a
rest, and conversely (`exists_joinLines`, `readLines_joinLines`).
-/
import Mathlib.Data.List.Infix

namespace TextLines

abbrev Text := List Char

/-- What is read of a text, after a return or not. -/
def decodeNewlines : (afterReturn : Bool) → Text → Text
  | _, [] => []
  | afterReturn, c :: t =>
    if c = '\r' then '\n' :: decodeNewlines true t
    else if c = '\n' ∧ afterReturn = true then decodeNewlines false t
    else c :: decodeNewlines false t

def universalNewlines (t : Text) : Text := decodeNewlines false t

def readLines : Text → List Text
  | [] => []
  | c :: t =>
    if c = '\n' then [c] :: readLines t
    else match readLines t with
      | [] => [[c]]
      | l :: ls => (c :: l) :: ls

/-- A line without its end. -/
def lineBody (l : Text) : Text := l.takeWhile (· ≠ '\n')

/-- The lines of a file with this content, without their ends. -/
def textLines (t : Text) : List Text := (readLines (universalNewlines t)).map lineBody

/-- No line ends in it. -/
def Plain (t : Text) : Prop := '\n' ∉ t ∧ '\r' ∉ t

instance (t : Text) : Decidable (Plain t) := inferInstanceAs (Decidable (_ ∧ _))

/-- A last line without an end. -/
def unterminated (rest : Text) : List Text := if rest = [] then [] else [rest]

def joinLines (lines : List Text) (rest : Text) : Text := (lines.map (· ++ ['\n'])).flatten ++ rest

/-! ## Line ends -/

section
variable {t a b : Text} {c : Char} {afterReturn : Bool}

/-- Without returns a text is read as it is. -/
theorem decodeNewlines_append (h : '\r' ∉ a) (b : Text) :
    decodeNewlines false (a ++ b) = a ++ decodeNewlines false b := by
  induction a with
  | nil => rfl
  | cons c a ih =>
    rw [List.mem_cons, not_or] at h
    simp only [List.cons_append, decodeNewlines, Bool.false_eq_true, and_false, if_false, if_neg (Ne.symm h.1), ih h.2]

theorem universalNewlines_append (h : '\r' ∉ a) (b : Text) : universalNewlines (a ++ b) = a ++ universalNewlines b :=
  decodeNewlines_append h b

theorem universalNewlines_eq (h : '\r' ∉ t) : universalNewlines t = t := by
  have := universalNewlines_append h []
  rwa [List.append_nil, show universalNewlines [] = [] from rfl, List.append_nil] at this

theorem return_not_mem_decode (afterReturn : Bool) (t : Text) : '\r' ∉ decodeNewlines afterReturn t := by
  induction t generalizing afterReturn with
  | nil => exact List.not_mem_nil
  | cons c t ih =>
    simp only [decodeNewlines]
    split
    · rw [List.mem_cons, not_or]
      exact ⟨by decide, ih true⟩
    · rename_i hc
      split
      · exact ih false
      · rw [List.mem_cons, not_or]
        exact ⟨Ne.symm hc, ih false⟩

theorem return_not_mem (t : Text) : '\r' ∉ universalNewlines t := return_not_mem_decode false t

/-- After a newline reading begins anew. -/
theorem decodeNewlines_newline (afterReturn : Bool) (a b : Text) :
    decodeNewlines afterReturn (a ++ '\n' :: b) =
      decodeNewlines afterReturn (a ++ ['\n']) ++ decodeNewlines false b := by
  induction a generalizing afterReturn with
  | nil => cases afterReturn <;> rfl
  | cons c a ih =>
    simp only [List.cons_append, decodeNewlines]
    split
    · rw [ih, List.cons_append]
    · split
      · rw [ih]
      · rw [ih, List.cons_append]

theorem universalNewlines_newline (a b : Text) :
    universalNewlines (a ++ '\n' :: b) = universalNewlines (a ++ ['\n']) ++ universalNewlines b :=
  decodeNewlines_newline false a b

theorem universalNewlines_ne_nil (h : t ≠ []) : universalNewlines t ≠ [] := by
  cases t with
  | nil => exact absurd rfl h
  | cons c t =>
    simp only [universalNewlines, decodeNewlines, Bool.false_eq_true, and_false, if_false]
    split <;> exact List.cons_ne_nil _ _

end

/-! ## Lines -/

section
variable {t l rest : Text} {lines : List Text}

theorem flatten_readLines (t : Text) : (readLines t).flatten = t := by
  induction t with
  | nil => rfl
  | cons c t ih =>
    simp only [readLines]
    split
    · rw [List.flatten_cons, ih, List.singleton_append]
    · split
      · rename_i h
        rw [h] at ih
        rw [← ih]
        rfl
      · rename_i l ls h
        rw [h, List.flatten_cons] at ih
        rw [List.flatten_cons, List.cons_append, ih]

theorem not_mem_line {c : Char} (ht : c ∉ t) (h : l ∈ readLines t) : c ∉ l := fun hc => by
  refine ht ?_
  rw [← flatten_readLines t]
  exact List.mem_flatten.2 ⟨l, h, hc⟩

theorem return_not_mem_line (h : l ∈ readLines (universalNewlines t)) : '\r' ∉ l := not_mem_line (return_not_mem t) h

/-- A terminated line is read first. -/
theorem readLines_line (hl : '\n' ∉ l) (t : Text) : readLines (l ++ '\n' :: t) = (l ++ ['\n']) :: readLines t := by
  induction l with
  | nil => rfl
  | cons c l ih =>
    rw [List.mem_cons, not_or] at hl
    simp only [List.cons_append, readLines, if_neg (Ne.symm hl.1), ih hl.2]

theorem readLines_rest (h : '\n' ∉ rest) : readLines rest = unterminated rest := by
  induction rest with
  | nil => rfl
  | cons c t ih =>
    rw [List.mem_cons, not_or] at h
    simp only [readLines, if_neg (Ne.symm h.1), ih h.2]
    cases t <;> rfl

/-- What comes behind a text may only lengthen its first line. -/
theorem readLines_append {ls : List Text} {s : Text} (h : readLines s = l :: ls) (t : Text) :
    ∃ r ls', readLines (s ++ t) = (l ++ r) :: ls' := by
  induction s generalizing l ls with
  | nil => cases h
  | cons c s ih =>
    rw [List.cons_append, readLines]
    rw [readLines] at h
    by_cases hc : c = '\n'
    · rw [if_pos hc, List.cons.injEq] at h
      rw [if_pos hc, ← h.1]
      exact ⟨[], _, rfl⟩
    · rw [if_neg hc] at h ⊢
      cases hs : readLines s with
      | nil =>
        rw [hs, List.cons.injEq] at h
        have hnil : s = [] := by rw [← flatten_readLines s, hs]; rfl
        rw [hnil, List.nil_append, ← h.1]
        cases readLines t with
        | nil => exact ⟨[], _, rfl⟩
        | cons m ms => exact ⟨m, ms, rfl⟩
      | cons m ms =>
        rw [hs, List.cons.injEq] at h
        obtain ⟨r, ls', hr⟩ := ih hs
        rw [hr, ← h.1]
        exact ⟨r, ls', rfl⟩

/-- A line behind a rest is on one line with it. -/
theorem readLines_rest_append (hr : '\n' ∉ rest) (hl : readLines l = [l]) : readLines (rest ++ l) = [rest ++ l] := by
  induction rest with
  | nil => exact hl
  | cons c rest ih =>
    rw [List.mem_cons, not_or] at hr
    rw [List.cons_append, readLines, if_neg (Ne.symm hr.1), ih hr.2]

theorem joinLines_cons (l : Text) (lines : List Text) (rest : Text) :
    joinLines (l :: lines) rest = l ++ '\n' :: joinLines lines rest := by
  simp [joinLines]

theorem joinLines_append (lines₁ lines₂ : List Text) (rest : Text) :
    joinLines (lines₁ ++ lines₂) rest = joinLines lines₁ [] ++ joinLines lines₂ rest := by
  simp [joinLines]

theorem joinLines_nil_append (lines : List Text) (rest : Text) : joinLines lines [] ++ rest = joinLines lines rest := by
  simp [joinLines]

theorem joinLines_concat (lines : List Text) (l : Text) :
    joinLines lines [] ++ (l ++ ['\n']) = joinLines (lines ++ [l]) [] := by
  simp [joinLines]

theorem readLines_lines (hl : ∀ l ∈ lines, '\n' ∉ l) (t : Text) :
    readLines (joinLines lines t) = lines.map (· ++ ['\n']) ++ readLines t := by
  induction lines with
  | nil => rfl
  | cons l lines ih =>
    rw [joinLines_cons, readLines_line (hl l (List.mem_cons_self ..)), ih fun l h => hl l (List.mem_cons_of_mem _ h)]
    rfl

/-- The lines of a joined text are those it was joined from. -/
theorem readLines_joinLines (hl : ∀ l ∈ lines, '\n' ∉ l) (hr : '\n' ∉ rest) :
    readLines (joinLines lines rest) = lines.map (· ++ ['\n']) ++ unterminated rest := by
  rw [readLines_lines hl, readLines_rest hr]

/-- And every text is joined from lines. -/
theorem exists_joinLines (t : Text) :
    ∃ lines rest, (∀ l ∈ lines, '\n' ∉ l) ∧ '\n' ∉ rest ∧ t = joinLines lines rest := by
  induction t with
  | nil => exact ⟨[], [], by simp, by simp, rfl⟩
  | cons c t ih =>
    obtain ⟨lines, rest, hl, hr, rfl⟩ := ih
    by_cases hc : c = '\n'
    · refine ⟨[] :: lines, rest, ?_, hr, by rw [joinLines_cons, hc, List.nil_append]⟩
      intro l h
      rcases List.mem_cons.1 h with rfl | h
      · exact List.not_mem_nil
      · exact hl l h
    · cases lines with
      | nil => exact ⟨[], c :: rest, by simp, by simp [hr, Ne.symm hc], rfl⟩
      | cons l lines =>
        refine ⟨(c :: l) :: lines, rest, ?_, hr, by rw [joinLines_cons, joinLines_cons, List.cons_append]⟩
        intro l' h
        rcases List.mem_cons.1 h with rfl | h
        · rw [List.mem_cons, not_or]
          exact ⟨Ne.symm hc, hl l (List.mem_cons_self ..)⟩
        · exact hl l' (List.mem_cons_of_mem _ h)

/-! ## Plain lines -/

theorem lineBody_line (h : '\n' ∉ l) : lineBody (l ++ ['\n']) = l := by
  induction l with
  | nil => rfl
  | cons c l ih =>
    rw [List.mem_cons, not_or] at h
    rw [List.cons_append, lineBody, List.takeWhile_cons_of_pos (by simpa using Ne.symm h.1)]
    exact congrArg (c :: ·) (ih h.2)

theorem lineBody_rest (h : '\n' ∉ l) : lineBody l = l := by
  induction l with
  | nil => rfl
  | cons c l ih =>
    rw [List.mem_cons, not_or] at h
    rw [lineBody, List.takeWhile_cons_of_pos (by simpa using Ne.symm h.1)]
    exact congrArg (c :: ·) (ih h.2)

theorem return_not_mem_joinLines (hl : ∀ l ∈ lines, Plain l) (hr : Plain rest) : '\r' ∉ joinLines lines rest := by
  intro h
  rcases List.mem_append.1 h with h | h
  · obtain ⟨l', hl', h⟩ := List.mem_flatten.1 h
    obtain ⟨l, hmem, rfl⟩ := List.mem_map.1 hl'
    rcases List.mem_append.1 h with h | h
    · exact (hl l hmem).2 h
    · simp at h
  · exact hr.2 h

/-- A content joined from plain lines has these lines. -/
theorem textLines_joinLines (hl : ∀ l ∈ lines, Plain l) (hr : Plain rest) :
    textLines (joinLines lines rest) = lines ++ unterminated rest := by
  rw [textLines, universalNewlines_eq (return_not_mem_joinLines hl hr),
    readLines_joinLines (fun l h => (hl l h).1) hr.1, List.map_append, List.map_map]
  have hbody : ∀ l ∈ lines, (lineBody ∘ (· ++ ['\n'])) l = l := fun l h => lineBody_line (hl l h).1
  congr 1
  · rw [List.map_congr_left hbody, List.map_id']
  · unfold unterminated
    split
    · rfl
    · rw [List.map_singleton, lineBody_rest hr.1]

/-- Every content is read as joined plain lines. -/
theorem exists_plain (t : Text) :
    ∃ lines rest, (∀ l ∈ lines, Plain l) ∧ Plain rest ∧ universalNewlines t = joinLines lines rest := by
  obtain ⟨lines, rest, hl, hr, ht⟩ := exists_joinLines (universalNewlines t)
  have hret := return_not_mem t
  rw [ht] at hret
  refine ⟨lines, rest, fun l h => ⟨hl l h, fun hc => hret ?_⟩, ⟨hr, fun hc => hret ?_⟩, ht⟩
  · exact List.mem_append_left _ (List.mem_flatten.2 ⟨_, List.mem_map_of_mem h, List.mem_append_left _ hc⟩)
  · exact List.mem_append_right _ hc

theorem textLines_of_read {content : Text} (hl : ∀ l ∈ lines, Plain l) (hr : Plain rest)
    (h : universalNewlines content = joinLines lines rest) : textLines content = lines ++ unterminated rest := by
  rw [← textLines_joinLines hl hr, textLines, textLines, universalNewlines_eq (return_not_mem_joinLines hl hr), h]

theorem exists_cons_of_read {content : Text} (hl : ∀ l ∈ lines, '\n' ∉ l) (hr : '\n' ∉ rest)
    (h : universalNewlines content = joinLines lines rest) (hne : lines ++ unterminated rest ≠ []) :
    ∃ l ls, readLines (universalNewlines content) = l :: ls ∧
      lines.map (· ++ ['\n']) ++ unterminated rest = l :: ls := by
  have hread : readLines (universalNewlines content) = lines.map (· ++ ['\n']) ++ unterminated rest := by
    rw [h, readLines_joinLines hl hr]
  cases hcons : lines.map (· ++ ['\n']) ++ unterminated rest with
  | nil =>
    rw [List.append_eq_nil_iff, List.map_eq_nil_iff] at hcons
    exact absurd (by rw [hcons.1, hcons.2]; rfl) hne
  | cons l ls => exact ⟨l, ls, hread.trans hcons, rfl⟩

theorem unterminated_of_ne (h : rest ≠ []) : unterminated rest = [rest] := if_neg h

theorem plain_nil : Plain [] := ⟨List.not_mem_nil, List.not_mem_nil⟩

theorem plain_append {a b : Text} (ha : Plain a) (hb : Plain b) : Plain (a ++ b) :=
  ⟨fun hc => (List.mem_append.1 hc).elim ha.1 hb.1, fun hc => (List.mem_append.1 hc).elim ha.2 hb.2⟩

theorem mem_unterminated : t ∈ unterminated rest ↔ t = rest ∧ rest ≠ [] := by
  unfold unterminated
  by_cases h : rest = []
  · simp [h]
  · simp [h]

theorem exists_readLines {content : Text} (h : t ∈ textLines content) :
    ∃ l ls, readLines (universalNewlines content) = l :: ls := by
  obtain ⟨l, hl, -⟩ := List.mem_map.1 h
  exact List.exists_cons_of_ne_nil (List.ne_nil_of_mem hl)

/-- A content that has `t` as a line has no line end in `t`. -/
theorem plain_of_mem_textLines {content : Text} (h : t ∈ textLines content) : Plain t := by
  obtain ⟨lines, rest, hl, hr, ht⟩ := exists_plain content
  rw [textLines_of_read hl hr ht] at h
  rcases List.mem_append.1 h with h | h
  · exact hl t h
  · exact (mem_unterminated.1 h).1 ▸ hr

/-- The content as it is read ends with a line end. -/
def Terminated (content : Text) : Prop := (universalNewlines content).getLast? = some '\n'

instance (content : Text) : Decidable (Terminated content) := inferInstanceAs (Decidable (_ = _))

theorem terminated_iff {content : Text} (hr : Plain rest) (h : universalNewlines content = joinLines lines rest) :
    Terminated content ↔ lines ≠ [] ∧ rest = [] := by
  rw [Terminated, h]
  rcases List.eq_nil_or_concat rest with rfl | ⟨rest', c, rfl⟩
  · rcases List.eq_nil_or_concat lines with rfl | ⟨lines', l, rfl⟩
    · simp [joinLines]
    · simp [joinLines]
  · have hc : c ≠ '\n' := fun hc => hr.1 (by simp [hc])
    simp [joinLines, hc]

/-- The end of a line is in no word without it. -/
theorem infix_line {c : Char} (ha : c ∉ rest) : rest <:+: l ++ [c] ↔ rest <:+: l := by
  rw [List.infix_concat_iff]
  constructor
  · intro h
    rcases h with h | h
    · rcases List.suffix_concat_iff.1 h with rfl | ⟨t, rfl, -⟩
      · exact List.nil_infix
      · simp at ha
    · exact h
  · exact .inr

end

/-! ## Texts cut into lines -/

/-- Each line but the last has its end. -/
inductive Lined : List Text → Prop
  | nil : Lined []
  | rest {l : Text} (hl : '\n' ∉ l) (hne : l ≠ []) : Lined [l]
  | line {l : Text} {ls : List Text} (hl : '\n' ∉ l) (h : Lined ls) : Lined ((l ++ ['\n']) :: ls)

section
variable {l o t w : Text} {ls : List Text} {g : Text → Text}

theorem lined_unterminated (h : '\n' ∉ t) : Lined (unterminated t) := by
  by_cases hne : t = []
  · rw [unterminated, if_pos hne]
    exact .nil
  · rw [unterminated_of_ne hne]
    exact .rest h hne

theorem lined_readLines (t : Text) : Lined (readLines t) := by
  obtain ⟨lines, rest, hl, hr, rfl⟩ := exists_joinLines t
  rw [readLines_joinLines hl hr]
  induction lines with
  | nil => exact lined_unterminated hr
  | cons l lines ih =>
    exact .line (hl l (List.mem_cons_self ..)) (ih fun l h => hl l (List.mem_cons_of_mem _ h))

/-- What was cut into lines is read as these lines. -/
theorem Lined.readLines_flatten (h : Lined ls) : readLines ls.flatten = ls := by
  induction h with
  | nil => rfl
  | @rest l hl hne => rw [List.flatten_singleton, readLines_rest hl, unterminated_of_ne hne]
  | @line l ls hl _ ih => rw [List.flatten_cons, List.append_assoc, List.singleton_append, readLines_line hl, ih]

/-- A line in place of some. -/
theorem Lined.map (h : Lined ls) (hw : '\n' ∉ w) (hg : ∀ l ∈ ls, g l = l ∨ g l = w ++ ['\n']) : Lined (ls.map g) := by
  induction h with
  | nil => exact .nil
  | @rest l hl hne =>
    rw [List.map_singleton]
    rcases hg l (List.mem_singleton_self l) with hl' | hl' <;> rw [hl']
    · exact .rest hl hne
    · exact .line hw .nil
  | @line l ls hl _ ih =>
    have ih := ih fun l h => hg l (List.mem_cons_of_mem _ h)
    rw [List.map_cons]
    rcases hg _ (List.mem_cons_self ..) with hl' | hl' <;> rw [hl']
    · exact .line hl ih
    · exact .line hw ih

/-- Texts that end with a newline are read one by one, in place of lines too. -/
theorem Lined.universalNewlines_map (h : Lined ls) (hg : ∀ l, g l = l ∨ g l = o ++ ['\n']) :
    universalNewlines (ls.map g).flatten = (ls.map fun l => universalNewlines (g l)).flatten := by
  induction h with
  | nil => rfl
  | @rest l hl hne => simp only [List.map_singleton, List.flatten_singleton]
  | @line l ls hl _ ih =>
    have hend : ∃ a, g (l ++ ['\n']) = a ++ ['\n'] := (hg _).elim (fun h => ⟨l, h⟩) (fun h => ⟨o, h⟩)
    obtain ⟨a, ha⟩ := hend
    rw [List.map_cons, List.map_cons, List.flatten_cons, List.flatten_cons, ha, List.append_assoc,
      List.singleton_append, universalNewlines_newline, ih]

theorem Lined.count_le (h : Lined ls) : ∀ l ∈ ls, l.count '\n' ≤ 1 := by
  induction h with
  | nil => exact fun l hl => absurd hl List.not_mem_nil
  | @rest l hl _ =>
    intro l' hl'
    rw [List.mem_singleton.1 hl', List.count_eq_zero_of_not_mem hl]
    exact Nat.zero_le _
  | @line l ls hl _ ih =>
    intro l' hl'
    rcases List.mem_cons.1 hl' with rfl | hl'
    · rw [List.count_append, List.count_eq_zero_of_not_mem hl]
      exact Nat.le_refl _
    · exact ih l' hl'

/-- A line is read as itself. -/
theorem Lined.readLines_mem (h : Lined ls) : ∀ l ∈ ls, readLines l = [l] := by
  induction h with
  | nil => exact fun l hl => absurd hl List.not_mem_nil
  | @rest l hl hne =>
    intro l' hl'
    rw [List.mem_singleton.1 hl', readLines_rest hl, unterminated_of_ne hne]
  | @line l ls hl _ ih =>
    intro l' hl'
    rcases List.mem_cons.1 hl' with rfl | hl'
    · rw [readLines_line hl]
      rfl
    · exact ih l' hl'

end

/-! ## Texts printed as a line -/

/-- With a newline behind it, it is read as one line. -/
def OneLine (o : Text) : Prop := (universalNewlines (o ++ ['\n'])).count '\n' = 1

instance (o : Text) : Decidable (OneLine o) := inferInstanceAs (Decidable (_ = _))

section
variable {o : Text}

theorem newline_mem_decode {afterReturn : Bool} (h : afterReturn = false ∨ o ≠ []) :
    '\n' ∈ decodeNewlines afterReturn (o ++ ['\n']) := by
  induction o generalizing afterReturn with
  | nil =>
    rw [h.resolve_right fun hne => hne rfl]
    exact List.mem_cons_self ..
  | cons c o ih =>
    simp only [List.cons_append, decodeNewlines]
    split
    · exact List.mem_cons_self ..
    · split
      · exact ih (.inl rfl)
      · exact List.mem_cons_of_mem _ (ih (.inl rfl))

theorem count_universalNewlines_pos (o : Text) : 0 < (universalNewlines (o ++ ['\n'])).count '\n' :=
  List.count_pos_iff.2 (newline_mem_decode (.inl rfl))

/-- A newline behind it adds one at most. -/
theorem count_universalNewlines_le (o : Text) :
    (universalNewlines (o ++ ['\n'])).count '\n' ≤ (universalNewlines o).count '\n' + 1 := by
  suffices h : ∀ afterReturn, (decodeNewlines afterReturn (o ++ ['\n'])).count '\n' ≤
      (decodeNewlines afterReturn o).count '\n' + 1 from h false
  induction o with
  | nil => intro afterReturn; cases afterReturn <;> decide
  | cons c o ih =>
    intro afterReturn
    simp only [List.cons_append, decodeNewlines]
    split
    · rw [List.count_cons_self, List.count_cons_self]
      exact Nat.succ_le_succ (ih true)
    · split
      · exact ih false
      · rw [List.count_cons, List.count_cons]
        have := ih false
        omega

/-- One line has no line end in it, but maybe a return at its end, that is read
with the newline. -/
theorem OneLine.cases (h : OneLine o) :
    ∃ w, Plain w ∧ (o = w ∨ o = w ++ ['\r']) ∧ universalNewlines (o ++ ['\n']) = w ++ ['\n'] := by
  unfold OneLine universalNewlines at *
  induction o with
  | nil => exact ⟨[], plain_nil, .inl rfl, rfl⟩
  | cons c o ih =>
    simp only [List.cons_append, decodeNewlines, Bool.false_eq_true, and_false, if_false] at h ⊢
    by_cases hret : c = '\r'
    · rw [if_pos hret, List.count_cons_self] at h
      -- Nothing follows it but the newline.
      have ho : o = [] := by
        by_contra hne
        have hmem : '\n' ∈ decodeNewlines true (o ++ ['\n']) := newline_mem_decode (.inr hne)
        have hpos := List.count_pos_iff.2 hmem
        omega
      rw [if_pos hret, hret, ho]
      exact ⟨[], plain_nil, .inr rfl, rfl⟩
    · rw [if_neg hret] at h ⊢
      by_cases hnl : c = '\n'
      · rw [hnl, List.count_cons_self] at h
        have hpos := count_universalNewlines_pos o
        unfold universalNewlines at hpos
        omega
      · rw [List.count_cons_of_ne hnl] at h
        obtain ⟨w, hw, ho, hread⟩ := ih h
        refine ⟨c :: w, ⟨?_, ?_⟩, ?_, by rw [hread]; rfl⟩
        · exact List.not_mem_cons_of_ne_of_not_mem (Ne.symm hnl) hw.1
        · exact List.not_mem_cons_of_ne_of_not_mem (Ne.symm hret) hw.2
        · exact ho.imp (congrArg (c :: ·)) (congrArg (c :: ·))

end

end TextLines
