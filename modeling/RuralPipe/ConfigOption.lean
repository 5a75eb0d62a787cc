/-
Setting an option in a configuration file (`set_config_option`).

What the call should do is said line by line (`SetsOptions`): the option has its
line, every other stays where it is unless its key is the option's name, and the
marker may be on top. What it does is said line by line too (`textLines_setOption`):
it puts the option's line for each that contains the name anywhere, and otherwise
writes it right behind the last one. The two agree where `OptionFits` says.
-/
import Mathlib.Data.List.DropRight
import Mathlib.Data.List.Forall2
import RuralPipe.ConfigureClient

namespace RuralPipe

open TextLines ConfigureClient

/-- An option `name=value`, with one equals sign. -/
structure ConfigOption where
  name : Text
  value : Text
  name_eq : '=' ∉ name
  value_eq : '=' ∉ value

def ConfigOption.line (o : ConfigOption) : Text := o.name ++ '=' :: o.value

/-- Without the blanks around it. -/
def trim (t : Text) : Text := (t.dropWhile fun c => c = ' ' || c = '\t').rdropWhile fun c => c = ' ' || c = '\t'

/-- The key of a line: what stands before its first equals sign, or all of it,
without a comment sign and blanks. -/
def key (line : Text) : Text :=
  match trim (line.takeWhile (· ≠ '=')) with
  | '#' :: k => trim k
  | k => k

/-- A line of the file, or the option's line in place of one with its name. -/
def Stays (options : List ConfigOption) (l l' : Text) : Prop :=
  l' = l ∨ ∃ o ∈ options, key l = o.name ∧ l' = o.line

/-- The options are set, and nothing else is. -/
structure SetsOptions (fileName : FileName) (options : List ConfigOption) (before after : List Text) : Prop where
  set : ∀ o ∈ options, o.line ∈ after
  kept : ∃ top lines added, after = top ++ lines ++ added ∧ (top = [] ∨ top = [marker fileName]) ∧
    List.Forall₂ (Stays options) before lines ∧ ∀ l ∈ added, ∃ o ∈ options, l = o.line

/-- The option is one line; the file has lines, of which those that contain the
name have it as their key, or are the option's; and if none does, the last one is
terminated. -/
structure OptionFits (o : ConfigOption) (before : Text) : Prop where
  plain : Plain o.line
  nonempty : textLines before ≠ []
  named : ∀ l ∈ textLines before, o.name <:+: l → key l = o.name ∨ l = o.line
  ended : (∃ l ∈ textLines before, o.name <:+: l) ∨ Terminated before

namespace ConfigOption

variable (o : ConfigOption)

theorem splitOn_line : o.line.splitOn '=' = [o.name, o.value] := by
  rw [line, List.splitOn_append_cons_self_of_not_mem o.name_eq, List.splitOn_eq_singleton o.value_eq]

theorem name_infix_line : o.name <:+: o.line := (List.prefix_append _ _).isInfix

/-- The marker is no option. -/
theorem line_ne_marker (fileName : FileName) : o.line ≠ marker fileName := by
  intro h
  refine eq_not_mem_marker fileName ?_
  rw [← h]
  exact List.mem_append_right _ (List.mem_cons_self ..)

variable {o}

theorem name_plain (h : Plain o.line) : Plain o.name :=
  ⟨fun hc => h.1 (List.mem_append_left _ hc), fun hc => h.2 (List.mem_append_left _ hc)⟩

end ConfigOption

/-! ## One call, line by line -/

/-- What becomes of a line. -/
def editLine (o : ConfigOption) (l : Text) : Text := if o.name <:+: l then o.line else l

section
variable {fileName : FileName} {o : ConfigOption} {before l rest : Text} {lines : List Text}

/-- An empty file. -/
theorem textLines_setOption_nil (hp : Plain o.line) (h : textLines before = []) :
    textLines (setOption fileName o.name o.value before) = [marker fileName ++ o.line] := by
  have hjoin : marker fileName ++ o.line = joinLines [] (marker fileName ++ o.line) := rfl
  have hne : marker fileName ++ o.line ≠ [] := List.append_ne_nil_of_left_ne_nil (marker_ne_nil fileName) _
  rw [setOption_nil (List.map_eq_nil_iff.1 h), ← ConfigOption.line, hjoin,
    textLines_joinLines (fun l hl => absurd hl List.not_mem_nil) (plain_append (marker_plain fileName) hp),
    unterminated_of_ne hne]
  rfl

/-- The line that was hit, or the line, with its end. -/
theorem optionPrinted_line (hp : Plain o.line) (l : Text) :
    optionPrinted o.name o.value (l ++ ['\n']) = editLine o l ++ ['\n'] := by
  have hname : o.name <:+: l ++ ['\n'] ↔ o.name <:+: l := infix_line (ConfigOption.name_plain hp).1
  by_cases h : o.name <:+: l
  · rw [optionPrinted_hit (hname.2 h), editLine, if_pos h, ConfigOption.line]
  · rw [optionPrinted_kept (hname.not.2 h), editLine, if_neg h]

/-- Another file: the marker, the lines, what the last one leaves if it had no end,
and the option if it was not found. -/
theorem setOption_join (hp : Plain o.line) (hl : ∀ l ∈ lines, '\n' ∉ l) (hr : '\n' ∉ rest)
    (h : universalNewlines before = joinLines lines rest) (hne : lines ++ unterminated rest ≠ []) :
    setOption fileName o.name o.value before =
      joinLines (topLines fileName (lines ++ unterminated rest) ++ lines.map (editLine o)) [] ++
        ((unterminated rest).map (optionPrinted o.name o.value)).flatten ++
        if ∃ l ∈ lines ++ unterminated rest, o.name <:+: l then [] else o.line := by
  have hname : ∀ l : Text, o.name <:+: l ++ ['\n'] ↔ o.name <:+: l :=
    fun l => infix_line (ConfigOption.name_plain hp).1
  have hany : (∃ l ∈ lines.map (· ++ ['\n']) ++ unterminated rest, o.name <:+: l) ↔
      ∃ l ∈ lines ++ unterminated rest, o.name <:+: l := by
    simp only [List.mem_append, List.mem_map, or_and_right, exists_or, exists_exists_and_eq_and, hname]
  have hlines : ((lines.map (· ++ ['\n'])).map (optionPrinted o.name o.value)).flatten =
      joinLines (lines.map (editLine o)) [] := by
    rw [joinLines, List.append_nil, List.map_map, List.map_map]
    exact congrArg List.flatten (List.map_congr_left fun l _ => optionPrinted_line hp l)
  obtain ⟨l, ls, hread, hcons⟩ := exists_cons_of_read hl hr h hne
  rw [setOption_cons hread, top_eq hcons, ← hcons, List.map_append, List.flatten_append, hlines, joinLines_append,
    ← List.append_assoc]
  simp only [hany]
  rfl

theorem plain_editLine (hp : Plain o.line) (hl : Plain l) : Plain (editLine o l) := by
  unfold editLine
  split
  · exact hp
  · exact hl

theorem plain_edited (fileName : FileName) (hp : Plain o.line) (hl : ∀ l ∈ lines, Plain l) (ls : List Text) :
    ∀ l ∈ topLines fileName ls ++ lines.map (editLine o), Plain l := by
  intro l h
  rcases List.mem_append.1 h with h | h
  · exact plain_topLines h
  · obtain ⟨l', hl', rfl⟩ := List.mem_map.1 h
    exact plain_editLine hp (hl l' hl')

/-- Where a line contains the name, each that does becomes the option's. -/
theorem textLines_setOption_found (hp : Plain o.line) (hfound : ∃ l ∈ textLines before, o.name <:+: l) :
    textLines (setOption fileName o.name o.value before) =
      topLines fileName (textLines before) ++ (textLines before).map (editLine o) := by
  obtain ⟨lines, rest, hl, hr, h⟩ := exists_plain before
  rw [textLines_of_read hl hr h] at hfound ⊢
  have hne : lines ++ unterminated rest ≠ [] := by
    obtain ⟨l, hmem, -⟩ := hfound
    exact List.ne_nil_of_mem hmem
  rw [setOption_join hp (fun l h => (hl l h).1) hr.1 h hne, if_pos hfound, List.append_nil]
  have hplain := plain_edited fileName hp hl (lines ++ unterminated rest)
  by_cases hrest : rest = []
  · subst hrest
    rw [show unterminated [] = [] from rfl, List.append_nil] at hplain ⊢
    rw [List.map_nil, List.flatten_nil, List.append_nil, textLines_joinLines hplain plain_nil]
    exact List.append_nil _
  · rw [unterminated_of_ne hrest] at hplain ⊢
    rw [List.map_singleton, List.flatten_singleton, List.map_append, List.map_singleton, ← List.append_assoc]
    by_cases hhit : o.name <:+: rest
    · have hplain' : ∀ l ∈ topLines fileName (lines ++ [rest]) ++ lines.map (editLine o) ++ [o.line], Plain l := by
        intro l h
        rcases List.mem_append.1 h with h | h
        · exact hplain l h
        · exact List.mem_singleton.1 h ▸ hp
      rw [optionPrinted_hit hhit, ← ConfigOption.line, joinLines_concat,
        textLines_joinLines hplain' plain_nil, editLine, if_pos hhit]
      exact List.append_nil _
    · rw [optionPrinted_kept hhit, joinLines_nil_append, textLines_joinLines hplain hr, editLine, if_neg hhit,
        unterminated_of_ne hrest]

theorem map_editLine_missing (h : ¬ ∃ l ∈ lines, o.name <:+: l) : lines.map (editLine o) = lines := by
  have hid : ∀ l ∈ lines, editLine o l = l := fun l hl => if_neg fun hn => h ⟨l, hl, hn⟩
  rw [List.map_congr_left hid, List.map_id']

theorem line_ne_nil : o.line ≠ [] := List.append_ne_nil_of_right_ne_nil _ (List.cons_ne_nil _ _)

/-- Where none does, the option's line follows the last one. -/
theorem textLines_setOption_missing (hp : Plain o.line) (hmissing : ¬ ∃ l ∈ textLines before, o.name <:+: l)
    (hterm : Terminated before) :
    textLines (setOption fileName o.name o.value before) =
      topLines fileName (textLines before) ++ textLines before ++ [o.line] := by
  obtain ⟨lines, rest, hl, hr, h⟩ := exists_plain before
  obtain ⟨hlines, rfl⟩ := (terminated_iff hr h).1 hterm
  rw [textLines_of_read hl hr h] at hmissing ⊢
  rw [setOption_join hp (fun l h => (hl l h).1) hr.1 h (by simpa [unterminated] using hlines), if_neg hmissing]
  rw [show unterminated [] = [] from rfl, List.append_nil] at hmissing ⊢
  rw [List.map_nil, List.flatten_nil, List.append_nil, joinLines_nil_append,
    textLines_joinLines (plain_edited fileName hp hl lines) hp, unterminated_of_ne line_ne_nil,
      map_editLine_missing hmissing]

/-- Unless that one has no end, and the option is written on it. -/
theorem textLines_setOption_merged (fileName : FileName) (hp : Plain o.line)
    (hmissing : ¬ ∃ l ∈ textLines before, o.name <:+: l)
    (hterm : ¬ Terminated before) (hne : textLines before ≠ []) :
    ∃ init last, textLines before = init ++ [last] ∧ last ≠ [] ∧
      textLines (setOption fileName o.name o.value before) =
        topLines fileName (textLines before) ++ init ++ [last ++ o.line] := by
  obtain ⟨lines, rest, hl, hr, h⟩ := exists_plain before
  rw [textLines_of_read hl hr h] at hmissing hne ⊢
  have hrest : rest ≠ [] := by
    rintro rfl
    exact hterm ((terminated_iff hr h).2 ⟨by simpa [unterminated] using hne, rfl⟩)
  refine ⟨lines, rest, by rw [unterminated_of_ne hrest], hrest, ?_⟩
  have hline : ¬ o.name <:+: rest :=
    fun hn => hmissing ⟨rest, List.mem_append_right _ (mem_unterminated.2 ⟨rfl, hrest⟩), hn⟩
  have hlines : ¬ ∃ l ∈ lines, o.name <:+: l :=
    fun hfound => hmissing (hfound.imp fun l => And.imp_left (List.mem_append_left _))
  rw [setOption_join hp (fun l h => (hl l h).1) hr.1 h hne, if_neg hmissing, unterminated_of_ne hrest,
    List.map_singleton, List.flatten_singleton, optionPrinted_kept hline, List.append_assoc, joinLines_nil_append,
    textLines_joinLines (plain_edited fileName hp hl _) (plain_append hr hp),
    unterminated_of_ne (List.append_ne_nil_of_left_ne_nil hrest _), map_editLine_missing hlines]

end

/-! ## The calls that fit -/

/-- The calls in turn. -/
def setOptions (fileName : FileName) (options : List ConfigOption) (before : Text) : Text :=
  options.foldl (fun t o => setOption fileName o.name o.value t) before

/-- Each call fits the file it finds, and the name it looks for is in no line that
a call before it wrote. -/
def CallsFit (fileName : FileName) : (written : List Text) → List ConfigOption → (before : Text) → Prop
  | _, [], _ => True
  | written, o :: options, before =>
    OptionFits o before ∧ (∀ l ∈ written, ¬ o.name <:+: l) ∧
      CallsFit fileName (written ++ topLines fileName (textLines before) ++ [o.line]) options
        (setOption fileName o.name o.value before)

/-- The options in `done` are set, by lines that are among `written`. -/
structure Progress (fileName : FileName) (done : List ConfigOption) (written before now : List Text) : Prop where
  set : ∀ o ∈ done, o.line ∈ now ∧ o.line ∈ written
  kept : ∃ top lines added, now = top ++ lines ++ added ∧
    (top = [] ∨ top = [marker fileName] ∧ marker fileName ∈ written) ∧
    List.Forall₂ (Stays done) before lines ∧ ∀ l ∈ added, ∃ o ∈ done, l = o.line

section
variable {fileName : FileName} {o : ConfigOption} {before : Text} {done : List ConfigOption} {written start : List Text}

/-- What a call that fits leaves. -/
theorem textLines_setOption_fits (fileName : FileName) (h : OptionFits o before) :
    ∃ extra, textLines (setOption fileName o.name o.value before) =
      topLines fileName (textLines before) ++ (textLines before).map (editLine o) ++ extra ∧
      (extra = [] ∧ (∃ l ∈ textLines before, o.name <:+: l) ∨ extra = [o.line]) := by
  by_cases hfound : ∃ l ∈ textLines before, o.name <:+: l
  · exact ⟨[], by rw [textLines_setOption_found h.plain hfound, List.append_nil], .inl ⟨rfl, hfound⟩⟩
  · refine ⟨[o.line], ?_, .inr rfl⟩
    rw [textLines_setOption_missing h.plain hfound (h.ended.resolve_left hfound), map_editLine_missing hfound]

theorem forall₂_imp_mem {α β : Type} {R S : α → β → Prop} {l₁ : List α} {l₂ : List β} (h : List.Forall₂ R l₁ l₂)
    (hRS : ∀ a b, b ∈ l₂ → R a b → S a b) : List.Forall₂ S l₁ l₂ := by
  induction h with
  | nil => exact .nil
  | cons hab _ ih =>
    exact .cons (hRS _ _ (List.mem_cons_self ..) hab) (ih fun a b hb => hRS a b (List.mem_cons_of_mem _ hb))

/-- A line that stayed stays through another call. -/
theorem stays_editLine {l l' : Text} (h : Stays done l l') (hdone : ∀ o' ∈ done, ¬ o.name <:+: o'.line)
    (hnamed : o.name <:+: l' → key l' = o.name ∨ l' = o.line) : Stays (done ++ [o]) l (editLine o l') := by
  rcases h with rfl | ⟨o', ho', hkey, rfl⟩
  · by_cases hhit : o.name <:+: l'
    · rw [editLine, if_pos hhit]
      rcases hnamed hhit with hkey | hline
      · exact .inr ⟨o, by simp, hkey, rfl⟩
      · exact .inl hline.symm
    · exact .inl (if_neg hhit)
  · exact .inr ⟨o', by simp [ho'], hkey, if_neg (hdone o' ho')⟩

/-- A call that fits sets its option, and keeps what was set. -/
theorem Progress.step (h : Progress fileName done written start (textLines before)) (hfit : OptionFits o before)
    (hfree : ∀ l ∈ written, ¬ o.name <:+: l) :
    Progress fileName (done ++ [o]) (written ++ topLines fileName (textLines before) ++ [o.line]) start
      (textLines (setOption fileName o.name o.value before)) := by
  obtain ⟨extra, hafter, hextra⟩ := textLines_setOption_fits fileName hfit
  obtain ⟨top, lines, added, hnow, htop, hlines, hadded⟩ := h.kept
  have hdone : ∀ o' ∈ done, ¬ o.name <:+: o'.line := fun o' ho' => hfree _ (h.set o' ho').2
  have hkeep : ∀ o' ∈ done, editLine o o'.line = o'.line := fun o' ho' => if_neg (hdone o' ho')
  have hline : o.line ∈ textLines (setOption fileName o.name o.value before) := by
    rw [hafter]
    rcases hextra with ⟨-, l, hl, hhit⟩ | rfl
    · exact List.mem_append_left _ (List.mem_append_right _ (List.mem_map.2 ⟨l, hl, if_pos hhit⟩))
    · exact List.mem_append_right _ (List.mem_singleton_self _)
  refine ⟨?_, topLines fileName (textLines before) ++ top, lines.map (editLine o), added ++ extra, ?_, ?_, ?_, ?_⟩
  · intro o' ho'
    rcases List.mem_append.1 ho' with ho' | ho'
    · refine ⟨?_, List.mem_append_left _ (List.mem_append_left _ (h.set o' ho').2)⟩
      rw [hafter]
      exact List.mem_append_left _ (List.mem_append_right _ (List.mem_map.2 ⟨_, (h.set o' ho').1, hkeep o' ho'⟩))
    · rw [List.mem_singleton.1 ho']
      exact ⟨hline, List.mem_append_right _ (List.mem_singleton_self _)⟩
  · have htopid : top.map (editLine o) = top := by
      rcases htop with rfl | ⟨rfl, hm⟩
      · rfl
      · rw [List.map_singleton, editLine, if_neg (hfree _ hm)]
    have haddid : added.map (editLine o) = added := by
      have hid : ∀ l ∈ added, editLine o l = l := fun l hl => by
        obtain ⟨o', ho', rfl⟩ := hadded l hl
        exact hkeep o' ho'
      rw [List.map_congr_left hid, List.map_id']
    rw [hafter, hnow, List.map_append, List.map_append, htopid, haddid]
    simp only [List.append_assoc]
  · rcases htop with rfl | ⟨rfl, hm⟩
    · rw [List.append_nil]
      rcases topLines_cases fileName (textLines before) with ht | ht <;> rw [ht]
      · exact .inl rfl
      · exact .inr ⟨rfl, List.mem_append_left _ (List.mem_append_right _ (List.mem_singleton_self _))⟩
    · have hmention := mentionsScript_marker fileName []
      rw [List.append_nil] at hmention
      have hnil : topLines fileName (textLines before) = [] := by
        rw [hnow]
        exact if_pos hmention
      rw [hnil]
      exact .inr ⟨rfl, List.mem_append_left _ (List.mem_append_left _ hm)⟩
  · refine List.forall₂_map_right_iff.2 (forall₂_imp_mem hlines fun l l' hl' hs => ?_)
    refine stays_editLine hs hdone (hfit.named l' ?_)
    rw [hnow]
    exact List.mem_append_left _ (List.mem_append_right _ hl')
  · intro l hl
    rcases List.mem_append.1 hl with hl | hl
    · obtain ⟨o', ho', rfl⟩ := hadded l hl
      exact ⟨o', by simp [ho'], rfl⟩
    · rcases hextra with ⟨rfl, -⟩ | rfl
      · cases hl
      · exact ⟨o, by simp, List.mem_singleton.1 hl⟩

/-- And so do calls that all fit. -/
theorem Progress.run {options : List ConfigOption} (h : Progress fileName done written start (textLines before))
    (hfit : CallsFit fileName written options before) :
    ∃ written', Progress fileName (done ++ options) written' start
      (textLines (setOptions fileName options before)) := by
  induction options generalizing done written before with
  | nil => exact ⟨written, by rwa [List.append_nil]⟩
  | cons o options ih =>
    obtain ⟨hfit, hfree, hrest⟩ := hfit
    obtain ⟨written', h'⟩ := ih (h.step hfit hfree) hrest
    exact ⟨written', by rwa [List.append_assoc] at h'⟩

theorem Progress.setsOptions {now : List Text} (h : Progress fileName done written start now) :
    SetsOptions fileName done start now := by
  obtain ⟨top, lines, added, hnow, htop, hlines, hadded⟩ := h.kept
  exact ⟨fun o ho => (h.set o ho).1, top, lines, added, hnow, htop.imp_right And.left, hlines, hadded⟩

theorem progress_start (start : List Text) : Progress fileName [] [] start start :=
  ⟨fun o ho => absurd ho List.not_mem_nil, [], start, [], by simp, .inl rfl,
    List.forall₂_same.2 fun _ _ => .inl rfl, fun l hl => absurd hl List.not_mem_nil⟩

/-- Calls that fit set their options, and nothing else. -/
theorem setsOptions_of_callsFit {options : List ConfigOption} (h : CallsFit fileName [] options before) :
    SetsOptions fileName options (textLines before) (textLines (setOptions fileName options before)) := by
  obtain ⟨written, hp⟩ := (progress_start (textLines before)).run h
  exact hp.setsOptions

/-! ## The call that does not fit -/

/-- The lines that stayed are the edited ones: the marker on top is none of them. -/
theorem kept_eq {ls top lines added : List Text} (hne : ls ≠ [])
    (h : topLines fileName ls ++ ls.map (editLine o) = top ++ lines ++ added)
    (htop : top = [] ∨ top = [marker fileName]) (hlines : List.Forall₂ (Stays [o]) ls lines) :
    lines = ls.map (editLine o) := by
  have hlen := congrArg List.length h
  have hsame := hlines.length_eq
  simp only [List.length_append, List.length_map, ← hsame] at hlen
  rcases topLines_cases fileName ls with ht | ht
  · rw [ht, List.length_nil] at hlen
    have htop₀ : top = [] := List.eq_nil_of_length_eq_zero (by omega)
    have hadded₀ : added = [] := List.eq_nil_of_length_eq_zero (by omega)
    rw [ht, htop₀, hadded₀, List.append_nil] at h
    exact h.symm
  · rw [ht, List.length_singleton] at hlen
    rcases htop with rfl | rfl
    · cases hlines with
      | nil => exact absurd rfl hne
      | @cons l l' ls lines hs _ =>
        rw [ht, List.nil_append, List.cons_append, List.cons_append, List.cons.injEq] at h
        rcases hs with hl | ⟨o', ho', -, hl⟩
        · have hmention := mentionsScript_marker fileName []
          rw [List.append_nil, h.1, hl] at hmention
          rw [topLines, if_pos hmention] at ht
          cases ht
        · rw [List.mem_singleton.1 ho', ← h.1] at hl
          exact absurd hl.symm (o.line_ne_marker fileName)
    · rw [List.length_singleton] at hlen
      have hadded₀ : added = [] := List.eq_nil_of_length_eq_zero (by omega)
      rw [ht, hadded₀, List.append_nil] at h
      exact (List.append_cancel_left h).symm

/-- A call that sets its option and nothing else fits. -/
theorem fits_of_setsOptions
    (h : SetsOptions fileName [o] (textLines before) (textLines (setOption fileName o.name o.value before))) :
    OptionFits o before := by
  have hline := h.set o (List.mem_singleton_self _)
  have hp := plain_of_mem_textLines hline
  have hne : textLines before ≠ [] := by
    intro hnil
    rw [textLines_setOption_nil hp hnil, List.mem_singleton] at hline
    exact marker_ne_nil fileName (List.append_left_eq_self.1 hline.symm)
  by_cases hfound : ∃ l ∈ textLines before, o.name <:+: l
  · refine ⟨hp, hne, fun l hl hhit => ?_, .inl hfound⟩
    obtain ⟨top, lines, added, hafter, htop, hlines, -⟩ := h.kept
    rw [textLines_setOption_found hp hfound] at hafter
    rw [kept_eq hne hafter htop hlines, List.forall₂_map_right_iff, List.forall₂_same] at hlines
    have hs := hlines l hl
    rw [editLine, if_pos hhit] at hs
    rcases hs with hs | ⟨o', ho', hkey, -⟩
    · exact .inr hs.symm
    · exact .inl (List.mem_singleton.1 ho' ▸ hkey)
  · refine ⟨hp, hne, fun l hl hhit => absurd ⟨l, hl, hhit⟩ hfound, .inr ?_⟩
    by_contra hterm
    obtain ⟨init, last, hbefore, hlast, hafter⟩ := textLines_setOption_merged fileName hp hfound hterm hne
    rw [hafter] at hline
    rcases List.mem_append.1 hline with hline | hline
    · rcases List.mem_append.1 hline with hline | hline
      · rcases topLines_cases fileName (textLines before) with ht | ht
        · rw [ht] at hline
          cases hline
        · rw [ht] at hline
          exact o.line_ne_marker fileName (List.mem_singleton.1 hline)
      · refine hfound ⟨o.line, ?_, o.name_infix_line⟩
        rw [hbefore]
        exact List.mem_append_left _ hline
    · exact hlast (List.append_left_eq_self.1 (List.mem_singleton.1 hline).symm)

end

/-! ## The file -/

theorem setConfigOption_file {fs : FileSystem} {fileName : FileName} {before : Text} {mode : BitVec 9}
    (h : fs.file fileName.chars = some ⟨before, mode⟩) (o : ConfigOption) :
    (setConfigOption fs fileName o.line).1.file fileName.chars =
      some ⟨setOption fileName o.name o.value before, mode⟩ := by
  rw [setConfigOption, o.splitOn_line]
  exact editFile_some h

/-- The script's calls for one file. -/
def setConfigOptions (fs : FileSystem) (fileName : FileName) (options : List Text) : FileSystem :=
  options.foldl (fun fs option => (setConfigOption fs fileName option).1) fs

theorem setConfigOptions_file {fs : FileSystem} {fileName : FileName} {before : Text} {mode : BitVec 9}
    (h : fs.file fileName.chars = some ⟨before, mode⟩) (options : List ConfigOption) :
    (setConfigOptions fs fileName (options.map ConfigOption.line)).file fileName.chars =
      some ⟨setOptions fileName options before, mode⟩ := by
  induction options generalizing fs before with
  | nil => exact h
  | cons o options ih => exact ih (setConfigOption_file h o)

/-- **`set_config_option` sets the option and nothing else exactly where it
fits**: the option has no line end, the file is not empty, each of its lines that
contains the name has it as its key or is the option's own, and if none contains it
the last one is terminated. Calls in turn do so when each fits the file it finds
and looks for no name in a line that an earlier one wrote. -/
theorem setConfigOption_iff {fs : FileSystem} {fileName : FileName} {before : Text} {mode : BitVec 9}
    (h : fs.file fileName.chars = some ⟨before, mode⟩) :
    (∀ o : ConfigOption, (∃ after, (setConfigOption fs fileName o.line).1.file fileName.chars = some ⟨after, mode⟩ ∧
      SetsOptions fileName [o] (textLines before) (textLines after)) ↔ OptionFits o before) ∧
    ∀ options : List ConfigOption, CallsFit fileName [] options before →
      ∃ after, (setConfigOptions fs fileName (options.map ConfigOption.line)).file fileName.chars = some ⟨after, mode⟩ ∧
        SetsOptions fileName options (textLines before) (textLines after) := by
  constructor
  · intro o
    rw [setConfigOption_file h o]
    constructor
    · intro hs
      obtain ⟨after, hafter, hs⟩ := hs
      cases hafter
      exact fits_of_setsOptions hs
    · intro hfit
      have hcalls : CallsFit fileName [] [o] before := ⟨hfit, fun l hl => absurd hl List.not_mem_nil, trivial⟩
      exact ⟨_, rfl, setsOptions_of_callsFit hcalls⟩
  · intro options hfit
    exact ⟨_, setConfigOptions_file h options, setsOptions_of_callsFit hfit⟩

/-- `/etc/default/hostapd`. -/
def hostapd : FileName := ⟨"/etc/default/hostapd".toList, by decide, by decide⟩

def daemonConf : ConfigOption := ⟨"DAEMON_CONF".toList, "\"/etc/hostapd/hostapd.conf\"".toList, by decide, by decide⟩
def daemonOpts : ConfigOption := ⟨"DAEMON_OPTS".toList, "\"-f /var/log/hostapd.log\"".toList, by decide, by decide⟩

/-- Both options, commented out. -/
def hostapdBefore : Text := "#DAEMON_CONF=\"\"\n#DAEMON_OPTS=\"\"\n".toList

/-- The script's two calls on that file. -/
theorem setConfigOption_hostapd :
    ∃ after, (setConfigOptions (.oneFile hostapd hostapdBefore) hostapd [daemonConf.line, daemonOpts.line]).file
        hostapd.chars = some ⟨after, 0o644#9⟩ ∧
      SetsOptions hostapd [daemonConf, daemonOpts] (textLines hostapdBefore) (textLines after) := by
  refine (setConfigOption_iff (FileSystem.oneFile_file hostapd hostapdBefore)).2 [daemonConf, daemonOpts]
    ⟨?_, ?_, ?_, ?_, trivial⟩
  · exact ⟨by decide +kernel, by decide +kernel, by decide +kernel, .inl (by decide +kernel)⟩
  · decide +kernel
  · exact ⟨by decide +kernel, by decide +kernel, by decide +kernel, .inl (by decide +kernel)⟩
  · decide +kernel

/-- A call that sets its option finds it on a line of its own afterwards. -/
theorem not_setsOptions {content : Text} {o : ConfigOption}
    (h : o.line ∉ textLines (setOption hostapd o.name o.value content)) :
    ¬ ∃ after, (setConfigOption (.oneFile hostapd content) hostapd o.line).1.file hostapd.chars =
      some ⟨after, 0o644#9⟩ ∧
      SetsOptions hostapd [o] (textLines content) (textLines after) := by
  rw [setConfigOption_file (FileSystem.oneFile_file hostapd content)]
  intro hs
  obtain ⟨after, hafter, hs⟩ := hs
  cases hafter
  exact h (hs.set o (List.mem_singleton_self _))

/-- On an empty file the option ends up behind the marker, on a file without a
final newline behind its last line; and a comment that only mentions the option is
lost. -/
theorem not_setConfigOption :
    (¬ ∃ after, (setConfigOption (.oneFile hostapd []) hostapd daemonConf.line).1.file hostapd.chars =
        some ⟨after, 0o644#9⟩ ∧ SetsOptions hostapd [daemonConf] (textLines []) (textLines after)) ∧
    (¬ ∃ after, (setConfigOption (.oneFile hostapd "A=1".toList) hostapd daemonConf.line).1.file hostapd.chars =
        some ⟨after, 0o644#9⟩ ∧ SetsOptions hostapd [daemonConf] (textLines "A=1".toList) (textLines after)) ∧
    ¬ ∃ after, (setConfigOption (.oneFile hostapd "# see DAEMON_CONF\n".toList) hostapd daemonConf.line).1.file
        hostapd.chars = some ⟨after, 0o644#9⟩ ∧
      SetsOptions hostapd [daemonConf] (textLines "# see DAEMON_CONF\n".toList) (textLines after) := by
  refine ⟨not_setsOptions (by decide +kernel), not_setsOptions (by decide +kernel), ?_⟩
  rw [setConfigOption_file (FileSystem.oneFile_file hostapd _)]
  intro hs
  obtain ⟨after, hafter, hs⟩ := hs
  cases hafter
  exact absurd (fits_of_setsOptions hs).named (by decide +kernel)

end RuralPipe
