/-
Appending a line to a configuration file (`append_config_line`).

The line is compared with the lines of the file as they are read, with their ends,
so it is found only where it is the last one and has none; and it is appended right
behind the last one. What the call should do is `AppendsLine`, and `AppendFits` is
where it does.
-/
import RuralPipe.ConfigureClient

namespace RuralPipe

open TextLines ConfigureClient

/-- A line that is there leaves the file as it is, and another follows its lines;
the marker may come on top. -/
def AppendsLine (fileName : FileName) (line before after : Text) : Prop :=
  if line ∈ textLines before then
    after = before ∨ after = marker fileName ++ '\n' :: before
  else
    ∃ top, (top = [] ∨ top = [marker fileName]) ∧ textLines after = top ++ textLines before ++ [line]

/-- The file has no return, and its last line has no end and is the given one, or
the line is empty and so is one of the file; or the line is missing, is not empty
and has no return, and the file's last line is terminated. -/
def AppendFits (line before : Text) : Prop :=
  '\r' ∉ before ∧ (line ∈ readLines before ∨ line = [] ∧ [] ∈ textLines before) ∨
  line ∉ textLines before ∧ line ≠ [] ∧ '\r' ∉ line ∧ Terminated before

instance (line before : Text) : Decidable (AppendFits line before) := inferInstanceAs (Decidable (_ ∨ _))

section
variable {fileName : FileName} {line before rest : Text} {lines : List Text}

theorem appendLine_nil (h : textLines before = []) : appendLine fileName line before = marker fileName ++ line :=
  editInPlace_nil (List.map_eq_nil_iff.1 h)

/-- The marker, the file as it was read, and the line if it was not found. -/
theorem appendLine_cons {l : Text} {ls : List Text} (h : readLines (universalNewlines before) = l :: ls) :
    appendLine fileName line before =
      top fileName l ++ universalNewlines before ++
        if line ∈ readLines (universalNewlines before) then [] else line := by
  have hprinted : (l :: ls).map (printedFor (fun inputLine => line = inputLine) id) = l :: ls := by
    have hid : ∀ l' ∈ l :: ls, printedFor (fun inputLine => line = inputLine) id l' = l' := fun l' _ => by
      simp only [printedFor, id, ite_self]
    rw [List.map_congr_left hid, List.map_id']
  have hany : (l :: ls).any (fun inputLine => decide (line = inputLine)) = true ↔
      line ∈ readLines (universalNewlines before) := by
    simp only [h, List.any_eq_true, decide_eq_true_eq, exists_eq_right']
  have hflat : (l :: ls).flatten = universalNewlines before := by
    rw [← h, flatten_readLines]
  rw [appendLine, editInPlace_cons h, hprinted, hflat]
  simp only [hany]

theorem appendLine_join (hl : ∀ l ∈ lines, Plain l) (hr : Plain rest)
    (h : universalNewlines before = joinLines lines rest) (hne : lines ++ unterminated rest ≠ []) :
    appendLine fileName line before =
      joinLines (topLines fileName (lines ++ unterminated rest)) [] ++ joinLines lines rest ++
        if line ∈ readLines (universalNewlines before) then [] else line := by
  obtain ⟨l, ls, hread, hcons⟩ := exists_cons_of_read (fun l h => (hl l h).1) hr.1 h hne
  rw [appendLine_cons hread, top_eq hcons, h]

/-- With its end, a line is found only at the end of the file. -/
theorem mem_readLines_iff (hline : '\n' ∉ line) (hl : ∀ l ∈ lines, Plain l) (hr : Plain rest)
    (h : universalNewlines before = joinLines lines rest) :
    line ∈ readLines (universalNewlines before) ↔ line = rest ∧ rest ≠ [] := by
  rw [h, readLines_joinLines (fun l h => (hl l h).1) hr.1, List.mem_append, mem_unterminated]
  constructor
  · intro hmem
    rcases hmem with hmem | hmem
    · obtain ⟨l, -, rfl⟩ := List.mem_map.1 hmem
      simp at hline
    · exact hmem
  · exact .inr

/-- Nothing is unchanged when something was appended. -/
theorem not_same_of_appended {top t : Text} (hline : line ≠ []) (hnl : '\n' ∉ line)
    (htop : top = [] ∨ top = marker fileName ++ ['\n']) :
    ¬ (top ++ t ++ line = t ∨ top ++ t ++ line = marker fileName ++ '\n' :: t) := by
  have hpos : 0 < line.length := List.length_pos_iff.2 hline
  intro h
  rcases h with h | h
  · have hlen := congrArg List.length h
    simp only [List.length_append] at hlen
    omega
  · rcases htop with rfl | rfl
    · -- Only the marker brings a newline more.
      have hcount := congrArg (List.count '\n') h
      simp only [List.nil_append, List.count_append, List.count_cons_self, List.count_eq_zero_of_not_mem hnl] at hcount
      omega
    · have hlen := congrArg List.length h
      simp only [List.length_append, List.length_cons, List.length_nil] at hlen
      omega

/-- What is left of a file that has the line has no return. -/
theorem return_not_mem_appendLine (fileName : FileName) (hmem : line ∈ textLines before) :
    '\r' ∉ appendLine fileName line before := by
  obtain ⟨l, ls, hread⟩ := exists_readLines hmem
  rw [appendLine_cons hread]
  intro hc
  rcases List.mem_append.1 hc with hc | hc
  · exact (List.mem_append.1 hc).elim (return_not_mem_top fileName l) (return_not_mem before)
  · split at hc
    · cases hc
    · exact (plain_of_mem_textLines hmem).2 hc

/-- A line that is there. -/
theorem appendsLine_present (hnl : '\n' ∉ line) (hmem : line ∈ textLines before) :
    AppendsLine fileName line before (appendLine fileName line before) ↔ AppendFits line before := by
  rw [AppendsLine, if_pos hmem]
  by_cases hret : '\r' ∈ before
  · have hfree := return_not_mem_appendLine fileName hmem
    refine iff_of_false ?_ ?_
    · intro hs
      rcases hs with hs | hs <;> rw [hs] at hfree
      · exact hfree hret
      · exact hfree (List.mem_append_right _ (List.mem_cons_of_mem _ hret))
    · intro hfits
      rcases hfits with ⟨hf, -⟩ | ⟨hf, -⟩
      · exact hf hret
      · exact hf hmem
  obtain ⟨l, ls, hread⟩ := exists_readLines hmem
  have htop := top_cases fileName l
  rw [appendLine_cons hread, universalNewlines_eq hret]
  by_cases hsame : line ∈ readLines before ∨ line = []
  · refine iff_of_true ?_ (.inl ⟨hret, hsame.imp_right fun hline => ⟨hline, hline ▸ hmem⟩⟩)
    have hnil : (if line ∈ readLines before then [] else line) = [] := by
      split
      · rfl
      · exact hsame.resolve_left ‹_›
    rw [hnil, List.append_nil]
    rcases htop with ht | ht <;> rw [ht]
    · exact .inl rfl
    · exact .inr (List.append_assoc ..)
  · rw [not_or] at hsame
    rw [if_neg hsame.1]
    refine iff_of_false (not_same_of_appended hsame.2 hnl htop) ?_
    intro hfits
    rcases hfits with ⟨-, hf | ⟨hf, -⟩⟩ | ⟨hf, -⟩
    · exact hsame.1 hf
    · exact hsame.2 hf
    · exact hf hmem

/-- The lines after a line that was not found; the last one goes on with it. -/
theorem textLines_appendLine (hp : Plain line) (hl : ∀ l ∈ lines, Plain l) (hr : Plain rest)
    (h : universalNewlines before = joinLines lines rest) (hne : lines ++ unterminated rest ≠ [])
    (hhit : line ∉ readLines (universalNewlines before)) :
    textLines (appendLine fileName line before) =
      topLines fileName (lines ++ unterminated rest) ++ lines ++ unterminated (rest ++ line) := by
  have hplain : ∀ l ∈ topLines fileName (lines ++ unterminated rest) ++ lines, Plain l := by
    intro l h
    rcases List.mem_append.1 h with h | h
    · exact plain_topLines h
    · exact hl l h
  have hjoin : ∀ top : List Text, joinLines top [] ++ joinLines lines rest ++ line =
      joinLines (top ++ lines) (rest ++ line) := by
    intro top
    rw [joinLines_append, List.append_assoc]
    simp only [joinLines, List.append_assoc]
  rw [appendLine_join hl hr h hne, if_neg hhit, hjoin, textLines_joinLines hplain (plain_append hr hp)]

theorem textLines_appendLine_nil (hp : Plain line) (h : textLines before = []) :
    textLines (appendLine fileName line before) = [marker fileName ++ line] := by
  have hjoin : marker fileName ++ line = joinLines [] (marker fileName ++ line) := rfl
  rw [appendLine_nil h, hjoin,
    textLines_joinLines (fun l hl => absurd hl List.not_mem_nil) (plain_append (marker_plain fileName) hp),
    unterminated_of_ne (List.append_ne_nil_of_left_ne_nil (marker_ne_nil fileName) _)]
  rfl

/-- A line that is missing. -/
theorem appendsLine_missing (hnl : '\n' ∉ line) (hmem : line ∉ textLines before) :
    AppendsLine fileName line before (appendLine fileName line before) ↔ AppendFits line before := by
  rw [AppendsLine, if_neg hmem]
  obtain ⟨lines, rest, hl, hr, h⟩ := exists_plain before
  have hall := textLines_of_read hl hr h
  have hhit : line ∉ readLines (universalNewlines before) := by
    rw [mem_readLines_iff hnl hl hr h]
    intro hrest
    rw [hall, List.mem_append, mem_unterminated] at hmem
    exact hmem (.inr hrest)
  constructor
  · intro happ
    obtain ⟨top, -, hafter⟩ := happ
    have hline : line ∈ textLines (appendLine fileName line before) := by
      rw [hafter]
      exact List.mem_append_right _ (List.mem_singleton_self _)
    have hp := plain_of_mem_textLines hline
    have hne : lines ++ unterminated rest ≠ [] := by
      intro hnil
      rw [textLines_appendLine_nil hp (hall.trans hnil), List.mem_singleton] at hline
      exact marker_ne_nil fileName (List.append_left_eq_self.1 hline.symm)
    rw [textLines_appendLine hp hl hr h hne hhit] at hafter hline
    refine .inr ⟨hmem, ?_, hp.2, (terminated_iff hr h).2 ?_⟩
    · rintro rfl
      rw [List.append_nil, List.append_assoc, ← hall] at hline
      rcases List.mem_append.1 hline with ht | ht
      · rcases topLines_cases fileName (textLines before) with htop | htop
        · rw [htop] at ht
          cases ht
        · rw [htop] at ht
          exact marker_ne_nil fileName (List.mem_singleton.1 ht).symm
      · exact hmem ht
    · by_cases hrest : rest = []
      · refine ⟨fun hlines => hne ?_, hrest⟩
        rw [hlines, hrest]
        rfl
      · rw [unterminated_of_ne (List.append_ne_nil_of_left_ne_nil hrest _)] at hafter
        have hlast := (List.append_inj' hafter rfl).2
        exact absurd (List.append_left_eq_self.1 (List.singleton_inj.1 hlast)) hrest
  · intro hfits
    rcases hfits with ⟨hret, hf | ⟨rfl, hf⟩⟩ | ⟨-, hline, hret, hterm⟩
    · exact absurd ((universalNewlines_eq hret).symm ▸ hf) hhit
    · exact absurd hf hmem
    · obtain ⟨hlines, rfl⟩ := (terminated_iff hr h).1 hterm
      have hne : lines ++ unterminated [] ≠ [] := by simpa [unterminated] using hlines
      refine ⟨topLines fileName (lines ++ unterminated []), topLines_cases fileName _, ?_⟩
      rw [textLines_appendLine ⟨hnl, hret⟩ hl hr h hne hhit, hall, List.nil_append, unterminated_of_ne hline,
        ← List.append_assoc, show unterminated [] = [] from rfl, List.append_nil, List.append_nil]

/-- What is left is right exactly where the line fits. -/
theorem appendsLine_iff (fileName : FileName) (hnl : '\n' ∉ line) :
    AppendsLine fileName line before (appendLine fileName line before) ↔ AppendFits line before := by
  by_cases hmem : line ∈ textLines before
  · exact appendsLine_present hnl hmem
  · exact appendsLine_missing hnl hmem

end

/-! ## The file -/

theorem appendConfigLine_file {fs : FileSystem} {fileName : FileName} {before : Text} {mode : BitVec 9}
    (h : fs.file fileName.chars = some ⟨before, mode⟩) (line : Text) :
    (appendConfigLine fs fileName line).1.file fileName.chars = some ⟨appendLine fileName line before, mode⟩ :=
  editFile_some h

/-- **`append_config_line` adds a line iff it is missing exactly where the line
fits**: it is the unterminated last line of the file, or empty as one of the file's,
and the file has no return; or it is missing, not empty, and what it is put behind is
terminated. -/
theorem appendConfigLine_iff {fs : FileSystem} {fileName : FileName} {line before : Text} {mode : BitVec 9}
    (h : fs.file fileName.chars = some ⟨before, mode⟩) (hnl : '\n' ∉ line) :
    (∃ after, (appendConfigLine fs fileName line).1.file fileName.chars = some ⟨after, mode⟩ ∧
      AppendsLine fileName line before after) ↔ AppendFits line before := by
  rw [appendConfigLine_file h line, ← appendsLine_iff fileName hnl]
  constructor
  · intro hs
    obtain ⟨after, hafter, hs⟩ := hs
    cases hafter
    exact hs
  · intro hs
    exact ⟨_, rfl, hs⟩

/-- `/etc/iproute2/rt_tables`. -/
def rtTables : FileName := ⟨"/etc/iproute2/rt_tables".toList, by decide, by decide⟩

/-- The table's line that the script adds. -/
def rpiTable : Text := "1    rpi".toList

/-- The script's call on a table without it. -/
theorem appendConfigLine_rtTables :
    ∃ after, (appendConfigLine (.oneFile rtTables "255\tlocal\n".toList) rtTables rpiTable).1.file rtTables.chars =
        some ⟨after, 0o644#9⟩ ∧ AppendsLine rtTables rpiTable "255\tlocal\n".toList after :=
  (appendConfigLine_iff (FileSystem.oneFile_file rtTables _) (by decide)).2
    (.inr ⟨by decide +kernel, by decide, by decide, by decide +kernel⟩)

theorem not_appendsLine {content : Text} (h : ¬ AppendFits rpiTable content) :
    ¬ ∃ after, (appendConfigLine (.oneFile rtTables content) rtTables rpiTable).1.file rtTables.chars =
      some ⟨after, 0o644#9⟩ ∧ AppendsLine rtTables rpiTable content after := by
  rw [appendConfigLine_file (FileSystem.oneFile_file rtTables content)]
  intro hs
  obtain ⟨after, hafter, hs⟩ := hs
  cases hafter
  exact h ((appendsLine_iff rtTables (by decide)).1 hs)

/-- A line that is there with its end comes a second time; in an empty file it ends
up behind the marker, in one without a final newline behind the last line. -/
theorem not_appendConfigLine :
    (¬ ∃ after, (appendConfigLine (.oneFile rtTables "1    rpi\n".toList) rtTables rpiTable).1.file rtTables.chars =
        some ⟨after, 0o644#9⟩ ∧ AppendsLine rtTables rpiTable "1    rpi\n".toList after) ∧
    (¬ ∃ after, (appendConfigLine (.oneFile rtTables []) rtTables rpiTable).1.file rtTables.chars =
        some ⟨after, 0o644#9⟩ ∧ AppendsLine rtTables rpiTable [] after) ∧
    ¬ ∃ after, (appendConfigLine (.oneFile rtTables "255\tlocal".toList) rtTables rpiTable).1.file rtTables.chars =
      some ⟨after, 0o644#9⟩ ∧ AppendsLine rtTables rpiTable "255\tlocal".toList after :=
  ⟨not_appendsLine (by decide +kernel), not_appendsLine (by decide +kernel), not_appendsLine (by decide +kernel)⟩

end RuralPipe
