/-
Running the configuration twice.

The second call of a helper reads what the first one left: the text it generated,
the option without an end, the marker. `TwiceAsOnce` says that it leaves the file
and its backup alone, and each helper does so exactly where the text it finds is the
one it would write (`RewriteSettles`, `SettingSettles`, `LineSettles`).
-/
import Mathlib.Algebra.Order.BigOperators.Group.List
import Mathlib.Algebra.Order.Group.Nat
import RuralPipe.ConfigLine

namespace RuralPipe

open TextLines ConfigureClient

/-- The configuration file and its backup are the same. -/
def SameFiles (fileName : FileName) (fs fs' : FileSystem) : Prop :=
  fs'.file fileName.chars = fs.file fileName.chars ∧ fs'.file (backupPath fileName) = fs.file (backupPath fileName)

/-- A second call changes nothing more. -/
def TwiceAsOnce (fileName : FileName) (call : FileSystem → FileSystem × Option PyException) (fs : FileSystem) : Prop :=
  SameFiles fileName (call fs).1 (call (call fs).1).1

/-- The arguments of `rewrite_config_file` for one file. -/
structure Rewrite where
  executableClause : Option Text
  contents : Text

def Rewrite.call (c : Rewrite) (fileName : FileName) (fs : FileSystem) : FileSystem × Option PyException :=
  rewriteConfigFile fs fileName c.executableClause c.contents

def Rewrite.text (c : Rewrite) (fileName : FileName) : Text := generated fileName c.executableClause c.contents

/-- Calls in turn. -/
def rewriteConfigFiles (fs : FileSystem) (fileName : FileName) (calls : List Rewrite) : FileSystem :=
  calls.foldl (fun fs c => (c.call fileName fs).1) fs

/-- The backup has the content that the file had. -/
def KeepsBackup (fileName : FileName) (fs fs' : FileSystem) : Prop :=
  ∀ old, fs.file fileName.chars = some old →
    ∃ backup, fs'.file (backupPath fileName) = some backup ∧ backup.content = old.content

/-- The file has the generated text already; or there is no file, and its backup
has it, or the call fails. -/
def RewriteSettles (fs : FileSystem) (fileName : FileName) (c : Rewrite) : Prop :=
  match fs.file fileName.chars with
  | some old => old.content = c.text fileName
  | none => fs.hasDirectory fileName.chars = true →
      ∃ backup, fs.file (backupPath fileName) = some backup ∧ backup.content = c.text fileName

/-- The option is one line, and its name is in a line of the file. The first line
mentions the script, and still does if it is replaced; or else the name is not in
the marker. -/
def SettingSettles (fileName : FileName) (name value before : Text) : Prop :=
  OneLine (name ++ '=' :: value) ∧
  ∃ l ls, readLines (universalNewlines before) = l :: ls ∧ (∃ l' ∈ l :: ls, name <:+: l') ∧
    if mentionsScript l then name <:+: l → mentionsScript (name ++ '=' :: value) = true
    else ¬ name <:+: marker fileName

/-- The line is empty, or is one that the file is read as. Or the file is not empty
and the line is read back as one behind its terminated last line, or is the marker
that comes on top. -/
def LineSettles (fileName : FileName) (line before : Text) : Prop :=
  line = [] ∨ line ∈ readLines (universalNewlines before) ∨
  ∃ l ls, readLines (universalNewlines before) = l :: ls ∧
    (mentionsScript l = false ∧ line = marker fileName ++ ['\n'] ∨
      Terminated before ∧ readLines (universalNewlines line) = [line])

/-- The option is not of the form `name=value`, or the setting settles on the file
that there is. -/
def OptionSettles (fs : FileSystem) (fileName : FileName) (option : Text) : Prop :=
  ∀ name value old, option.splitOn '=' = [name, value] → fs.file fileName.chars = some old →
    SettingSettles fileName name value old.content

def AppendSettles (fs : FileSystem) (fileName : FileName) (line : Text) : Prop :=
  ∀ old, fs.file fileName.chars = some old → LineSettles fileName line old.content

/-- There was no file, or only one call, or the last but one generated the text that
the file had. -/
def RewritesKeep (fs : FileSystem) (fileName : FileName) (callsBefore : List Rewrite) : Prop :=
  ∀ old, fs.file fileName.chars = some old → ∀ last ∈ callsBefore.getLast?, last.text fileName = old.content

/-! ## The files of two calls -/

section
variable {fs : FileSystem} {fileName : FileName} {edit : Text → Text} {old : File} {c : Rewrite}

theorem backupPath_ne : backupPath fileName ≠ fileName.chars := fun h => by
  have hlen := congrArg List.length h
  rw [backupPath, List.length_append] at hlen
  have horig : ".rural-pipe.orig".toList.length = 16 := rfl
  omega

theorem backupPath_ne_inPlacePath : backupPath fileName ≠ inPlacePath fileName := fun h => by
  have hlen := congrArg List.length h
  rw [backupPath, inPlacePath, List.length_append, List.length_append] at hlen
  have horig : ".rural-pipe.orig".toList.length = 16 := rfl
  have hbak : ".bak".toList.length = 4 := rfl
  omega

theorem editFile_none (h : fs.file fileName.chars = none) :
    (editFile fs fileName edit).1.file fileName.chars = none := by
  simp only [editFile, h, FileSystem.unlink]
  rw [Function.update_of_ne inPlacePath_ne, h]

/-- Editing has no backup of its own. -/
theorem editFile_backup (fs : FileSystem) (fileName : FileName) (edit : Text → Text) :
    (editFile fs fileName edit).1.file (backupPath fileName) = fs.file (backupPath fileName) := by
  cases h : fs.file fileName.chars with
  | none =>
    simp only [editFile, h, FileSystem.unlink]
    rw [Function.update_of_ne backupPath_ne_inPlacePath]
  | some old =>
    simp only [editFile, h, FileSystem.unlink, FileSystem.write]
    rw [Function.update_of_ne backupPath_ne_inPlacePath, Function.update_of_ne backupPath_ne]

/-- Editing twice is as editing once where the edited text is edited to itself. -/
theorem editFile_twice :
    TwiceAsOnce fileName (fun fs => editFile fs fileName edit) fs ↔
      ∀ old, fs.file fileName.chars = some old → edit (edit old.content) = edit old.content := by
  rw [TwiceAsOnce, SameFiles, and_iff_left (editFile_backup _ fileName edit)]
  cases h : fs.file fileName.chars with
  | none =>
    rw [editFile_none (editFile_none h), editFile_none h]
    exact iff_of_true rfl fun old hold => by cases hold
  | some old =>
    rw [editFile_some (editFile_some h), editFile_some h]
    constructor
    · intro hsame old' hold
      cases hold
      exact congrArg File.content (Option.some.inj hsame)
    · intro hsame
      rw [hsame old rfl]

theorem chmodExecutable_twice (executableClause : Option Text) (mode : BitVec 9) :
    chmodExecutable executableClause (chmodExecutable executableClause mode) =
      chmodExecutable executableClause mode := by
  cases executableClause with
  | none => rfl
  | some clause =>
    simp only [chmodExecutable, Option.isSome_some, if_true, BitVec.or_assoc, BitVec.or_self]

/-- A rewritten file has the text. -/
theorem Rewrite.call_file (h : fs.file fileName.chars = some old) :
    (c.call fileName fs).1.file fileName.chars =
      some ⟨c.text fileName, chmodExecutable c.executableClause old.mode⟩ := by
  simp only [Rewrite.call, Rewrite.text, rewriteConfigFile, h, FileSystem.write]
  rw [Function.update_self]

/-- And its backup the text that was there, in place of the one before. -/
theorem Rewrite.call_backup (h : fs.file fileName.chars = some old) :
    (c.call fileName fs).1.file (backupPath fileName) = match fs.file (backupPath fileName) with
      | some backup => some ⟨old.content, backup.mode⟩
      | none => some ⟨old.content, old.mode &&& ~~~fs.umask⟩ := by
  simp only [Rewrite.call, rewriteConfigFile, h, FileSystem.cp, FileSystem.write]
  rw [Function.update_of_ne backupPath_ne]
  cases fs.file (backupPath fileName) with
  | none => exact Function.update_self ..
  | some backup => exact Function.update_self ..

/-- In place of a missing file comes one with the text, and no backup. -/
theorem Rewrite.call_new (h : fs.file fileName.chars = none) (hdir : fs.hasDirectory fileName.chars = true) :
    (c.call fileName fs).1.file fileName.chars =
        some ⟨c.text fileName, chmodExecutable c.executableClause (0o666#9 &&& ~~~fs.umask)⟩ ∧
      (c.call fileName fs).1.file (backupPath fileName) = fs.file (backupPath fileName) := by
  simp only [Rewrite.call, Rewrite.text, rewriteConfigFile, h, hdir, if_true, FileSystem.write]
  exact ⟨Function.update_self .., Function.update_of_ne backupPath_ne ..⟩

/-- A call on the text it would write changes the backup, unless that has it too. -/
theorem Rewrite.call_same {mode : BitVec 9} (h : fs.file fileName.chars = some ⟨c.text fileName, mode⟩)
    (hmode : chmodExecutable c.executableClause mode = mode) :
    SameFiles fileName fs (c.call fileName fs).1 ↔
      ∃ backup, fs.file (backupPath fileName) = some backup ∧ backup.content = c.text fileName := by
  rw [SameFiles, Rewrite.call_file h, hmode, h, and_iff_right rfl, Rewrite.call_backup h]
  cases fs.file (backupPath fileName) with
  | none => exact iff_of_false (fun hsome => by cases hsome) fun hsome => by cases hsome.choose_spec.1
  | some backup =>
    simp only [Option.some.injEq]
    constructor
    · intro hsame
      exact ⟨backup, rfl, (congrArg File.content hsame).symm⟩
    · intro hsame
      obtain ⟨backup', rfl, htext⟩ := hsame
      rw [← htext]

theorem rewriteConfigFile_twice : TwiceAsOnce fileName (c.call fileName) fs ↔ RewriteSettles fs fileName c := by
  unfold TwiceAsOnce RewriteSettles
  cases h : fs.file fileName.chars with
  | some old =>
    rw [Rewrite.call_same (Rewrite.call_file h) (chmodExecutable_twice ..), Rewrite.call_backup h]
    cases fs.file (backupPath fileName) with
    | none => simp only [Option.some.injEq, exists_eq_left']
    | some backup => simp only [Option.some.injEq, exists_eq_left']
  | none =>
    cases hdir : fs.hasDirectory fileName.chars with
    | true =>
      obtain ⟨hfile, hbackup⟩ := Rewrite.call_new (c := c) h hdir
      rw [Rewrite.call_same hfile (chmodExecutable_twice ..), hbackup]
      constructor
      · exact fun hsame _ => hsame
      · exact fun hsettles => hsettles rfl
    | false =>
      have hraise : (c.call fileName fs).1 = fs := by
        simp only [Rewrite.call, rewriteConfigFile, h, hdir, Bool.false_eq_true, if_false]
      rw [hraise, hraise]
      exact iff_of_true ⟨rfl, rfl⟩ fun hd => by cases hd

theorem rewriteConfigFiles_concat (fs : FileSystem) (calls : List Rewrite) (c : Rewrite) :
    rewriteConfigFiles fs fileName (calls ++ [c]) = (c.call fileName (rewriteConfigFiles fs fileName calls)).1 := by
  rw [rewriteConfigFiles, List.foldl_append]
  rfl

/-- The file after calls in turn has the text of the last one. -/
theorem rewriteConfigFiles_file (h : fs.file fileName.chars = some old) (calls : List Rewrite) :
    ∃ now, (rewriteConfigFiles fs fileName calls).file fileName.chars = some now ∧
      now.content = (calls.getLast?.map (·.text fileName)).getD old.content := by
  induction calls using List.reverseRecOn with
  | nil => exact ⟨old, h, rfl⟩
  | append_singleton calls c ih =>
    obtain ⟨now, hnow, -⟩ := ih
    rw [rewriteConfigFiles_concat, List.getLast?_concat]
    exact ⟨_, Rewrite.call_file hnow, rfl⟩

/-- The backup has what the last call but one left. -/
theorem keepsBackup_iff (fs : FileSystem) (fileName : FileName) (calls : List Rewrite) (c : Rewrite) :
    KeepsBackup fileName fs (rewriteConfigFiles fs fileName (calls ++ [c])) ↔ RewritesKeep fs fileName calls := by
  refine forall_congr' fun old => forall_congr' fun h => ?_
  obtain ⟨now, hnow, hcontent⟩ := rewriteConfigFiles_file h calls
  rw [rewriteConfigFiles_concat, Rewrite.call_backup hnow]
  have hiff : now.content = old.content ↔ ∀ last ∈ calls.getLast?, last.text fileName = old.content := by
    rw [hcontent]
    cases calls.getLast? with
    | none => exact iff_of_true rfl fun last hl => by cases hl
    | some last => simp only [Option.map_some, Option.getD_some, Option.mem_some_iff, forall_eq']
  rw [← hiff]
  cases (rewriteConfigFiles fs fileName calls).file (backupPath fileName) with
  | none => simp only [Option.some.injEq, exists_eq_left']
  | some backup => simp only [Option.some.injEq, exists_eq_left']

end

/-! ## The option of two calls -/

section
variable {fileName : FileName} {name value before l t : Text} {ls : List Text}

theorem setOption_hit (h : readLines (universalNewlines t) = l :: ls) (hhit : ∃ l' ∈ l :: ls, name <:+: l') :
    setOption fileName name value t = top fileName l ++ ((l :: ls).map (optionPrinted name value)).flatten := by
  rw [setOption_cons h, if_pos hhit, List.append_nil]

/-- An option of several lines makes every file longer. -/
theorem setOption_grows (fileName : FileName) (hmany : ¬ OneLine (name ++ '=' :: value))
    (h : readLines (universalNewlines t) = l :: ls) :
    (universalNewlines t).count '\n' < (universalNewlines (setOption fileName name value t)).count '\n' := by
  have hpos := count_universalNewlines_pos (name ++ '=' :: value)
  have htwo : 2 ≤ (universalNewlines (name ++ '=' :: value ++ ['\n'])).count '\n' := by
    unfold OneLine at hmany
    omega
  have hlined := h ▸ lined_readLines (universalNewlines t)
  have hflat : (l :: ls).flatten = universalNewlines t := by rw [← h, flatten_readLines]
  rw [setOption_cons h]
  by_cases hhit : ∃ l' ∈ l :: ls, name <:+: l'
  · rw [if_pos hhit, List.append_nil, universalNewlines_append (return_not_mem_top fileName l),
      hlined.universalNewlines_map (optionPrinted_cases name value), List.count_append, ← hflat, List.count_flatten,
      List.count_flatten, List.map_map]
    refine Nat.lt_of_lt_of_le (List.sum_lt_sum _ _ ?_ ?_) (Nat.le_add_left _ _)
    · intro l' hl'
      have hle := hlined.count_le l' hl'
      rcases optionPrinted_cases name value l' with hp | hp <;> rw [Function.comp_apply, hp]
      · rw [universalNewlines_eq (return_not_mem_line (h ▸ hl'))]
      · omega
    · obtain ⟨l', hl', hname⟩ := hhit
      have hle := hlined.count_le l' hl'
      refine ⟨l', hl', ?_⟩
      rw [Function.comp_apply, optionPrinted_hit hname]
      omega
  · have hid : ∀ l' ∈ l :: ls, optionPrinted name value l' = l' :=
      fun l' hl' => optionPrinted_kept fun hn => hhit ⟨l', hl', hn⟩
    have hle := count_universalNewlines_le (name ++ '=' :: value)
    rw [if_neg hhit, List.map_congr_left hid, List.map_id', hflat, List.append_assoc,
      universalNewlines_append (return_not_mem_top fileName l), universalNewlines_append (return_not_mem t),
      List.count_append, List.count_append]
    omega

/-- The line that an option is read as has its name. -/
theorem name_prefix_of_oneLine (h : OneLine (name ++ '=' :: value)) :
    ∃ w, Plain w ∧ (name ++ '=' :: value = w ∨ name ++ '=' :: value = w ++ ['\r']) ∧
      universalNewlines (name ++ '=' :: value ++ ['\n']) = w ++ ['\n'] ∧ name <+: w := by
  obtain ⟨w, hw, ho, hread⟩ := h.cases
  refine ⟨w, hw, ho, hread, ?_⟩
  rcases ho with ho | ho
  · exact ho ▸ List.prefix_append _ _
  · -- The return is the value's last character.
    rcases List.eq_nil_or_concat value with rfl | ⟨value', c, rfl⟩
    · have hlast := (List.append_inj' ho rfl).2
      simp at hlast
    · rw [List.concat_eq_append, ← List.cons_append, ← List.append_assoc] at ho
      exact (List.append_inj' ho rfl).1 ▸ List.prefix_append _ _

/-- An option right behind what is there is on the last line. -/
theorem readLines_appended (hone : OneLine (name ++ '=' :: value)) (hret : '\r' ∉ t) :
    ∃ init last, readLines (universalNewlines (t ++ (name ++ '=' :: value))) = init ++ [last] ∧ name <:+: last := by
  obtain ⟨w, hw, ho, -, hname⟩ := name_prefix_of_oneLine hone
  obtain ⟨lines, rest, hl, hr, rfl⟩ := exists_joinLines t
  have hrest : '\n' ∉ rest ++ w := fun hc => (List.mem_append.1 hc).elim hr hw.1
  have hlast : name <:+: rest ++ w := hname.isInfix.trans (List.suffix_append _ _).isInfix
  rw [universalNewlines_append hret]
  rcases ho with ho | ho
  · have hjoin : joinLines lines rest ++ w = joinLines lines (rest ++ w) := List.append_assoc ..
    have hne : rest ++ w ≠ [] := by
      refine List.append_ne_nil_of_right_ne_nil _ ?_
      rw [← ho]
      exact List.append_ne_nil_of_right_ne_nil _ (List.cons_ne_nil _ _)
    refine ⟨lines.map (· ++ ['\n']), rest ++ w, ?_, hlast⟩
    rw [ho, universalNewlines_eq hw.2, hjoin, readLines_joinLines hl hrest, unterminated_of_ne hne]
  · have hjoin : joinLines lines rest ++ (w ++ ['\n']) = joinLines lines ((rest ++ w) ++ ['\n']) := by
      simp only [joinLines, List.append_assoc]
    refine ⟨lines.map (· ++ ['\n']), rest ++ w ++ ['\n'], ?_, hlast.trans (List.prefix_append _ _).isInfix⟩
    rw [ho, universalNewlines_append hw.2, show universalNewlines ['\r'] = ['\n'] from rfl, hjoin, readLines_lines hl,
      readLines_line hrest]
    rfl

theorem getLast?_of_oneLine (hone : OneLine (name ++ '=' :: value)) : (name ++ '=' :: value).getLast? ≠ some '\n' := by
  obtain ⟨w, hw, ho, -⟩ := name_prefix_of_oneLine hone
  intro hlast
  rcases ho with ho | ho <;> rw [ho] at hlast
  · exact hw.1 (List.mem_of_getLast? hlast)
  · simp at hlast

/-- There it is found, and gets an end. -/
theorem setOption_appended (hone : OneLine (name ++ '=' :: value)) (hret : '\r' ∉ t) :
    setOption fileName name value (t ++ (name ++ '=' :: value)) ≠ t ++ (name ++ '=' :: value) := by
  obtain ⟨init, last, hread, hlast⟩ := readLines_appended hone hret
  cases hcons : init ++ [last] with
  | nil => simp at hcons
  | cons l ls =>
    have hhit : ∃ l' ∈ l :: ls, name <:+: l' := ⟨last, by rw [← hcons]; simp, hlast⟩
    rw [setOption_hit (hread.trans hcons) hhit, ← hcons, List.map_append, List.map_singleton, List.flatten_append,
      List.flatten_singleton, optionPrinted_hit hlast]
    intro hsame
    have hend := congrArg List.getLast? hsame
    rw [List.getLast?_append_of_ne_nil _ (List.append_ne_nil_of_right_ne_nil _ (List.cons_ne_nil _ _)),
      ← List.append_assoc, ← List.append_assoc, List.getLast?_concat] at hend
    exact getLast?_of_oneLine hone hend.symm

theorem mentionsScript_read (hone : OneLine (name ++ '=' :: value)) :
    mentionsScript (universalNewlines (name ++ '=' :: value ++ ['\n'])) = mentionsScript (name ++ '=' :: value) := by
  obtain ⟨w, -, ho, hread, -⟩ := name_prefix_of_oneLine hone
  rw [hread, mentionsScript_line]
  rcases ho with ho | ho <;> rw [ho]
  exact decide_eq_decide.2 (infix_line (by decide)).symm

/-- What the line that was printed is read as. -/
def optionRead (name value l : Text) : Text := universalNewlines (optionPrinted name value l)

/-- What was printed for a line is printed again when it is read. -/
theorem optionPrinted_again (hone : OneLine (name ++ '=' :: value)) (hret : '\r' ∉ l) :
    optionPrinted name value (optionRead name value l) = optionPrinted name value l := by
  obtain ⟨w, -, -, hread, hname⟩ := name_prefix_of_oneLine hone
  by_cases hhit : name <:+: l
  · have hagain : name <:+: w ++ ['\n'] := hname.isInfix.trans (List.prefix_append _ _).isInfix
    rw [optionRead, optionPrinted_hit hhit, hread, optionPrinted_hit hagain]
  · rw [optionRead, optionPrinted_kept hhit, universalNewlines_eq hret, optionPrinted_kept hhit]

/-- The marker has no equals sign, so it is not put back for itself. -/
theorem optionPrinted_marker (hname : '\n' ∉ name) :
    optionPrinted name value (marker fileName ++ ['\n']) = marker fileName ++ ['\n'] ↔
      ¬ name <:+: marker fileName := by
  by_cases hhit : name <:+: marker fileName
  · refine iff_of_false ?_ (not_not_intro hhit)
    rw [optionPrinted_hit ((infix_line hname).2 hhit)]
    intro hsame
    refine eq_not_mem_marker fileName ?_
    rw [← (List.append_inj' hsame rfl).1]
    exact List.mem_append_right _ (List.mem_cons_self ..)
  · exact iff_of_true (optionPrinted_kept fun hn => hhit ((infix_line hname).1 hn)) hhit

/-- The second call reads, below the marker, what was printed for the lines. -/
theorem readLines_setOption_hit (fileName : FileName) (hone : OneLine (name ++ '=' :: value))
    (h : readLines (universalNewlines before) = l :: ls) (hhit : ∃ l' ∈ l :: ls, name <:+: l') :
    readLines (universalNewlines (setOption fileName name value before)) =
      (if mentionsScript l then [] else [marker fileName ++ ['\n']]) ++ (l :: ls).map (optionRead name value) := by
  obtain ⟨w, hw, -, hread, -⟩ := name_prefix_of_oneLine hone
  have hlined := h ▸ lined_readLines (universalNewlines before)
  have hlined' : Lined ((l :: ls).map (optionRead name value)) := by
    refine hlined.map hw.1 fun l' hl' => ?_
    rcases optionPrinted_cases name value l' with hp | hp <;> rw [optionRead, hp]
    · exact .inl (universalNewlines_eq (return_not_mem_line (h ▸ hl')))
    · exact .inr hread
  have hprinted : universalNewlines ((l :: ls).map (optionPrinted name value)).flatten =
      ((l :: ls).map (optionRead name value)).flatten :=
    hlined.universalNewlines_map (optionPrinted_cases name value)
  rw [setOption_hit h hhit, universalNewlines_append (return_not_mem_top fileName l), hprinted, readLines_top,
    hlined'.readLines_flatten]

theorem exists_optionRead (hone : OneLine (name ++ '=' :: value)) (hhit : ∃ l' ∈ ls, name <:+: l') :
    ∃ l' ∈ ls.map (optionRead name value), name <:+: l' := by
  obtain ⟨w, -, -, hread, hname⟩ := name_prefix_of_oneLine hone
  obtain ⟨l', hl', hn⟩ := hhit
  refine ⟨_, List.mem_map_of_mem hl', ?_⟩
  rw [optionRead, optionPrinted_hit hn, hread]
  exact hname.isInfix.trans (List.prefix_append _ _).isInfix

/-- Where the first call found the name, the second prints what that one did, but
for the marker and the line below it. -/
theorem setOption_found (hone : OneLine (name ++ '=' :: value)) (h : readLines (universalNewlines before) = l :: ls)
    (hhit : ∃ l' ∈ l :: ls, name <:+: l') :
    setOption fileName name value (setOption fileName name value before) = setOption fileName name value before ↔
      if mentionsScript l then name <:+: l → mentionsScript (name ++ '=' :: value) = true
      else ¬ name <:+: marker fileName := by
  obtain ⟨w, hw, -, -, hname⟩ := name_prefix_of_oneLine hone
  have hret : ∀ l' ∈ l :: ls, '\r' ∉ l' := fun l' hl' => return_not_mem_line (h ▸ hl')
  have hread := readLines_setOption_hit fileName hone h hhit
  have hhit' := exists_optionRead hone hhit
  have hagain : ((l :: ls).map (optionRead name value)).map (optionPrinted name value) =
      (l :: ls).map (optionPrinted name value) := by
    rw [List.map_map]
    exact List.map_congr_left fun l' hl' => optionPrinted_again hone (hret l' hl')
  by_cases hm : mentionsScript l = true
  · rw [if_pos hm, List.nil_append] at hread
    have htwice : setOption fileName name value (setOption fileName name value before) =
        top fileName (optionRead name value l) ++ ((l :: ls).map (optionPrinted name value)).flatten := by
      rw [setOption_hit hread hhit', ← hagain]
      rfl
    rw [if_pos hm, htwice, setOption_hit h hhit, top_eq_nil.2 hm, List.nil_append, List.append_left_eq_self, top_eq_nil,
      optionRead]
    by_cases hn : name <:+: l
    · rw [optionPrinted_hit hn, mentionsScript_read hone]
      exact ⟨fun hs _ => hs, fun hs => hs hn⟩
    · rw [optionPrinted_kept hn, universalNewlines_eq (hret l (List.mem_cons_self ..))]
      exact iff_of_true hm fun hn' => absurd hn' hn
  · rw [if_neg hm, List.singleton_append] at hread
    have htop : top fileName l = marker fileName ++ ['\n'] := if_neg hm
    have hhit₁ := hhit'.imp fun l' => And.imp_left (List.mem_cons_of_mem (marker fileName ++ ['\n']))
    have htwice : setOption fileName name value (setOption fileName name value before) =
        optionPrinted name value (marker fileName ++ ['\n']) ++
          ((l :: ls).map (optionPrinted name value)).flatten := by
      rw [setOption_hit hread hhit₁, top_eq_nil.2 (mentionsScript_marker fileName _), List.map_cons, hagain,
        List.flatten_cons, List.nil_append]
    rw [if_neg hm, htwice, setOption_hit h hhit, htop, List.append_left_inj]
    exact optionPrinted_marker fun hc => hw.1 (hname.subset hc)

/-- Where it found none, the second finds the option behind the last line. -/
theorem setOption_missing (hone : OneLine (name ++ '=' :: value)) (h : readLines (universalNewlines before) = l :: ls)
    (hmissing : ¬ ∃ l' ∈ l :: ls, name <:+: l') :
    setOption fileName name value (setOption fileName name value before) ≠ setOption fileName name value before := by
  have hid : ∀ l' ∈ l :: ls, optionPrinted name value l' = l' :=
    fun l' hl' => optionPrinted_kept fun hn => hmissing ⟨l', hl', hn⟩
  have hafter : setOption fileName name value before =
      top fileName l ++ universalNewlines before ++ (name ++ '=' :: value) := by
    rw [setOption_cons h, if_neg hmissing, List.map_congr_left hid, List.map_id', ← h, flatten_readLines]
  have hret : '\r' ∉ top fileName l ++ universalNewlines before :=
    fun hc => (List.mem_append.1 hc).elim (return_not_mem_top fileName l) (return_not_mem before)
  rw [hafter]
  exact setOption_appended hone hret

/-- An option of several lines never settles. -/
theorem setOption_twice_many (hmany : ¬ OneLine (name ++ '=' :: value)) :
    setOption fileName name value (setOption fileName name value before) ≠ setOption fileName name value before := by
  intro hsame
  cases h : readLines (universalNewlines (setOption fileName name value before)) with
  | nil =>
    have hnil : universalNewlines (setOption fileName name value before) = [] := by
      rw [← flatten_readLines (universalNewlines _), h]
      rfl
    rw [setOption_nil h] at hsame
    rw [← hsame] at hnil
    exact universalNewlines_ne_nil (List.append_ne_nil_of_left_ne_nil (marker_ne_nil fileName) _) hnil
  | cons l ls =>
    have hgrows := setOption_grows fileName hmany h
    rw [hsame] at hgrows
    exact Nat.lt_irrefl _ hgrows

theorem settingSettles_cons (h : readLines (universalNewlines before) = l :: ls) :
    SettingSettles fileName name value before ↔ OneLine (name ++ '=' :: value) ∧ (∃ l' ∈ l :: ls, name <:+: l') ∧
      if mentionsScript l then name <:+: l → mentionsScript (name ++ '=' :: value) = true
      else ¬ name <:+: marker fileName := by
  rw [SettingSettles, h]
  refine and_congr_right' ⟨fun hs => ?_, fun hs => ⟨l, ls, rfl, hs⟩⟩
  obtain ⟨l', ls', hcons, hs⟩ := hs
  cases hcons
  exact hs

/-- The second call leaves what the first one left exactly where that has settled. -/
theorem setOption_twice : setOption fileName name value (setOption fileName name value before) =
    setOption fileName name value before ↔ SettingSettles fileName name value before := by
  by_cases hone : OneLine (name ++ '=' :: value)
  · cases h : readLines (universalNewlines before) with
    | nil =>
      rw [setOption_nil h]
      refine iff_of_false (setOption_appended hone (marker_plain fileName).2) ?_
      intro hsettles
      obtain ⟨-, l, ls, hcons, -⟩ := hsettles
      cases h.symm.trans hcons
    | cons l ls =>
      rw [settingSettles_cons h, and_iff_right hone]
      by_cases hhit : ∃ l' ∈ l :: ls, name <:+: l'
      · rw [setOption_found hone h hhit, and_iff_right hhit]
      · exact iff_of_false (setOption_missing hone h hhit) fun hs => hhit hs.1
  · exact iff_of_false (setOption_twice_many hone) fun hsettles => hone hsettles.1

end

/-! ## The line of two calls -/

section
variable {fileName : FileName} {line before l t : Text} {ls : List Text}

/-- A line behind a text that mentions the script on top is read after it. -/
theorem appendLine_again (h : readLines t = l :: ls) (hm : mentionsScript l = true) (hret : '\r' ∉ t) :
    appendLine fileName line (t ++ line) = t ++ line ↔
      line = [] ∨ line ∈ readLines (t ++ universalNewlines line) := by
  obtain ⟨r, ls', hread⟩ := readLines_append h (universalNewlines line)
  have hm' : mentionsScript (l ++ r) = true :=
    decide_eq_true ((of_decide_eq_true hm).trans (List.prefix_append l r).isInfix)
  rw [← universalNewlines_append hret] at hread
  rw [appendLine_cons hread, top_eq_nil.2 hm', List.nil_append, universalNewlines_append hret]
  by_cases hmem : line ∈ readLines (t ++ universalNewlines line)
  · -- What is found has no return.
    have hline : '\r' ∉ line := return_not_mem_line ((universalNewlines_append hret line).symm ▸ hmem)
    refine iff_of_true ?_ (.inr hmem)
    rw [if_pos hmem, List.append_nil, universalNewlines_eq hline]
  · rw [if_neg hmem, or_iff_left hmem, List.append_assoc, List.append_right_inj]
    constructor
    · intro hsame
      by_contra hne
      exact universalNewlines_ne_nil hne (List.append_left_eq_self.1 hsame)
    · rintro rfl
      rfl

/-- Behind the marker alone a line is not found. -/
theorem appendLine_twice_nil (h : readLines (universalNewlines before) = []) :
    appendLine fileName line (appendLine fileName line before) = appendLine fileName line before ↔ line = [] := by
  have hmarker := marker_plain fileName
  have hread : readLines (marker fileName) = [marker fileName] := by
    rw [readLines_rest hmarker.1, unterminated_of_ne (marker_ne_nil fileName)]
  have hm : mentionsScript (marker fileName) = true := by
    have := mentionsScript_marker fileName []
    rwa [List.append_nil] at this
  rw [appendLine_nil (congrArg (List.map lineBody) h), appendLine_again hread hm hmarker.2, or_iff_left_iff_imp]
  intro hmem
  have hself := (lined_readLines _).readLines_mem line hmem
  have hret : '\r' ∉ line := return_not_mem_line ((universalNewlines_append hmarker.2 line).symm ▸ hmem)
  rw [universalNewlines_eq hret, readLines_rest_append hmarker.1 hself, List.mem_singleton] at hmem
  exact absurd (List.append_left_eq_self.1 hmem.symm) (marker_ne_nil fileName)

/-- Behind a file's lines it is found where it is a line of its own. -/
theorem mem_readLines_append (hne : before ≠ []) (hmem : line ∉ readLines (universalNewlines before)) :
    line ∈ readLines (universalNewlines before ++ universalNewlines line) ↔
      Terminated before ∧ readLines (universalNewlines line) = [line] := by
  obtain ⟨lines, rest, hl, hr, h⟩ := exists_plain before
  have hl' : ∀ l ∈ lines, '\n' ∉ l := fun l hl'' => (hl l hl'').1
  have hread : readLines (universalNewlines before ++ universalNewlines line) =
      lines.map (· ++ ['\n']) ++ readLines (rest ++ universalNewlines line) := by
    rw [h, ← readLines_lines hl']
    exact congrArg readLines (List.append_assoc ..)
  rw [h, readLines_lines hl', List.mem_append, not_or] at hmem
  rw [hread, List.mem_append, or_iff_right hmem.1, terminated_iff hr h]
  constructor
  · intro hfound
    have hself := (lined_readLines _).readLines_mem line hfound
    have hret : '\r' ∉ line :=
      not_mem_line (fun hc => (List.mem_append.1 hc).elim hr.2 (return_not_mem line)) hfound
    rw [universalNewlines_eq hret] at hfound ⊢
    refine ⟨?_, hself⟩
    by_cases hrest : rest = []
    · refine ⟨?_, hrest⟩
      rintro rfl
      rw [hrest] at h
      exact universalNewlines_ne_nil hne h
    · rw [readLines_rest_append hr.1 hself, List.mem_singleton] at hfound
      exact absurd (List.append_left_eq_self.1 hfound.symm) hrest
  · intro hown
    obtain ⟨⟨-, rfl⟩, hself⟩ := hown
    rw [List.nil_append, hself]
    exact List.mem_singleton_self line

/-- The second call appends the line again, unless that is empty or is found. -/
theorem appendLine_twice :
    appendLine fileName line (appendLine fileName line before) = appendLine fileName line before ↔
      LineSettles fileName line before := by
  unfold LineSettles
  cases h : readLines (universalNewlines before) with
  | nil =>
    rw [appendLine_twice_nil h]
    constructor
    · exact .inl
    · intro hsettles
      rcases hsettles with hline | hline | ⟨l, ls, hcons, -⟩
      · exact hline
      · cases hline
      · cases hcons
  | cons l ls =>
    -- What comes before the line mentions the script on top.
    obtain ⟨l₁, ls₁, hread₁, hm₁⟩ : ∃ l₁ ls₁, readLines (top fileName l ++ universalNewlines before) = l₁ :: ls₁ ∧
        mentionsScript l₁ = true := by
      rw [readLines_top, h]
      by_cases hm : mentionsScript l = true
      · exact ⟨l, ls, by rw [if_pos hm]; rfl, hm⟩
      · exact ⟨_, l :: ls, by rw [if_neg hm]; rfl, mentionsScript_marker fileName _⟩
    have hret : '\r' ∉ top fileName l ++ universalNewlines before :=
      fun hc => (List.mem_append.1 hc).elim (return_not_mem_top fileName l) (return_not_mem before)
    by_cases hmem : line ∈ l :: ls
    · -- Found once, it is found again.
      have hagain : line ∈ readLines (universalNewlines (top fileName l ++ universalNewlines before)) := by
        rw [universalNewlines_eq hret, readLines_top, h]
        exact List.mem_append_right _ hmem
      refine iff_of_true ?_ (.inr (.inl hmem))
      rw [← universalNewlines_eq hret] at hread₁
      rw [appendLine_cons h, h, if_pos hmem, List.append_nil, appendLine_cons hread₁, if_pos hagain, List.append_nil,
        top_eq_nil.2 hm₁, List.nil_append, universalNewlines_eq hret]
    · have hne : before ≠ [] := by
        rintro rfl
        cases h
      rw [appendLine_cons h, h, if_neg hmem, appendLine_again hread₁ hm₁ hret, or_iff_right hmem, List.append_assoc,
        readLines_top, List.mem_append, mem_readLines_append hne (h ▸ hmem)]
      by_cases hm : mentionsScript l = true
      · simp [hm]
      · simp [hm]

end

/-! ## The helpers -/

theorem setConfigOption_twice (fs : FileSystem) (fileName : FileName) (option : Text) :
    TwiceAsOnce fileName (setConfigOption · fileName option) fs ↔ OptionSettles fs fileName option := by
  unfold OptionSettles
  by_cases h : ∃ name value, option.splitOn '=' = [name, value]
  · obtain ⟨name, value, h⟩ := h
    have hcall : (setConfigOption · fileName option) =
        fun fs => editFile fs fileName (setOption fileName name value) := by
      funext fs
      rw [setConfigOption, h]
    rw [hcall, editFile_twice]
    simp only [setOption_twice]
    constructor
    · intro hs name' value' old hsplit hold
      cases h.symm.trans hsplit
      exact hs old hold
    · intro hs old hold
      exact hs name value old h hold
  · have hcall : ∀ fs : FileSystem, (setConfigOption fs fileName option).1 = fs := by
      intro fs
      unfold setConfigOption
      split
      · rename_i name value hsplit
        exact absurd ⟨name, value, hsplit⟩ h
      · rfl
    rw [TwiceAsOnce, hcall, hcall]
    exact iff_of_true ⟨rfl, rfl⟩ fun name value _ hsplit => absurd ⟨name, value, hsplit⟩ h

theorem appendConfigLine_twice (fs : FileSystem) (fileName : FileName) (line : Text) :
    TwiceAsOnce fileName (appendConfigLine · fileName line) fs ↔ AppendSettles fs fileName line := by
  unfold appendConfigLine AppendSettles
  rw [editFile_twice]
  simp only [appendLine_twice]

/-- **Running the configuration twice changes nothing more exactly where it
settles**: the file has the text that would be generated, and the option or the line
is read back as it was written. And the backup keeps what the file had through one
rewriting, or more if the last but one generated just that. -/
theorem configuration_twice_iff (fs : FileSystem) (fileName : FileName) :
    (∀ c : Rewrite, TwiceAsOnce fileName (c.call fileName) fs ↔ RewriteSettles fs fileName c) ∧
    (∀ option, TwiceAsOnce fileName (setConfigOption · fileName option) fs ↔ OptionSettles fs fileName option) ∧
    (∀ line, TwiceAsOnce fileName (appendConfigLine · fileName line) fs ↔ AppendSettles fs fileName line) ∧
    ∀ (calls : List Rewrite) (c : Rewrite),
      KeepsBackup fileName fs (rewriteConfigFiles fs fileName (calls ++ [c])) ↔ RewritesKeep fs fileName calls :=
  ⟨fun _ => rewriteConfigFile_twice, setConfigOption_twice fs fileName, appendConfigLine_twice fs fileName,
    keepsBackup_iff fs fileName⟩

/-- `/etc/dnsmasq.conf`. -/
def dnsmasqConf : FileName := ⟨"/etc/dnsmasq.conf".toList, by decide, by decide⟩

def dnsmasqRewrite : Rewrite := ⟨none, "domain=rural".toList⟩

/-- `/etc/sysctl.conf`. -/
def sysctlConf : FileName := ⟨"/etc/sysctl.conf".toList, by decide, by decide⟩

def ipForward : Text := "net.ipv4.ip_forward=1".toList

/-- The second rewriting puts the generated text into the backup, and the original
is lost; and an option in an empty file, or a line behind one without an end, is not
left alone. -/
theorem not_configuration_twice :
    ¬ TwiceAsOnce dnsmasqConf (dnsmasqRewrite.call dnsmasqConf) (.oneFile dnsmasqConf "port=53\n".toList) ∧
    ¬ KeepsBackup dnsmasqConf (.oneFile dnsmasqConf "port=53\n".toList)
      (rewriteConfigFiles (.oneFile dnsmasqConf "port=53\n".toList) dnsmasqConf [dnsmasqRewrite, dnsmasqRewrite]) ∧
    ¬ TwiceAsOnce sysctlConf (setConfigOption · sysctlConf ipForward) (.oneFile sysctlConf []) ∧
    ¬ TwiceAsOnce rtTables (appendConfigLine · rtTables rpiTable) (.oneFile rtTables "255\tlocal".toList) := by
  refine ⟨?_, ?_, ?_, ?_⟩
  · rw [rewriteConfigFile_twice, RewriteSettles, FileSystem.oneFile_file]
    intro hs
    cases hs
  · intro hs
    have htext := (keepsBackup_iff _ dnsmasqConf [dnsmasqRewrite] dnsmasqRewrite).1 hs _ (FileSystem.oneFile_file ..)
      dnsmasqRewrite rfl
    cases htext
  · rw [setConfigOption_twice]
    intro hs
    obtain ⟨-, l, ls, hread, -⟩ := hs "net.ipv4.ip_forward".toList "1".toList _ (by decide +kernel)
      (FileSystem.oneFile_file ..)
    cases hread
  · rw [appendConfigLine_twice]
    intro hs
    rcases hs _ (FileSystem.oneFile_file ..) with hline | hline | ⟨l, ls, -, ⟨-, hline⟩ | ⟨hterm, -⟩⟩
    · cases hline
    · exact absurd hline (by decide +kernel)
    · exact absurd hline (by decide +kernel)
    · exact absurd hterm (by decide +kernel)

end RuralPipe
