/-
The helpers of `configure_client.py` that write configuration files.

`rewrite_config_file` keeps a backup and replaces the file; `set_config_option`
and `append_config_line` edit it through `fileinput`, which reads the lines of the
old file and takes what is printed as the new one, and then append what they have
not found. These two are one loop (`editInPlace`) with different lines to look
for.

The helpers run as root: a call fails where the file, or its directory, is
missing, and for an option that is not of the form `name=value`.
-/
import RuralPipe.TextLines
import Mathlib.Logic.Function.Basic

namespace RuralPipe

open TextLines

/-- What the shell takes as it is. -/
def wordChar (c : Char) : Bool := c.isAlphanum || c = '/' || c = '.' || c = '_' || c = '-'

/-- The name of a configuration file; it does not begin as an option would. -/
structure FileName where
  chars : Text
  word : chars.all wordChar = true
  start : chars.head?.any (· ≠ '-') = true

namespace ConfigureClient

/-- What the first line is searched for. -/
def script : Text := "configure_client.py".toList

def mentionsScript (line : Text) : Bool := script <:+: line

def markerHead : Text := "# THIS FILE ".toList
def markerMiddle : Text := " WAS MODIFIED BY RuralPupe's ".toList
def markerTail : Text := " SCRIPT".toList

/-- The line that is put on top. -/
def marker (fileName : FileName) : Text := markerHead ++ fileName.chars ++ markerMiddle ++ script ++ markerTail

/-! ## Editing in place -/

/-- The flags of the loop, and what it printed. -/
structure InPlace where
  atFirstLine : Bool
  isSet : Bool
  printed : Text

/-- One turn of the loop: `hit` is the line that is looked for, and `put` what is
printed in its place. -/
def inPlaceLine (fileName : FileName) (hit : Text → Bool) (put : Text → Text) (s : InPlace) (inputLine : Text) :
    InPlace :=
  let printed :=
    if s.atFirstLine && !mentionsScript inputLine then s.printed ++ marker fileName ++ ['\n'] else s.printed
  if hit inputLine then { atFirstLine := false, isSet := true, printed := printed ++ put inputLine }
  else { atFirstLine := false, isSet := s.isSet, printed := printed ++ inputLine }

/-- The content after the loop over the lines of `before`, and after the appending
of `missing` if none was hit. -/
def editInPlace (fileName : FileName) (hit : Text → Bool) (put : Text → Text) (missing before : Text) : Text :=
  let s := (readLines (universalNewlines before)).foldl (inPlaceLine fileName hit put)
    { atFirstLine := true, isSet := false, printed := [] }
  let top := if s.atFirstLine then marker fileName else []
  let appended := if s.isSet then [] else missing
  s.printed ++ (if s.atFirstLine || !s.isSet then top ++ appended else [])

/-- The content `set_config_option` leaves, with the option split. -/
def setOption (fileName : FileName) (name value before : Text) : Text :=
  editInPlace fileName (fun inputLine => name <:+: inputLine) (fun _ => name ++ '=' :: value ++ ['\n'])
    (name ++ '=' :: value) before

/-- The content `append_config_line` leaves. -/
def appendLine (fileName : FileName) (line before : Text) : Text :=
  editInPlace fileName (fun inputLine => line = inputLine) id line before

/-! ## The files -/

/-- A file, with its permissions. -/
structure File where
  content : Text
  mode : BitVec 9

/-- The files by their paths, the paths whose directory exists, and the process's
`umask`. -/
structure FileSystem where
  file : Text → Option File
  hasDirectory : Text → Bool
  umask : BitVec 9

inductive PyException
  | valueError
  | fileNotFound
  deriving DecidableEq

namespace FileSystem

def write (fs : FileSystem) (path : Text) (file : File) : FileSystem :=
  { fs with file := Function.update fs.file path (some file) }

def unlink (fs : FileSystem) (path : Text) : FileSystem :=
  { fs with file := Function.update fs.file path none }

/-- `cp source target`. -/
def cp (fs : FileSystem) (source : File) (target : Text) : FileSystem :=
  match fs.file target with
  | some old => fs.write target { content := source.content, mode := old.mode }
  | none => fs.write target { content := source.content, mode := source.mode &&& ~~~fs.umask }

/-- A single file, of these permissions. -/
def oneFile (fileName : FileName) (content : Text) : FileSystem :=
  ⟨fun path => if path = fileName.chars then some ⟨content, 0o644#9⟩ else none, fun _ => true, 0o022#9⟩

theorem oneFile_file (fileName : FileName) (content : Text) :
    (oneFile fileName content).file fileName.chars = some ⟨content, 0o644#9⟩ := if_pos rfl

end FileSystem

/-- Where `rewrite_config_file` puts the old file, and `fileinput` the one it
reads. -/
def backupPath (fileName : FileName) : Text := fileName.chars ++ ".rural-pipe.orig".toList
def inPlacePath (fileName : FileName) : Text := fileName.chars ++ ".bak".toList

/-- The text of a rewritten file. -/
def generated (fileName : FileName) (executableClause : Option Text) (contents : Text) : Text :=
  let rule := List.replicate 99 '#'
  executableClause.getD [] ++ '\n' :: rule ++ "\n# THIS FILE ".toList ++ fileName.chars ++
    " WAS AUTO GENERATED BY RuralPipe's configure_client.py SCRIPT\n#\n# DO NOT EDIT\n".toList ++ rule ++
    '\n' :: contents

/-- `chmod` for an executable. -/
def chmodExecutable (executableClause : Option Text) (mode : BitVec 9) : BitVec 9 :=
  if executableClause.isSome then mode ||| 0o111#9 else mode

/-- The file system after the call, and what it raised. -/
def rewriteConfigFile (fs : FileSystem) (fileName : FileName) (executableClause : Option Text) (contents : Text) :
    FileSystem × Option PyException :=
  let content := generated fileName executableClause contents
  match fs.file fileName.chars with
  | some old =>
    ((fs.cp old (backupPath fileName)).write fileName.chars
      { content, mode := chmodExecutable executableClause old.mode }, none)
  | none =>
    if fs.hasDirectory fileName.chars then
      (fs.write fileName.chars
        { content, mode := chmodExecutable executableClause (0o666#9 &&& ~~~fs.umask) }, none)
    else (fs, some .fileNotFound)

/-- `fileinput` renames the file, over a file of that name, and unlinks it when the
loop is over. -/
def editFile (fs : FileSystem) (fileName : FileName) (edit : Text → Text) : FileSystem × Option PyException :=
  match fs.file fileName.chars with
  | some old =>
    ((fs.write fileName.chars { old with content := edit old.content }).unlink (inPlacePath fileName), none)
  | none => (fs.unlink (inPlacePath fileName), some .fileNotFound)

def setConfigOption (fs : FileSystem) (fileName : FileName) (option : Text) : FileSystem × Option PyException :=
  match option.splitOn '=' with
  | [name, value] => editFile fs fileName (setOption fileName name value)
  | _ => (fs, some .valueError)

def appendConfigLine (fs : FileSystem) (fileName : FileName) (line : Text) : FileSystem × Option PyException :=
  editFile fs fileName (appendLine fileName line)

/-! ## What the loop leaves -/

section
variable {fileName : FileName} {hit : Text → Bool} {put : Text → Text} {missing before : Text}

/-- What the loop prints for a line. -/
def printedFor (hit : Text → Bool) (put : Text → Text) (line : Text) : Text := if hit line then put line else line

/-- What it prints before the first one. -/
def top (fileName : FileName) (line : Text) : Text :=
  if mentionsScript line then [] else marker fileName ++ ['\n']

/-- After the first line the flag `atFirstLine` is down. -/
theorem foldl_inPlaceLine (ls : List Text) (isSet : Bool) (printed : Text) :
    ls.foldl (inPlaceLine fileName hit put) { atFirstLine := false, isSet, printed } =
      { atFirstLine := false, isSet := isSet || ls.any hit,
        printed := printed ++ (ls.map (printedFor hit put)).flatten } := by
  induction ls generalizing isSet printed with
  | nil => simp
  | cons l ls ih =>
    rw [List.foldl_cons]
    cases hl : hit l with
    | true => simp [inPlaceLine, ih, printedFor, hl]
    | false => simp [inPlaceLine, ih, printedFor, hl]

/-- An empty file gets the marker and what is missing, on one line. -/
theorem editInPlace_nil (h : readLines (universalNewlines before) = []) :
    editInPlace fileName hit put missing before = marker fileName ++ missing := by
  simp [editInPlace, h]

/-- Another one gets the marker on top, every line as it is printed, and what is
missing right after the last. -/
theorem editInPlace_cons {l : Text} {ls : List Text} (h : readLines (universalNewlines before) = l :: ls) :
    editInPlace fileName hit put missing before =
      top fileName l ++ ((l :: ls).map (printedFor hit put)).flatten ++
        if (l :: ls).any hit then [] else missing := by
  have hfirst : inPlaceLine fileName hit put { atFirstLine := true, isSet := false, printed := [] } l =
      { atFirstLine := false, isSet := hit l, printed := top fileName l ++ printedFor hit put l } := by
    cases hl : hit l <;> cases hm : mentionsScript l <;> simp [inPlaceLine, printedFor, top, hl, hm]
  simp only [editInPlace, h, List.foldl_cons, hfirst, foldl_inPlaceLine, Bool.false_or, List.any_cons, List.map_cons,
    List.flatten_cons, Bool.false_eq_true, if_false, List.nil_append, List.append_assoc]
  by_cases hset : (hit l || ls.any hit) = true
  · simp only [hset, Bool.not_true, Bool.false_eq_true, if_false, if_true]
  · simp only [hset, Bool.not_eq_true', if_true]

end

/-! ## Marker and file names -/

variable (fileName : FileName)

theorem not_mem_fileName {c : Char} (h : wordChar c = false) : c ∉ fileName.chars := by
  intro hc
  have hword := List.all_eq_true.1 fileName.word c hc
  rw [h] at hword
  cases hword

theorem not_mem_marker {c : Char} (h : wordChar c = false)
    (hc : c ∉ markerHead ∧ c ∉ markerMiddle ∧ c ∉ script ∧ c ∉ markerTail) : c ∉ marker fileName := by
  simp only [marker, List.mem_append, not_or]
  exact ⟨⟨⟨⟨hc.1, not_mem_fileName fileName h⟩, hc.2.1⟩, hc.2.2.1⟩, hc.2.2.2⟩

/-- The marker is one line, and sets nothing. -/
theorem marker_plain : Plain (marker fileName) :=
  ⟨not_mem_marker fileName (by decide) (by decide), not_mem_marker fileName (by decide) (by decide)⟩

theorem eq_not_mem_marker : '=' ∉ marker fileName := not_mem_marker fileName (by decide) (by decide)

theorem marker_ne_nil : marker fileName ≠ [] := List.append_ne_nil_of_right_ne_nil _ (by decide)

/-- Whoever reads it finds the script's name. -/
theorem mentionsScript_marker (t : Text) : mentionsScript (marker fileName ++ t) = true := by
  refine decide_eq_true ⟨markerHead ++ fileName.chars ++ markerMiddle, markerTail ++ t, ?_⟩
  simp only [marker, List.append_assoc]

/-! ## What comes on top -/

/-- The line that comes on top of these. -/
def topLines (fileName : FileName) : List Text → List Text
  | [] => []
  | l :: _ => if mentionsScript l then [] else [marker fileName]

variable {fileName} {l rest : Text} {lines : List Text}

theorem mentionsScript_line (l : Text) : mentionsScript (l ++ ['\n']) = mentionsScript l :=
  decide_eq_decide.2 (infix_line (by decide))

/-- What the loop prints first, as a line. -/
theorem top_eq {l₀ : Text} {ls : List Text} (h : lines.map (· ++ ['\n']) ++ unterminated rest = l₀ :: ls) :
    top fileName l₀ = joinLines (topLines fileName (lines ++ unterminated rest)) [] := by
  have htop : ∀ l : Text, mentionsScript l₀ = mentionsScript l →
      top fileName l₀ = joinLines (if mentionsScript l then [] else [marker fileName]) [] := by
    intro l hl
    rw [top, hl]
    split <;> simp [joinLines]
  cases lines with
  | nil =>
    rw [List.map_nil, List.nil_append] at h
    rw [List.nil_append, h]
    exact htop l₀ rfl
  | cons l lines =>
    rw [List.map_cons, List.cons_append, List.cons.injEq] at h
    exact htop l (h.1 ▸ mentionsScript_line l)

theorem top_eq_nil : top fileName l = [] ↔ mentionsScript l = true := by
  by_cases h : mentionsScript l = true
  · exact iff_of_true (if_pos h) h
  · rw [top, if_neg h]
    exact iff_of_false (List.append_ne_nil_of_left_ne_nil (marker_ne_nil fileName) _) h

theorem top_cases (fileName : FileName) (l : Text) :
    top fileName l = [] ∨ top fileName l = marker fileName ++ ['\n'] := by
  unfold top
  split
  · exact .inl rfl
  · exact .inr rfl

theorem return_not_mem_top (fileName : FileName) (l : Text) : '\r' ∉ top fileName l := by
  rcases top_cases fileName l with h | h <;> rw [h]
  · exact List.not_mem_nil
  · simp [(marker_plain fileName).2]

theorem readLines_top (fileName : FileName) (l t : Text) :
    readLines (top fileName l ++ t) =
      (if mentionsScript l then [] else [marker fileName ++ ['\n']]) ++ readLines t := by
  unfold top
  split
  · rfl
  · rw [List.append_assoc, List.singleton_append, readLines_line (marker_plain fileName).1]
    rfl

theorem plain_topLines {l : Text} {ls : List Text} (h : l ∈ topLines fileName ls) : Plain l := by
  cases ls with
  | nil => cases h
  | cons l₀ ls =>
    simp only [topLines] at h
    by_cases hm : mentionsScript l₀ = true
    · rw [if_pos hm] at h
      cases h
    · rw [if_neg hm] at h
      exact List.mem_singleton.1 h ▸ marker_plain fileName

theorem topLines_cases (fileName : FileName) (ls : List Text) :
    topLines fileName ls = [] ∨ topLines fileName ls = [marker fileName] := by
  cases ls with
  | nil => exact .inl rfl
  | cons l ls =>
    simp only [topLines]
    by_cases h : mentionsScript l = true
    · exact .inl (if_pos h)
    · exact .inr (if_neg h)

/-! ## Setting an option -/

section
variable {name value t : Text} {ls : List Text}

/-- What is printed for a line: the option's, if the name is in it. -/
def optionPrinted (name value l : Text) : Text := if name <:+: l then name ++ '=' :: value ++ ['\n'] else l

theorem setOption_nil (h : readLines (universalNewlines t) = []) :
    setOption fileName name value t = marker fileName ++ (name ++ '=' :: value) := by
  rw [setOption, editInPlace_nil h]

theorem setOption_cons (h : readLines (universalNewlines t) = l :: ls) :
    setOption fileName name value t =
      top fileName l ++ ((l :: ls).map (optionPrinted name value)).flatten ++
        if ∃ l' ∈ l :: ls, name <:+: l' then [] else name ++ '=' :: value := by
  have hprinted : printedFor (fun inputLine => decide (name <:+: inputLine)) (fun _ => name ++ '=' :: value ++ ['\n']) =
      optionPrinted name value := by
    funext l
    simp only [printedFor, optionPrinted, decide_eq_true_eq]
  rw [setOption, editInPlace_cons h, hprinted]
  simp only [List.any_eq_true, decide_eq_true_eq]

theorem optionPrinted_hit {l : Text} (h : name <:+: l) :
    optionPrinted name value l = name ++ '=' :: value ++ ['\n'] := if_pos h

theorem optionPrinted_kept {l : Text} (h : ¬ name <:+: l) : optionPrinted name value l = l := if_neg h

theorem optionPrinted_cases (name value l : Text) :
    optionPrinted name value l = l ∨ optionPrinted name value l = name ++ '=' :: value ++ ['\n'] := by
  by_cases h : name <:+: l
  · exact .inr (optionPrinted_hit h)
  · exact .inl (optionPrinted_kept h)

end

/-! ## The files of a call -/

variable {fs : FileSystem} {old : File} {edit : Text → Text}

theorem inPlacePath_ne : fileName.chars ≠ inPlacePath fileName := fun h => by
  have hlen := congrArg List.length h
  rw [inPlacePath, List.length_append] at hlen
  have hbak : ".bak".toList.length = 4 := rfl
  omega

/-- Editing replaces the content. -/
theorem editFile_some (h : fs.file fileName.chars = some old) :
    (editFile fs fileName edit).1.file fileName.chars = some { old with content := edit old.content } := by
  simp only [editFile, h, FileSystem.unlink, FileSystem.write]
  rw [Function.update_of_ne inPlacePath_ne, Function.update_self]

end ConfigureClient

end RuralPipe
