import MissionCompiler.Lib.Lines

/-!
# What the experiment runner sees of the working tree

`_git` and `_dirt` of the runner. An entry of `git status --porcelain` is two status columns, a
blank and a path, and `_dirt` cuts the path out at the fourth column. `_git` strips the output
before that, so a blank in the first column of the first entry is gone when the columns are
counted, and the path is cut one character late.
-/

namespace MissionCompiler.Experiments

open Lib

/-! ## The code -/

/-- How `subprocess.run` ended: it could not start, or the process exited. -/
inductive GitRun where
  | unstarted (exc : String)
  | exited (returncode : Int) (stdout stderr : String)

/-- The text of `GitUnavailable`. -/
abbrev GitUnavailable := String

/-- `_git`, by how the process ended. -/
def git (args : List String) : GitRun → Except GitUnavailable String
  | .unstarted exc => .error ("git could not be run: " ++ exc)
  | .exited returncode stdout stderr =>
    if returncode ≠ 0 then
      .error ("git " ++ " ".intercalate args ++ " failed (" ++ toString returncode ++ "): " ++
        pyStrip stderr)
    else .ok (pyStrip stdout)

/-- `ig.rstrip("/") + "/"`. -/
def withSlash (ig : String) : List Char := ig.toList.rdropWhile (· == '/') ++ ['/']

/-- The `any(…)` of the loop. -/
def forgiven (ignoring : List String) (path : String) : Bool :=
  ignoring.any fun ig => path == ig || (withSlash ig).isPrefixOf path.toList

/-- `line[3:].strip().strip('"')`. -/
def pathOfLine (line : List Char) : String :=
  String.ofList (stripChars (· == '"') (stripChars isPySpace (line.drop 3)))

/-- `_dirt`. -/
def dirt (ignoring : List String) (status : GitRun) : Except GitUnavailable (List String) := do
  let stdout ← git ["status", "--porcelain"] status
  return ((splitLines stdout.toList).map pathOfLine).filter fun path => !forgiven ignoring path

/-! ## What git prints -/

inductive StatusColumn where
  | blank
  | modified
  | typeChanged
  | added
  | deleted
  | renamed
  | copied
  | unmerged
  | untracked
  | ignored
deriving DecidableEq

def StatusColumn.char : StatusColumn → Char
  | .blank => ' '
  | .modified => 'M'
  | .typeChanged => 'T'
  | .added => 'A'
  | .deleted => 'D'
  | .renamed => 'R'
  | .copied => 'C'
  | .unmerged => 'U'
  | .untracked => '?'
  | .ignored => '!'

/-- A path that is printed as it is: there is something of it, and no space or quote. -/
structure PlainPath (path : String) : Prop where
  ne_nil : path.toList ≠ []
  plain : ∀ c ∈ path.toList, isPySpace c = false ∧ c ≠ '"'

/-- An entry `XY PATH`. -/
structure StatusEntry where
  index : StatusColumn
  worktree : StatusColumn
  path : String
  plain : PlainPath path

def StatusEntry.line (e : StatusEntry) : List Char :=
  e.index.char :: e.worktree.char :: ' ' :: e.path.toList

/-- The output of `git status --porcelain`: one entry a line. -/
def porcelain (entries : List StatusEntry) : String :=
  String.ofList ((entries.map StatusEntry.line).flatMap (· ++ ['\n']))

/-! ## What is promised -/

/-- A path is one of the forgiven paths, or beneath one. -/
def Forgiven (ignoring : List String) (path : String) : Prop :=
  ∃ ig ∈ ignoring, path = ig ∨ ∃ rest, path.toList = withSlash ig ++ rest

theorem forgiven_iff {ignoring : List String} {path : String} :
    forgiven ignoring path = true ↔ Forgiven ignoring path := by
  rw [forgiven, List.any_eq_true]
  refine exists_congr fun ig => and_congr_right fun _ => ?_
  rw [Bool.or_eq_true, beq_iff_eq, List.isPrefixOf_iff_prefix]
  exact or_congr_right ⟨fun ⟨rest, h⟩ => ⟨rest, h.symm⟩, fun ⟨rest, h⟩ => ⟨rest, h.symm⟩⟩

/-- The changes nobody forgives, in the order git names them. -/
def unforgiven (ignoring : List String) (entries : List StatusEntry) : List String :=
  (entries.map StatusEntry.path).filter fun path => !forgiven ignoring path

/-- The working tree is read as git printed it. -/
def ReadsWorktree (ignoring : List String) (entries : List StatusEntry) (stderr : String) : Prop :=
  dirt ignoring (.exited 0 (porcelain entries) stderr) = .ok (unforgiven ignoring entries)

/-! ## Reading one line -/

/-- The characters of the path that are missing when the entry is the first one: what was stripped
before the columns are counted. -/
def StatusEntry.lost (e : StatusEntry) : Nat :=
  match e.index, e.worktree with
  | .blank, .blank => 3
  | .blank, _ => 1
  | _, _ => 0

/-- What is left of the path of the first entry. -/
def StatusEntry.firstPath (e : StatusEntry) : String :=
  String.ofList (e.path.toList.drop e.lost)

theorem StatusColumn.char_space {x : StatusColumn} (h : x ≠ .blank) :
    isPySpace x.char = false := by
  cases x <;> first | exact absurd rfl h | decide

/-- A path without spaces and quotes is read as it is. -/
theorem read_plain {cs : List Char} (h : ∀ c ∈ cs, isPySpace c = false ∧ c ≠ '"') :
    String.ofList (stripChars (· == '"') (stripChars isPySpace cs)) = String.ofList cs := by
  have hspaces : stripChars isPySpace cs = cs := stripChars_eq_self fun c hc => (h c hc).1
  rw [hspaces, stripChars_eq_self fun c hc => beq_false_of_ne (h c hc).2]

theorem pathOfLine_line (e : StatusEntry) : pathOfLine e.line = e.path := by
  have hdrop : e.line.drop 3 = e.path.toList := rfl
  rw [pathOfLine, hdrop, read_plain e.plain.plain, String.ofList_toList]

/-- The path begins with a character that is not stripped. -/
theorem StatusEntry.dropWhile_path (e : StatusEntry) :
    e.path.toList.dropWhile isPySpace = e.path.toList := by
  obtain ⟨c, cs, hpath⟩ := List.exists_cons_of_ne_nil e.plain.ne_nil
  have hc := (e.plain.plain c (hpath ▸ List.mem_cons_self)).1
  rw [hpath, List.dropWhile_cons_of_neg (by simp [hc])]

/-- The first line loses its blank columns. -/
theorem drop_first (e : StatusEntry) :
    (e.line.dropWhile isPySpace).drop 3 = e.path.toList.drop e.lost := by
  have hblank : isPySpace StatusColumn.blank.char = true := by decide
  obtain ⟨x, y, path, plain⟩ := e
  have hpath := StatusEntry.dropWhile_path ⟨x, y, path, plain⟩
  by_cases hx : x = .blank
  · subst hx
    rw [StatusEntry.line, List.dropWhile_cons_of_pos hblank]
    by_cases hy : y = .blank
    · subst hy
      rw [List.dropWhile_cons_of_pos hblank, List.dropWhile_cons_of_pos (by decide), hpath]
      rfl
    · rw [List.dropWhile_cons_of_neg (by simp [StatusColumn.char_space hy])]
      cases y <;> first | exact absurd rfl hy | rfl
  · rw [StatusEntry.line, List.dropWhile_cons_of_neg (by simp [StatusColumn.char_space hx])]
    cases x <;> first | exact absurd rfl hx | rfl

theorem pathOfLine_first (e : StatusEntry) :
    pathOfLine (e.line.dropWhile isPySpace) = e.firstPath := by
  rw [pathOfLine, drop_first, StatusEntry.firstPath]
  exact read_plain fun c hc => e.plain.plain c (List.mem_of_mem_drop hc)

/-- A blank first column costs the path a character at least. -/
theorem firstPath_ne {e : StatusEntry} (h : e.index = .blank) : e.firstPath ≠ e.path := by
  have hlost : 1 ≤ e.lost := by
    rw [StatusEntry.lost, h]
    cases e.worktree <;> decide
  have hpos := List.length_pos_iff.mpr e.plain.ne_nil
  intro heq
  have hlength := congrArg (fun s : String => s.toList.length) heq
  simp only [StatusEntry.firstPath, String.toList_ofList, List.length_drop] at hlength
  omega

theorem firstPath_of_ne {e : StatusEntry} (h : e.index ≠ .blank) : e.firstPath = e.path := by
  have hlost : e.lost = 0 := by
    rw [StatusEntry.lost]
    split <;> first | exact absurd ‹_› h | rfl
  rw [StatusEntry.firstPath, hlost, List.drop_zero, String.ofList_toList]

/-! ## Reading all of them -/

theorem endsSolid_line (e : StatusEntry) : EndsSolid e.line := by
  have hne := e.plain.ne_nil
  refine ⟨e.path.toList.getLast hne, ?_, (e.plain.plain _ (List.getLast_mem hne)).1⟩
  show ([e.index.char, e.worktree.char, ' '] ++ e.path.toList).getLast? = _
  rw [List.getLast?_append, List.getLast?_eq_some_getLast hne]
  rfl

theorem line_no_break (e : StatusEntry) : ∀ c ∈ e.line, isLineBreak c = false := by
  have hcolumn : ∀ x : StatusColumn, isLineBreak x.char = false := by
    intro x
    cases x <;> decide
  simp only [StatusEntry.line, List.forall_mem_cons]
  refine ⟨hcolumn _, hcolumn _, by decide, fun c hc => ?_⟩
  by_contra hbreak
  have hspace := isPySpace_of_isLineBreak (Bool.of_not_eq_false hbreak)
  rw [(e.plain.plain c hc).1] at hspace
  exact Bool.noConfusion hspace

/-- The paths `_dirt` reads: the first one may have lost characters. -/
def readPaths : List StatusEntry → List String
  | [] => []
  | e :: entries => e.firstPath :: entries.map StatusEntry.path

/-- The lines of the stripped output, and the paths cut out of them. -/
theorem paths_of_porcelain (entries : List StatusEntry) :
    (splitLines (pyStrip (porcelain entries)).toList).map pathOfLine = readPaths entries := by
  cases entries with
  | nil => rfl
  | cons e entries =>
    have hsolid : ∀ line ∈ e.line :: entries.map StatusEntry.line, EndsSolid line := by
      rw [List.forall_mem_cons, List.forall_mem_map]
      exact ⟨endsSolid_line e, fun f _ => endsSolid_line f⟩
    have hlines : ∀ line ∈ e.line.dropWhile isPySpace :: entries.map StatusEntry.line,
        line ≠ [] ∧ ∀ c ∈ line, isLineBreak c = false := by
      rw [List.forall_mem_cons, List.forall_mem_map]
      refine ⟨⟨(endsSolid_line e).dropWhile.ne_nil, fun c hc => ?_⟩, fun f _ => ?_⟩
      · exact line_no_break e c ((List.dropWhile_sublist _).subset hc)
      · exact ⟨(endsSolid_line f).ne_nil, line_no_break f⟩
    rw [pyStrip, String.toList_ofList, porcelain, String.toList_ofList, List.map_cons,
      strip_lines hsolid, splitLines_intercalate hlines, List.map_cons, pathOfLine_first,
      List.map_map, readPaths]
    exact congrArg _ (List.map_congr_left fun f _ => pathOfLine_line f)

theorem dirt_porcelain (ignoring : List String) (entries : List StatusEntry) (stderr : String) :
    dirt ignoring (.exited 0 (porcelain entries) stderr) =
      .ok ((readPaths entries).filter fun path => !forgiven ignoring path) := by
  rw [← paths_of_porcelain]
  rfl

/-! ## When the reading is right -/

/-- No entry is shortened, or the one that is is forgiven either way. -/
def FirstIsRead (ignoring : List String) (entries : List StatusEntry) : Prop :=
  ∀ e, entries.head? = some e →
    e.index ≠ .blank ∨ (Forgiven ignoring e.path ∧ Forgiven ignoring e.firstPath)

/-- The working tree is read as git printed it exactly when the first entry has a mark in its
first column, or its path is forgiven, whole and cut short. -/
theorem readsWorktree_iff (ignoring : List String) (entries : List StatusEntry)
    (stderr : String) :
    ReadsWorktree ignoring entries stderr ↔ FirstIsRead ignoring entries := by
  rw [ReadsWorktree, dirt_porcelain, Except.ok.injEq]
  cases entries with
  | nil => exact ⟨fun _ e he => absurd he (by simp), fun _ => rfl⟩
  | cons e entries =>
    have hfirst : FirstIsRead ignoring (e :: entries) ↔ e.index ≠ .blank ∨
        (forgiven ignoring e.path = true ∧ forgiven ignoring e.firstPath = true) := by
      rw [forgiven_iff, forgiven_iff]
      exact ⟨fun h => h e rfl, fun h f hf => Option.some.inj hf ▸ h⟩
    rw [hfirst, readPaths, unforgiven, List.map_cons, List.filter_cons, List.filter_cons]
    by_cases hindex : e.index = .blank
    · have hne := firstPath_ne hindex
      cases hpath : forgiven ignoring e.path <;> cases hcut : forgiven ignoring e.firstPath
      all_goals simp [hindex, hne]
    · rw [firstPath_of_ne hindex]
      exact ⟨fun _ => .inl hindex, fun _ => rfl⟩

theorem plainPath_xdocs : PlainPath "xdocs/a.txt" := by
  have hall : ("xdocs/a.txt".toList.all fun c => !isPySpace c && c != '"') = true := by decide
  exact ⟨by decide, fun c hc => by simpa using List.all_eq_true.mp hall c hc⟩

/-- A file changed in the working tree and not in the index. -/
def changedFile : StatusEntry := ⟨.blank, .modified, "xdocs/a.txt", plainPath_xdocs⟩

/-- Alone it is read as another file, and is not seen when that one is forgiven. -/
theorem changedFile_misread :
    ¬ ReadsWorktree [] [changedFile] "" ∧
      dirt [] (.exited 0 (porcelain [changedFile]) "") = .ok ["docs/a.txt"] ∧
      ¬ ReadsWorktree ["docs/a.txt"] [changedFile] "" ∧
      dirt ["docs/a.txt"] (.exited 0 (porcelain [changedFile]) "") = .ok [] := by
  have hplain : dirt [] (.exited 0 (porcelain [changedFile]) "") = .ok ["docs/a.txt"] := by
    decide +kernel
  have hforgiving : dirt ["docs/a.txt"] (.exited 0 (porcelain [changedFile]) "") = .ok [] := by
    decide +kernel
  refine ⟨fun h => ?_, hplain, fun h => ?_, hforgiving⟩
  · rw [ReadsWorktree, hplain] at h
    exact absurd h (by decide +kernel)
  · rw [ReadsWorktree, hforgiving] at h
    exact absurd h (by decide +kernel)

end MissionCompiler.Experiments
