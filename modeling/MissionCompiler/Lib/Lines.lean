import MissionCompiler.Lib.Python

/-!
# Lines

`str.splitlines`, and what it makes of lines that were written down one after the other. No line
break is left in a line, and a break at the end of the text begins no further line.
-/

namespace Lib

/-- The characters `str.splitlines` breaks at. -/
def isLineBreak (c : Char) : Bool :=
  let n := c.toNat
  (0x0A ≤ n && n ≤ 0x0D) || (0x1C ≤ n && n ≤ 0x1E) || n == 0x85 || n == 0x2028 || n == 0x2029

/-- `str.splitlines()`; a carriage return before a newline is of one break with it. -/
def splitLines : List Char → List (List Char)
  | [] => []
  | c :: cs =>
    if c = '\r' ∧ cs.head? = some '\n' then splitLines cs
    else if isLineBreak c then [] :: splitLines cs
    else match splitLines cs with
      | [] => [[c]]
      | line :: lines => (c :: line) :: lines

/-- Every line break is white space. -/
theorem isPySpace_of_isLineBreak {c : Char} (h : isLineBreak c = true) : isPySpace c = true := by
  simp only [isLineBreak, isPySpace, Bool.or_eq_true, Bool.and_eq_true, decide_eq_true_eq,
    beq_iff_eq] at h ⊢
  omega

theorem splitLines_cons {c : Char} {cs : List Char} (h : isLineBreak c = false) :
    splitLines (c :: cs) = match splitLines cs with
      | [] => [[c]]
      | line :: lines => (c :: line) :: lines := by
  have hreturn : ¬ (c = '\r' ∧ cs.head? = some '\n') := by
    rintro ⟨rfl, _⟩
    exact absurd h (by decide)
  rw [splitLines, if_neg hreturn, if_neg (by simp [h])]

/-- A line ends at the break after it. -/
theorem splitLines_append_newline {line : List Char} (h : ∀ c ∈ line, isLineBreak c = false)
    (cs : List Char) : splitLines (line ++ '\n' :: cs) = line :: splitLines cs := by
  induction line with
  | nil =>
    rw [List.nil_append, splitLines, if_neg (by simp), if_pos (by decide)]
  | cons c line ih =>
    rw [List.forall_mem_cons] at h
    rw [List.cons_append, splitLines_cons h.1, ih h.2]

/-- The last line needs no break after it. -/
theorem splitLines_line {line : List Char} (hne : line ≠ [])
    (h : ∀ c ∈ line, isLineBreak c = false) : splitLines line = [line] := by
  induction line with
  | nil => exact absurd rfl hne
  | cons c line ih =>
    rw [List.forall_mem_cons] at h
    rw [splitLines_cons h.1]
    by_cases hline : line = []
    · rw [hline]
      rfl
    · rw [ih hline h.2]

/-- Lines with a newline between them are read back. -/
theorem splitLines_intercalate {lines : List (List Char)}
    (h : ∀ line ∈ lines, line ≠ [] ∧ ∀ c ∈ line, isLineBreak c = false) :
    splitLines (['\n'].intercalate lines) = lines := by
  induction lines with
  | nil => rfl
  | cons line lines ih =>
    obtain ⟨⟨hne, hline⟩, hlines⟩ := List.forall_mem_cons.mp h
    by_cases hlast : lines = []
    · rw [hlast, List.intercalate_singleton, splitLines_line hne hline]
    · rw [List.intercalate_cons_of_ne_nil hlast, List.append_assoc, List.singleton_append,
        splitLines_append_newline hline, ih hlines]

/-- Lines with a newline after each are the joined lines and one newline more. -/
theorem flatMap_newline {lines : List (List Char)} (hne : lines ≠ []) :
    lines.flatMap (· ++ ['\n']) = ['\n'].intercalate lines ++ ['\n'] := by
  induction lines with
  | nil => exact absurd rfl hne
  | cons line lines ih =>
    by_cases hlast : lines = []
    · rw [hlast, List.intercalate_singleton]
      simp
    · rw [List.flatMap_cons, ih hlast, List.intercalate_cons_of_ne_nil hlast]
      simp only [List.append_assoc]

/-! ## Stripped text -/

section

variable {space : Char → Bool} {front text back cs : List Char}

/-- What is dropped from the front of a text is what stands before its first other character. -/
theorem dropWhile_front (hfront : ∀ c ∈ front, space c = true)
    (htext : ∀ c, text.head? = some c → space c = false) :
    (front ++ text).dropWhile space = text := by
  rw [List.dropWhile_append_of_pos hfront]
  cases text with
  | nil => rfl
  | cons c text => exact List.dropWhile_cons_of_neg (by simp [htext c rfl])

theorem rdropWhile_back (hback : ∀ c ∈ back, space c = true)
    (htext : ∀ c, text.getLast? = some c → space c = false) :
    (text ++ back).rdropWhile space = text := by
  have hdrop : (back.reverse ++ text.reverse).dropWhile space = text.reverse := by
    refine dropWhile_front (fun c hc => hback c (List.mem_reverse.mp hc)) fun c hc => htext c ?_
    rwa [List.head?_reverse] at hc
  rw [List.rdropWhile, List.reverse_append, hdrop, List.reverse_reverse]

/-- A dropped front leaves a text whose first character stays. -/
theorem exists_front (space : Char → Bool) (cs : List Char) :
    ∃ front, (∀ c ∈ front, space c = true) ∧ cs = front ++ cs.dropWhile space ∧
      ∀ c, (cs.dropWhile space).head? = some c → space c = false := by
  refine ⟨cs.takeWhile space, fun c hc => List.mem_takeWhile_imp hc,
    List.takeWhile_append_dropWhile.symm, fun c hc => ?_⟩
  have hne : cs.dropWhile space ≠ [] := by
    intro hnil
    rw [hnil] at hc
    cases hc
  rw [List.head?_eq_some_head hne, Option.some.injEq] at hc
  rw [← hc]
  exact List.head_dropWhile_not space hne

/-- What is left of a text is a part of it between such characters, and has none at its ends. -/
theorem stripChars_eq_iff : stripChars space cs = text ↔
    (∃ front back, (∀ c ∈ front, space c = true) ∧ (∀ c ∈ back, space c = true) ∧
      cs = front ++ text ++ back) ∧
    (∀ c, text.head? = some c → space c = false) ∧
      ∀ c, text.getLast? = some c → space c = false := by
  constructor
  · rintro rfl
    obtain ⟨front, hfront, hcs, hhead⟩ := exists_front space cs
    obtain ⟨back, hback, hrest, hlast⟩ := exists_front space (cs.dropWhile space).reverse
    have hstrip : stripChars space cs =
        ((cs.dropWhile space).reverse.dropWhile space).reverse := rfl
    have hrest : cs.dropWhile space = stripChars space cs ++ back.reverse := by
      rw [hstrip, ← List.reverse_append, ← hrest, List.reverse_reverse]
    refine ⟨⟨front, back.reverse, hfront, fun c hc => hback c (List.mem_reverse.mp hc), ?_⟩,
      fun c hc => ?_, fun c hc => ?_⟩
    · rw [List.append_assoc, ← hrest]
      exact hcs
    · refine hhead c ?_
      rw [hrest, List.head?_append, hc]
      rfl
    · refine hlast c ?_
      rwa [hstrip, List.getLast?_reverse] at hc
  · rintro ⟨⟨front, back, hfront, hback, rfl⟩, hhead, hlast⟩
    have hall : stripChars space (front ++ text ++ back) = (text ++ back).rdropWhile space := by
      rw [stripChars, List.append_assoc]
      cases text with
      | nil =>
        have hspaces : ∀ c ∈ front ++ back, space c = true := by
          intro c hc
          rcases List.mem_append.mp hc with hc | hc
          · exact hfront c hc
          · exact hback c hc
        rw [List.nil_append, List.dropWhile_eq_nil_iff.mpr hspaces, List.rdropWhile_nil,
          List.rdropWhile_eq_nil_iff.mpr hback]
      | cons c text =>
        rw [dropWhile_front hfront fun d hd => hhead d (by simpa using hd)]
    rw [hall, rdropWhile_back hback hlast]

end

/-! ## Stripped lines -/

/-- The last character of joined lines is the last one of the last line. -/
theorem getLast?_intercalate {lines : List (List Char)} {line : List Char} (hne : line ≠ []) :
    (['\n'].intercalate (lines ++ [line])).getLast? = line.getLast? := by
  induction lines with
  | nil => rw [List.nil_append, List.intercalate_singleton]
  | cons first lines ih =>
    rw [List.cons_append, List.intercalate_cons_of_ne_nil (by simp), List.getLast?_append, ih]
    rw [List.getLast?_eq_some_getLast hne]
    rfl

/-- A line that does not end in white space. -/
def EndsSolid (line : List Char) : Prop := ∃ c, line.getLast? = some c ∧ isPySpace c = false

theorem EndsSolid.ne_nil {line : List Char} (h : EndsSolid line) : line ≠ [] := by
  rintro rfl
  obtain ⟨c, hc, _⟩ := h
  cases hc

theorem endsSolid_intercalate {lines : List (List Char)} (hne : lines ≠ [])
    (h : ∀ line ∈ lines, EndsSolid line) : EndsSolid (['\n'].intercalate lines) := by
  obtain ⟨front, line, rfl⟩ := (List.eq_nil_or_concat' lines).resolve_left hne
  have hline := h line (List.mem_append_right _ List.mem_cons_self)
  rw [EndsSolid, getLast?_intercalate hline.ne_nil]
  exact hline

/-- White space before a line that does not end in it is dropped, and the line goes on. -/
theorem EndsSolid.dropWhile {line : List Char} (h : EndsSolid line) :
    EndsSolid (line.dropWhile isPySpace) := by
  obtain ⟨c, hc, hsolid⟩ := h
  have hne : line.dropWhile isPySpace ≠ [] := by
    intro hnil
    have hspace := List.dropWhile_eq_nil_iff.mp hnil c (List.mem_of_getLast? hc)
    rw [hsolid] at hspace
    exact Bool.noConfusion hspace
  obtain ⟨spaces, hline⟩ := List.dropWhile_suffix isPySpace (l := line)
  have hlast := congrArg List.getLast? hline
  rw [List.getLast?_append, List.getLast?_eq_some_getLast hne, Option.some_or, hc] at hlast
  exact ⟨c, (List.getLast?_eq_some_getLast hne).trans hlast, hsolid⟩

/-- Printed lines lose the white space before the first of them and the last newline. -/
theorem strip_lines {first : List Char} {rest : List (List Char)}
    (h : ∀ line ∈ first :: rest, EndsSolid line) :
    stripChars isPySpace ((first :: rest).flatMap (· ++ ['\n'])) =
      ['\n'].intercalate (first.dropWhile isPySpace :: rest) := by
  obtain ⟨hfirst, hrest⟩ := List.forall_mem_cons.mp h
  have hdrop := hfirst.dropWhile
  have hfront : ∀ tail, (first ++ tail).dropWhile isPySpace =
      first.dropWhile isPySpace ++ tail := by
    intro tail
    rw [List.dropWhile_append, if_neg (by simpa using hdrop.ne_nil)]
  have hjoined : (['\n'].intercalate (first :: rest) ++ ['\n']).dropWhile isPySpace =
      ['\n'].intercalate (first.dropWhile isPySpace :: rest) ++ ['\n'] := by
    by_cases hnil : rest = []
    · rw [hnil, List.intercalate_singleton, List.intercalate_singleton, hfront]
    · rw [List.intercalate_cons_of_ne_nil hnil, List.intercalate_cons_of_ne_nil hnil]
      simp only [List.append_assoc, hfront]
  obtain ⟨c, hlast, hsolid⟩ := endsSolid_intercalate (List.cons_ne_nil _ _)
    (List.forall_mem_cons.mpr ⟨hdrop, hrest⟩)
  rw [flatMap_newline (List.cons_ne_nil _ _), stripChars, hjoined,
    List.rdropWhile_concat_pos _ _ _ (by decide), List.rdropWhile_eq_self_iff]
  intro hne
  rw [List.getLast?_eq_some_getLast hne] at hlast
  rw [Option.some.inj hlast, hsolid]
  decide

end Lib
