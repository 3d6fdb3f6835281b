import Mathlib.Data.List.Chain
import Mathlib.Data.List.DropRight
import Mathlib.Data.List.Infix
import MissionCompiler.Lib.Python

/-!
# Words between dashes

A text is read as its words, the maximal runs without a dash. Runs of dashes and dashes at the
ends are not seen by this reading, so normalizing them away is writing the words down again with
one dash between them (`strip_squeeze`), and such a text can be compared word by word: `dashed`
is injective on lists of words (`words_dashed`).
-/

namespace Lib

/-- The words of a text. -/
def words (cs : List Char) : List (List Char) := (cs.splitOn '-').filter (· ≠ [])

/-- The text of a list of words. -/
def dashed (ws : List (List Char)) : List Char := ['-'].intercalate ws

/-- A word: something, with no dash in it. -/
def IsWord (w : List Char) : Prop := w ≠ [] ∧ '-' ∉ w

/-- `re.sub("-+", "-", s)`: a dash that another one follows is dropped. -/
def squeeze : List Char → List Char
  | [] => []
  | c :: cs => if c = '-' ∧ cs.head? = some '-' then squeeze cs else c :: squeeze cs

/-- `s.rstrip("-")`. -/
def rstripDash (cs : List Char) : List Char := cs.rdropWhile (· == '-')

/-- `s.strip("-")`. -/
def stripDash (cs : List Char) : List Char := stripChars (· == '-') cs

/-! ## Words -/

@[simp] theorem words_nil : words [] = [] := rfl

theorem words_append_dash (a b : List Char) : words (a ++ '-' :: b) = words a ++ words b := by
  rw [words, List.splitOn_append_cons_self, List.filter_append]
  rfl

@[simp] theorem words_dash_cons (b : List Char) : words ('-' :: b) = words b := by
  simpa using words_append_dash [] b

theorem words_eq_singleton {w : List Char} (h : IsWord w) : words w = [w] := by
  rw [words, List.splitOn_eq_singleton h.2, List.filter_cons_of_pos (by simpa using h.1)]
  rfl

/-- The pieces of a split hold the characters of the list, without the separator. -/
theorem mem_splitOn {sep : Char} {cs w : List Char} (h : w ∈ cs.splitOn sep) :
    sep ∉ w ∧ ∀ c ∈ w, c ∈ cs := by
  induction cs generalizing w with
  | nil =>
    rw [List.splitOn_nil, List.mem_singleton] at h
    rw [h]
    exact ⟨List.not_mem_nil, fun c hc => hc⟩
  | cons x cs ih =>
    rw [List.splitOn_cons_eq_if_modifyHead] at h
    by_cases hx : x = sep
    · rw [if_pos (beq_iff_eq.mpr hx)] at h
      rcases List.mem_cons.mp h with rfl | h
      · exact ⟨List.not_mem_nil, fun c hc => absurd hc List.not_mem_nil⟩
      · exact ⟨(ih h).1, fun c hc => List.mem_cons_of_mem x ((ih h).2 c hc)⟩
    · rw [if_neg (by simpa using hx)] at h
      cases hs : cs.splitOn sep with
      | nil => exact absurd hs (List.splitOn_ne_nil _ _)
      | cons v vs =>
        rw [hs, List.modifyHead_cons] at h
        rcases List.mem_cons.mp h with rfl | h
        · obtain ⟨hdash, hmem⟩ := ih (hs ▸ List.mem_cons_self)
          refine ⟨fun hm => ?_, fun c hc => ?_⟩
          · rcases List.mem_cons.mp hm with hm | hm
            · exact hx hm.symm
            · exact hdash hm
          · rcases List.mem_cons.mp hc with rfl | hc
            · exact List.mem_cons_self
            · exact List.mem_cons_of_mem x (hmem c hc)
        · obtain ⟨hdash, hmem⟩ := ih (hs ▸ List.mem_cons_of_mem v h)
          exact ⟨hdash, fun c hc => List.mem_cons_of_mem x (hmem c hc)⟩

/-- Every character that is not a dash is in one of the pieces. -/
theorem exists_mem_splitOn {cs : List Char} {c : Char} (hc : c ∈ cs) (hne : c ≠ '-') :
    ∃ w ∈ cs.splitOn '-', c ∈ w := by
  induction cs with
  | nil => cases hc
  | cons x cs ih =>
    rw [List.splitOn_cons_eq_if_modifyHead]
    by_cases hx : x = '-'
    · rw [if_pos (beq_iff_eq.mpr hx)]
      rcases List.mem_cons.mp hc with rfl | hc
      · exact absurd hx hne
      · obtain ⟨w, hw, hcw⟩ := ih hc
        exact ⟨w, List.mem_cons_of_mem _ hw, hcw⟩
    · rw [if_neg (by simpa using hx)]
      cases hs : cs.splitOn '-' with
      | nil => exact absurd hs (List.splitOn_ne_nil _ _)
      | cons v vs =>
        rw [List.modifyHead_cons]
        rcases List.mem_cons.mp hc with rfl | hc
        · exact ⟨c :: v, List.mem_cons_self, List.mem_cons_self⟩
        · obtain ⟨w, hw, hcw⟩ := ih hc
          rw [hs] at hw
          rcases List.mem_cons.mp hw with rfl | hw
          · exact ⟨x :: w, List.mem_cons_self, List.mem_cons_of_mem x hcw⟩
          · exact ⟨w, List.mem_cons_of_mem _ hw, hcw⟩

theorem isWord_of_mem_words {cs w : List Char} (h : w ∈ words cs) : IsWord w := by
  obtain ⟨hmem, hne⟩ := List.mem_filter.mp h
  exact ⟨by simpa using hne, (mem_splitOn hmem).1⟩

theorem mem_of_mem_words {cs w : List Char} (h : w ∈ words cs) : ∀ c ∈ w, c ∈ cs :=
  (mem_splitOn (List.mem_filter.mp h).1).2

theorem words_ne_nil {cs : List Char} {c : Char} (hc : c ∈ cs) (hne : c ≠ '-') :
    words cs ≠ [] := by
  obtain ⟨w, hw, hcw⟩ := exists_mem_splitOn hc hne
  refine List.ne_nil_of_mem (List.mem_filter.mpr ⟨hw, ?_⟩)
  simpa using List.ne_nil_of_mem hcw

theorem words_dashed {ws : List (List Char)} (h : ∀ w ∈ ws, IsWord w) : words (dashed ws) = ws := by
  cases ws with
  | nil => rfl
  | cons w ws =>
    rw [words, dashed, List.splitOn_intercalate _ (fun l hl => (h l hl).2) (List.cons_ne_nil _ _)]
    exact List.filter_eq_self.mpr fun l hl => by simpa using (h l hl).1

theorem dashed_cons {w : List Char} {ws : List (List Char)} (h : ws ≠ []) :
    dashed (w :: ws) = w ++ '-' :: dashed ws := by
  rw [dashed, List.intercalate_cons_of_ne_nil h, List.append_assoc]
  rfl

theorem dashed_ne_nil {ws : List (List Char)} (h : ∀ w ∈ ws, IsWord w) (hne : ws ≠ []) :
    dashed ws ≠ [] := by
  intro hnil
  have hw := words_dashed h
  rw [hnil] at hw
  exact hne hw.symm

@[simp] theorem dashed_singleton (w : List Char) : dashed [w] = w := by
  simp [dashed, List.intercalate]

theorem dashed_append {ws vs : List (List Char)} (h : ws ≠ []) (h' : vs ≠ []) :
    dashed (ws ++ vs) = dashed ws ++ '-' :: dashed vs := by
  induction ws with
  | nil => exact absurd rfl h
  | cons w ws ih =>
    by_cases hne : ws = []
    · rw [hne, List.cons_append, List.nil_append, dashed_cons h', dashed_singleton]
    · rw [List.cons_append, dashed_cons (List.append_ne_nil_of_left_ne_nil hne vs), ih hne,
        dashed_cons hne, List.append_assoc]
      rfl

theorem dashed_append_singleton {ws : List (List Char)} (h : ws ≠ []) (w : List Char) :
    dashed (ws ++ [w]) = dashed ws ++ '-' :: w := by
  rw [dashed_append h (List.cons_ne_nil w []), dashed_singleton]

theorem mem_dashed {ws : List (List Char)} {c : Char} (h : c ∈ dashed ws) :
    c = '-' ∨ ∃ w ∈ ws, c ∈ w := mem_intercalate h

/-! ## Normalizing dashes -/

@[simp] theorem squeeze_cons_of_ne {c : Char} (h : c ≠ '-') (cs : List Char) :
    squeeze (c :: cs) = c :: squeeze cs := by
  rw [squeeze, if_neg fun hc => h hc.1]

theorem rstripDash_append {a b : List Char} (h : rstripDash b ≠ []) :
    rstripDash (a ++ b) = a ++ rstripDash b := by
  unfold rstripDash List.rdropWhile at h ⊢
  rw [List.reverse_append, List.dropWhile_append]
  have hne : (b.reverse.dropWhile (· == '-')) ≠ [] := by simpa using h
  rw [if_neg (by simpa using hne), List.reverse_append, List.reverse_reverse]

theorem rstripDash_of_isWord {w : List Char} (h : IsWord w) : rstripDash w = w := by
  refine List.rdropWhile_eq_self_iff.mpr fun hne hlast => h.2 ?_
  rw [← beq_iff_eq.mp hlast]
  exact List.getLast_mem hne

theorem isWord_append_singleton {w : List Char} (h : IsWord w) {c : Char} (hc : c ≠ '-') :
    IsWord (w ++ [c]) := by
  refine ⟨by simp, fun hm => ?_⟩
  rcases List.mem_append.mp hm with hm | hm
  · exact h.2 hm
  · exact hc (List.mem_singleton.mp hm).symm

theorem isWord_singleton {c : Char} (hc : c ≠ '-') : IsWord [c] :=
  ⟨List.cons_ne_nil _ _, fun hm => hc (List.mem_singleton.mp hm).symm⟩

/-- After a word, squeezing and stripping at the end write the words down again. -/
theorem rstrip_squeeze (cs w : List Char) (hw : IsWord w) :
    rstripDash (w ++ squeeze cs) = dashed (words (w ++ cs)) := by
  match cs with
  | [] =>
    rw [squeeze, List.append_nil, rstripDash_of_isWord hw, words_eq_singleton hw,
      dashed_singleton]
  | c :: cs =>
    by_cases hc : c = '-'
    · subst hc
      rw [words_append_dash, words_eq_singleton hw]
      match cs with
      | [] =>
        have hlast : rstripDash (w ++ ['-']) = rstripDash w := List.rdropWhile_concat_pos _ _ _ rfl
        rw [words_nil, List.append_nil, dashed_singleton]
        exact hlast.trans (rstripDash_of_isWord hw)
      | d :: ds =>
        by_cases hd : d = '-'
        · subst hd
          have ih := rstrip_squeeze ('-' :: ds) w hw
          rw [words_append_dash, words_eq_singleton hw] at ih
          rw [squeeze, if_pos ⟨rfl, rfl⟩, words_dash_cons]
          exact ih
        · have ih := rstrip_squeeze ds [d] (isWord_singleton hd)
          have hne : words (d :: ds) ≠ [] := words_ne_nil List.mem_cons_self hd
          have hout : rstripDash ([d] ++ squeeze ds) ≠ [] := by
            rw [ih]
            exact dashed_ne_nil (fun v hv => isWord_of_mem_words hv) hne
          have hdash : squeeze ('-' :: d :: ds) = '-' :: ([d] ++ squeeze ds) := by
            rw [squeeze, if_neg (by simpa using hd), squeeze_cons_of_ne hd]
            rfl
          rw [hdash, ← List.singleton_append, ← List.append_assoc, rstripDash_append hout, ih]
          rw [List.singleton_append, List.singleton_append, dashed_cons hne, List.append_assoc]
          rfl
    · have ih := rstrip_squeeze cs (w ++ [c]) (isWord_append_singleton hw hc)
      rw [List.append_assoc, List.append_assoc] at ih
      rw [squeeze_cons_of_ne hc]
      exact ih
termination_by cs.length

/-- Squeezing and stripping a text write its words down again. -/
theorem strip_squeeze (cs : List Char) : stripDash (squeeze cs) = dashed (words cs) := by
  induction cs with
  | nil => rfl
  | cons c cs ih =>
    by_cases hc : c = '-'
    · subst hc
      rw [words_dash_cons, ← ih, squeeze]
      split
      · rfl
      · show stripDash ('-' :: squeeze cs) = _
        rw [stripDash, stripDash, stripChars, List.dropWhile_cons_of_pos rfl]
        rfl
    · have hfirst : (c == '-') = false := by simpa using hc
      rw [squeeze_cons_of_ne hc, stripDash, stripChars,
        List.dropWhile_cons_of_neg (by simpa using hc)]
      exact rstrip_squeeze cs [c] (isWord_singleton hc)

/-! ## Cutting a text of words -/

/-- No dash follows a dash. -/
def NoRun (cs : List Char) : Prop := cs.IsChain fun a b => ¬ (a = '-' ∧ b = '-')

theorem NoRun.take {cs : List Char} (h : NoRun cs) (n : Nat) : NoRun (cs.take n) :=
  List.IsChain.take h n

theorem squeeze_of_noRun {cs : List Char} (h : NoRun cs) : squeeze cs = cs := by
  induction cs with
  | nil => rfl
  | cons c cs ih =>
    obtain ⟨hhead, htail⟩ := List.isChain_cons.mp h
    rw [squeeze, if_neg fun hc => hhead '-' hc.2 ⟨hc.1, rfl⟩, ih htail]

theorem noRun_of_isWord {w : List Char} (h : '-' ∉ w) : NoRun w := by
  induction w with
  | nil => exact .nil
  | cons c w ih =>
    refine List.isChain_cons.mpr ⟨fun d _ hcd => ?_, ih fun hm => h (List.mem_cons_of_mem c hm)⟩
    rw [hcd.1] at h
    exact h List.mem_cons_self

theorem head?_dashed {ws : List (List Char)} (h : ∀ w ∈ ws, IsWord w) :
    (dashed ws).head? ≠ some '-' := by
  cases ws with
  | nil => simp [dashed, List.intercalate]
  | cons w ws =>
    obtain ⟨hw, hdash⟩ := h w List.mem_cons_self
    cases w with
    | nil => exact absurd rfl hw
    | cons c w =>
      have hc : c ≠ '-' := fun hc => hdash (hc ▸ List.mem_cons_self)
      cases ws with
      | nil => simpa using hc
      | cons v vs => simpa [dashed_cons] using hc

theorem noRun_dashed {ws : List (List Char)} (h : ∀ w ∈ ws, IsWord w) : NoRun (dashed ws) := by
  induction ws with
  | nil => exact .nil
  | cons w ws ih =>
    have hw := h w List.mem_cons_self
    have hws : ∀ v ∈ ws, IsWord v := fun v hv => h v (List.mem_cons_of_mem w hv)
    by_cases hne : ws = []
    · rw [hne, dashed_singleton]
      exact noRun_of_isWord hw.2
    · rw [dashed_cons hne]
      refine (noRun_of_isWord hw.2).append (List.isChain_cons.mpr ⟨fun d hd hdd => ?_, ih hws⟩) ?_
      · rw [hdd.2] at hd
        exact head?_dashed hws hd
      · intro c hc d _ hcd
        rw [hcd.1] at hc
        exact hw.2 (List.mem_of_getLast? hc)

/-- What is left of a text of words cut short is a text of words. -/
theorem rstrip_take_dashed {ws : List (List Char)} (h : ∀ w ∈ ws, IsWord w) (n : Nat) :
    rstripDash ((dashed ws).take n) = dashed (words ((dashed ws).take n)) := by
  have hrun : squeeze ((dashed ws).take n) = (dashed ws).take n :=
    squeeze_of_noRun ((noRun_dashed h).take n)
  have hstrip := strip_squeeze ((dashed ws).take n)
  have hhead : ((dashed ws).take n).dropWhile (· == '-') = (dashed ws).take n := by
    have hfirst := head?_dashed h
    cases n with
    | zero => rfl
    | succ n =>
      cases hd : dashed ws with
      | nil => rfl
      | cons c cs =>
        rw [hd, List.head?_cons] at hfirst
        have hc : c ≠ '-' := fun hc => hfirst (congrArg some hc)
        rw [List.take_succ_cons, List.dropWhile_cons_of_neg (by simpa using hc)]
  rw [hrun, stripDash, stripChars, hhead] at hstrip
  exact hstrip

/-- The words a cut leaves room for are still there after it. -/
theorem words_take_dashed {ws vs : List (List Char)} (h : ∀ w ∈ ws, IsWord w) (hne : ws ≠ [])
    {n : Nat} (hn : (dashed ws).length ≤ n) :
    ∃ more, words ((dashed (ws ++ vs)).take n) = ws ++ more := by
  by_cases hvs : vs = []
  · refine ⟨[], ?_⟩
    rw [hvs, List.append_nil, List.take_of_length_le hn, words_dashed h]
  · rw [dashed_append hne hvs, List.take_append, List.take_of_length_le hn]
    cases hroom : n - (dashed ws).length with
    | zero =>
      refine ⟨[], ?_⟩
      rw [List.take_zero, List.append_nil, words_dashed h, List.append_nil]
    | succ m =>
      refine ⟨words ((dashed vs).take m), ?_⟩
      rw [List.take_succ_cons, words_append_dash, words_dashed h]

/-- A text of words is not changed by stripping at the end. -/
theorem rstrip_dashed {ws : List (List Char)} (h : ∀ w ∈ ws, IsWord w) :
    rstripDash (dashed ws) = dashed ws := by
  have hcut := rstrip_take_dashed h (dashed ws).length
  rw [List.take_length, words_dashed h] at hcut
  exact hcut

/-- Where none follows another, no dash is before a dash. -/
theorem NoRun.rstrip_left {a b : List Char} (h : NoRun (a ++ '-' :: b)) : rstripDash a = a := by
  refine List.rdropWhile_eq_self_iff.mpr fun hne hlast => ?_
  obtain ⟨_, _, hrel⟩ := List.isChain_append.mp h
  exact hrel (a.getLast hne) (List.getLast?_eq_some_getLast hne) '-' rfl
    ⟨beq_iff_eq.mp hlast, rfl⟩

/-- Stripping at the end takes one dash at most where none follows another. -/
theorem NoRun.rstrip_or {cs : List Char} (h : NoRun cs) :
    rstripDash cs = cs ∨ rstripDash cs ++ ['-'] = cs := by
  induction cs using List.reverseRecOn with
  | nil => exact .inl rfl
  | append_singleton cs c _ =>
    by_cases hc : c = '-'
    · subst hc
      have hstrip : rstripDash (cs ++ ['-']) = rstripDash cs :=
        List.rdropWhile_concat_pos _ _ _ rfl
      exact .inr (by rw [hstrip, h.rstrip_left])
    · exact .inl (List.rdropWhile_concat_neg _ _ _ (by simpa using hc))

theorem NoRun.length_le {cs : List Char} (h : NoRun cs) :
    cs.length ≤ (rstripDash cs).length + 1 := by
  have hlengths := h.rstrip_or.imp (congrArg List.length) (congrArg List.length)
  rw [List.length_append, List.length_singleton] at hlengths
  omega

/-- Texts of one length that read alike without the dash at their end are the same. -/
theorem NoRun.rstrip_inj {a b : List Char} (ha : NoRun a) (hb : NoRun b)
    (hlen : a.length = b.length) : rstripDash a = rstripDash b ↔ a = b := by
  refine ⟨fun h => ?_, congrArg rstripDash⟩
  have hstripped := congrArg List.length h
  rcases ha.rstrip_or with hsa | hsa <;> rcases hb.rstrip_or with hsb | hsb
  · rw [← hsa, h, hsb]
  · have hlonger := congrArg List.length hsb
    rw [List.length_append, List.length_singleton, ← hstripped, hsa] at hlonger
    omega
  · have hlonger := congrArg List.length hsa
    rw [List.length_append, List.length_singleton, hstripped, hsb] at hlonger
    omega
  · rw [← hsa, h, hsb]

/-- A cut that ends on a dash loses it, and no more. -/
theorem NoRun.rstrip_take_dash {cs : List Char} (h : NoRun cs) {k : Nat}
    (hk : cs[k]? = some '-') : rstripDash (cs.take (k + 1)) = cs.take k := by
  have htake : cs.take (k + 1) = cs.take k ++ ['-'] := by
    rw [List.take_add_one, hk]
    rfl
  have hrun : NoRun (cs.take k ++ ['-']) := htake ▸ h.take (k + 1)
  rw [htake]
  rw [rstripDash, List.rdropWhile_concat_pos _ _ _ rfl]
  exact hrun.rstrip_left

theorem rstrip_take_of_ne {cs : List Char} {k : Nat} {c : Char} (hk : cs[k]? = some c)
    (hc : c ≠ '-') : rstripDash (cs.take (k + 1)) = cs.take (k + 1) := by
  rw [List.take_add_one, hk]
  exact List.rdropWhile_concat_neg _ _ _ (by simpa using hc)

end Lib
