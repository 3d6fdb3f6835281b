import MissionCompiler.Names.Sanitize

/-!
# Names are legal, stable and distinct

What a name may look like, and what `sanitize_k8s_name` and `_collision_resistant_k8s_name`
promise for every text and every length they are given room for. The second one sanitizes to 253
characters before it looks at the length, so a text that was cut there may be taken for one that
fits: up to a limit of 251 two texts that are cut keep different names, at 252 and 253 those that
get no digest need not.
-/

namespace MissionCompiler.Names

open Lib

/-! ## What is promised -/

/-- A DNS label of RFC 1123 of at most `n` characters, with no two dashes in a row. -/
structure TidyLabel (s : String) (n : Nat) : Prop where
  length_le : s.length ≤ n
  legal : ∀ c ∈ s.toList, isAlnum c = true ∨ c = '-'
  first : ∃ c, s.toList.head? = some c ∧ isAlnum c = true
  last : ∃ c, s.toList.getLast? = some c ∧ isAlnum c = true
  noDashes : ¬ ['-', '-'] <:+: s.toList

/-- The name `sanitize_k8s_name` has before it cuts it. -/
def uncutName (name : String) : List Char := stripDash (squeeze (legalize name.toList))

/-- The name is longer than it may be. -/
def Truncated (name : String) (maxLen : Nat) : Prop := maxLen < (uncutName name).length

/-- What is promised of `sanitize_k8s_name` at one length. -/
structure SanitizesWell (maxLen : Nat) : Prop where
  label : ∀ s, TidyLabel (sanitizeK8sName s maxLen) maxLen
  idempotent : ∀ s,
    sanitizeK8sName (sanitizeK8sName s maxLen) maxLen = sanitizeK8sName s maxLen

/-- What `_collision_resistant_k8s_name` makes of one text. -/
structure NamedWell (sha : Sha256) (maxLen : Nat) (s name : String) : Prop where
  label : TidyLabel name maxLen
  idempotent : collisionResistantK8sName sha name maxLen 8 = .ok name
  fits : ¬ Truncated s maxLen → name = sanitizeK8sName s maxLen

/-- The names of two texts that are cut keep apart. The digest is asked to tell the two texts
apart, since no hash tells all of them apart. -/
def KeptApart (sha : Sha256) (maxLen : Nat) (s t : String) : Prop :=
  Truncated s maxLen → Truncated t maxLen → (sha.digest 8 s = sha.digest 8 t → s = t) →
    collisionResistantK8sName sha s maxLen 8 = collisionResistantK8sName sha t maxLen 8 → s = t

/-! ## What breaks it -/

/-- A name that is too long and gets no digest: what is left of it at the cut at 253 characters
fits. At a limit of 253 it always does, at 252 when the cut leaves a dash at the end. -/
def Undigested (maxLen : Nat) (name : String) : Prop :=
  maxLen = 253 ∨ maxLen = 252 ∧ (uncutName name)[252]? = some '-'

/-- How two texts that differ, and whose digests do, come to one name. -/
inductive Meet (sha : Sha256) (maxLen : Nat) (s t : String) : Prop where
  /-- Neither gets a digest, and they agree up to the cut. -/
  | undigested (hs : Undigested maxLen s) (ht : Undigested maxLen t)
      (same : (uncutName s).take 253 = (uncutName t).take 253)
  /-- The first gets no digest, and reads like the cut name and the digest of the second. -/
  | left (hs : Undigested maxLen s) (ht : ¬ Undigested maxLen t)
      (same : (uncutName s).take 252 = (uncutName t).take 243 ++ '-' :: sha.digest 8 t)
  /-- The second gets no digest, and reads like the cut name and the digest of the first. -/
  | right (hs : ¬ Undigested maxLen s) (ht : Undigested maxLen t)
      (same : (uncutName t).take 252 = (uncutName s).take 243 ++ '-' :: sha.digest 8 s)

/-- Two texts that are cut, told apart by their digests and not by their names. -/
structure CutTogether (sha : Sha256) (maxLen : Nat) (s t : String) : Prop where
  left : Truncated s maxLen
  right : Truncated t maxLen
  digests : sha.digest 8 s ≠ sha.digest 8 t
  meet : Meet sha maxLen s t

/-! ## Labels -/

theorem NoRun.not_infix {cs : List Char} (h : NoRun cs) : ¬ ['-', '-'] <:+: cs := by
  intro hrun
  have hpair : NoRun ['-', '-'] := List.IsChain.infix h hrun
  exact List.isChain_pair.mp hpair ⟨rfl, rfl⟩

theorem tidyLabel_nameOf {ws : List (List Char)} (h : NameWords ws) {n : Nat}
    (hlen : (nameOf ws).length ≤ n) : TidyLabel (nameOf ws) n := by
  refine ⟨hlen, ?_, ?_, ?_, ?_⟩ <;> rw [nameOf, String.toList_ofList]
  · exact h.legal
  · exact h.first
  · exact h.last
  · exact NoRun.not_infix (noRun_dashed h.isWord)

theorem uncutName_eq (s : String) : uncutName s = dashed (wordsOf s) := strip_squeeze _

/-- A name that is too long has a word in it. -/
theorem Truncated.words {s : String} {n : Nat} (h : Truncated s n) : wordsOf s ≠ [] := by
  intro hnil
  rw [Truncated, uncutName_eq, hnil] at h
  exact absurd h (Nat.not_lt_zero n)

theorem not_truncated {s : String} {n : Nat} :
    ¬ Truncated s n ↔ (dashed (wordsOf s)).length ≤ n := by
  rw [Truncated, uncutName_eq, Nat.not_lt]

/-! ## Sanitizing -/

/-- The word a text without words is named by. -/
def stepWords : List (List Char) := ["step".toList]

theorem nameWords_step : NameWords stepWords := by
  refine ⟨List.cons_ne_nil _ _, fun w hw => ?_⟩
  rw [List.mem_singleton.mp hw]
  have hall : "step".toList.all isAlnum = true := by decide
  exact ⟨List.cons_ne_nil _ _, List.all_eq_true.mp hall⟩

theorem sanitizeK8sName_wordless {s : String} (h : wordsOf s = []) (n : Nat) :
    sanitizeK8sName s n = nameOf stepWords := by
  rw [sanitizeK8sName, strip_squeeze]
  show (if (rstripDash ((dashed (wordsOf s)).take n)).isEmpty then "step" else _) = _
  rw [h]
  show (if (rstripDash (([] : List Char).take n)).isEmpty then "step" else _) = _
  rw [List.take_nil]
  rfl

/-- A sanitized text is a name, and it fits. -/
theorem sanitizeK8sName_name (s : String) {n : Nat} (hn : 4 ≤ n) :
    ∃ ws, NameWords ws ∧ sanitizeK8sName s n = nameOf ws ∧ (nameOf ws).length ≤ n := by
  by_cases h : wordsOf s = []
  · exact ⟨stepWords, nameWords_step, sanitizeK8sName_wordless h n, hn⟩
  · have hws := wordsOf_nameWords h
    refine ⟨_, hws.cut (by omega), sanitizeK8sName_eq h (by omega), ?_⟩
    rw [length_nameOf, ← rstrip_take_dashed hws.isWord]
    calc (rstripDash ((dashed (wordsOf s)).take n)).length
        ≤ ((dashed (wordsOf s)).take n).length := (List.rdropWhile_prefix _ _).length_le
      _ ≤ n := List.length_take_le n _

theorem sanitizesWell {n : Nat} (hn : 4 ≤ n) : SanitizesWell n where
  label s := by
    obtain ⟨ws, hws, heq, hlen⟩ := sanitizeK8sName_name s hn
    rw [heq]
    exact tidyLabel_nameOf hws hlen
  idempotent s := by
    obtain ⟨ws, hws, heq, hlen⟩ := sanitizeK8sName_name s hn
    rw [heq]
    exact sanitizeK8sName_nameOf hws (by omega) hlen

/-! ## Names that keep apart -/

section

variable (sha : Sha256) {s t : String} {n : Nat}

/-- The name of any text is some words that fit, and ends in the digest if it was hashed. -/
theorem cutName_name (s : String) (hn : 13 ≤ n) (hmax : n ≤ 253) :
    ∃ ws, NameWords ws ∧ cutName sha s n 8 = nameOf ws ∧ (nameOf ws).length ≤ n := by
  by_cases hhashed : Hashed s n
  · have h : wordsOf s ≠ [] := by
      intro hnil
      rw [Hashed, sanitizeK8sName_wordless hnil] at hhashed
      have hstep : (nameOf stepWords).length = 4 := rfl
      omega
    obtain ⟨head, hhead, hcut, hlen, _⟩ := cutName_long sha h (by omega) hmax hhashed
    refine ⟨_, hhead.append fun w hw => ?_, hcut, hlen⟩
    rw [List.mem_singleton.mp hw]
    exact sha.digest_word s
  · obtain ⟨ws, hws, heq, _⟩ := sanitizeK8sName_name s (show 4 ≤ 253 by decide)
    have hshort : (sanitizeK8sName s 253).length ≤ n := Nat.not_lt.mp hhashed
    rw [heq] at hshort
    refine ⟨ws, hws, ?_, hshort⟩
    rw [cutName, heq]
    exact if_pos hshort

/-- A name that fits is not changed again. -/
theorem cutName_nameOf {ws : List (List Char)} (h : NameWords ws) (hmax : n ≤ 253)
    (hlen : (nameOf ws).length ≤ n) : cutName sha (nameOf ws) n 8 = nameOf ws := by
  have hwords := wordsOf_nameOf h
  have hne : wordsOf (nameOf ws) ≠ [] := by
    rw [hwords]
    exact h.ne_nil
  rw [length_nameOf, ← hwords] at hlen
  rw [cutName_short sha hne hmax hlen, hwords]

/-- A text whose name is not too long is only sanitized. -/
theorem cutName_fits (hn : 13 ≤ n) (hmax : n ≤ 253) (h : ¬ Truncated s n) :
    cutName sha s n 8 = sanitizeK8sName s n := by
  by_cases hne : wordsOf s = []
  · rw [cutName, sanitizeK8sName_wordless hne, sanitizeK8sName_wordless hne]
    have hstep : (nameOf stepWords).length = 4 := rfl
    exact if_pos (by omega)
  · rw [not_truncated] at h
    rw [cutName_short sha hne hmax h, sanitizeK8sName_short hne (by omega) h]

/-- Whatever the limit, one text gets a label that stands for itself. -/
theorem namedWell (s : String) (hn : 13 ≤ n) (hmax : n ≤ 253) :
    NamedWell sha n s (cutName sha s n 8) := by
  obtain ⟨ws, hws, hcut, hlen⟩ := cutName_name sha s hn hmax
  refine ⟨?_, ?_, cutName_fits sha hn hmax⟩ <;> rw [hcut]
  · exact tidyLabel_nameOf hws hlen
  · rw [collisionResistantK8sName_eq sha _ (by omega), cutName_nameOf sha hws hmax hlen]

/-! ## Names that are cut -/

theorem Truncated.noRun (h : Truncated s n) : NoRun (uncutName s) := by
  rw [uncutName_eq]
  exact noRun_dashed (wordsOf_nameWords h.words).isWord

/-- A name that is too long is its own beginning, cut at 253 characters. -/
theorem Truncated.normalized (h : Truncated s n) :
    sanitizeK8sName s 253 = String.ofList (rstripDash ((uncutName s).take 253)) := by
  rw [sanitizeK8sName_eq h.words (by decide), nameOf, uncutName_eq,
    rstrip_take_dashed (wordsOf_nameWords h.words).isWord]

/-- Below the last two limits a name that is too long is hashed. -/
theorem Truncated.hashed (h : Truncated s n) (hmax : n ≤ 251) : Hashed s n := by
  refine hashed_of_long h.words (by omega) ?_
  rwa [Truncated, uncutName_eq] at h

/-- A name that is too long is hashed, unless the cut at 253 characters made it fit. -/
theorem Truncated.hashed_iff (h : Truncated s n) (hmax : n ≤ 253) :
    Hashed s n ↔ ¬ Undigested n s := by
  have hlong : n < (uncutName s).length := h
  rcases (show n ≤ 251 ∨ n = 252 ∨ n = 253 by omega) with hn | rfl | rfl
  · refine ⟨fun _ hundigested => ?_, fun _ => h.hashed hn⟩
    rw [Undigested] at hundigested
    omega
  · have hlast : (uncutName s)[252]? = some (uncutName s)[252] := List.getElem?_eq_getElem hlong
    rw [Hashed, h.normalized, String.length_ofList, Undigested, hlast, Option.some_inj]
    by_cases hdash : (uncutName s)[252] = '-'
    · rw [h.noRun.rstrip_take_dash (hdash ▸ hlast), List.length_take]
      exact iff_of_false (by omega) (not_not_intro (.inr ⟨rfl, hdash⟩))
    · rw [rstrip_take_of_ne hlast hdash, List.length_take]
      exact iff_of_true (by omega) (by simp [hdash])
  · have hshort : (rstripDash ((uncutName s).take 253)).length ≤ 253 :=
      (List.rdropWhile_prefix _ _).length_le.trans (List.length_take_le _ _)
    rw [Hashed, h.normalized, String.length_ofList]
    exact iff_of_false (Nat.not_lt.mpr hshort) (not_not_intro (.inl rfl))

/-- A name that gets no digest is its beginning. -/
theorem Truncated.cutName_undigested (h : Truncated s n) (hmax : n ≤ 253)
    (hundigested : Undigested n s) :
    cutName sha s n 8 = String.ofList (rstripDash ((uncutName s).take 253)) := by
  have hshort : ¬ Hashed s n := fun hhashed => (h.hashed_iff hmax).mp hhashed hundigested
  rw [cutName, ← h.normalized]
  exact if_pos (Nat.not_lt.mp hshort)

/-- A name that is hashed is its beginning and the digest of the whole. -/
theorem Truncated.cutName_hashed (h : Truncated s n) (hn : 10 ≤ n) (hhashed : Hashed s n) :
    cutName sha s n 8 =
      String.ofList (rstripDash ((uncutName s).take (n - 9)) ++ '-' :: sha.digest 8 s) := by
  have hlong := hhashed
  rw [Hashed, h.normalized, String.length_ofList] at hlong
  have hhead : (rstripDash ((uncutName s).take 253)).take (n - 8 - 1) =
      (uncutName s).take (n - 9) := by
    have hprefix : rstripDash ((uncutName s).take 253) <+: uncutName s :=
      (List.rdropWhile_prefix _ _).trans (List.take_prefix _ _)
    rw [List.prefix_iff_eq_take.mp hprefix, List.take_take, Nat.min_eq_left (by omega),
      Nat.sub_sub]
  have hne : rstripDash ((uncutName s).take (n - 9)) ≠ [] := by
    have hws := wordsOf_nameWords h.words
    have hcut := hws.cut (show 1 ≤ n - 9 by omega)
    rw [uncutName_eq, rstrip_take_dashed hws.isWord]
    exact dashed_ne_nil hcut.isWord hcut.ne_nil
  rw [cutName, h.normalized]
  show (if (String.ofList _).length ≤ n then _ else String.ofList
    ((if (rstripDash ((String.ofList _).toList.take (n - 8 - 1))).isEmpty then _ else _) ++ _)) = _
  rw [String.length_ofList, if_neg (Nat.not_le.mpr hlong), String.toList_ofList, hhead,
    if_neg (by simpa using hne)]

/-- Two names that end in a digest are equal only if the digests are. -/
theorem digest_eq_of_cutName_eq (hn : 10 ≤ n) (hs : Truncated s n) (ht : Truncated t n)
    (hhs : Hashed s n) (hht : Hashed t n) (h : cutName sha s n 8 = cutName sha t n 8) :
    sha.digest 8 s = sha.digest 8 t := by
  rw [hs.cutName_hashed sha hn hhs, ht.cutName_hashed sha hn hht] at h
  have hlength : ('-' :: sha.digest 8 s).length = ('-' :: sha.digest 8 t).length := by
    rw [List.length_cons, List.length_cons, sha.length_digest, sha.length_digest]
  exact (List.cons.inj (List.append_inj_right' (String.ofList_injective h) hlength)).2

/-- Two names without a digest are equal when they agree up to the cut. -/
theorem cutName_eq_iff_undigested (hmax : n ≤ 253) (hs : Truncated s n) (ht : Truncated t n)
    (hus : Undigested n s) (hut : Undigested n t) :
    cutName sha s n 8 = cutName sha t n 8 ↔ (uncutName s).take 253 = (uncutName t).take 253 := by
  have hlarge : 252 ≤ n := by
    rw [Undigested] at hus
    omega
  have hlengths : ∀ {u}, Truncated u n → ((uncutName u).take 253).length = 253 := by
    intro u hu
    have hlong : n < (uncutName u).length := hu
    rw [List.length_take]
    omega
  rw [hs.cutName_undigested sha hmax hus, ht.cutName_undigested sha hmax hut,
    String.ofList_inj]
  refine (hs.noRun.take 253).rstrip_inj (ht.noRun.take 253) ?_
  rw [hlengths hs, hlengths ht]

/-- A name without a digest is the hashed name of another text when it reads like that. -/
theorem cutName_eq_iff_hashed (hmax : n ≤ 253) (hs : Truncated s n) (ht : Truncated t n)
    (hus : Undigested n s) (hut : ¬ Undigested n t) :
    cutName sha s n 8 = cutName sha t n 8 ↔
      (uncutName s).take 252 = (uncutName t).take 243 ++ '-' :: sha.digest 8 t := by
  obtain rfl | ⟨rfl, hdash⟩ := hus
  · exact absurd (.inl rfl) hut
  · rw [hs.cutName_undigested sha hmax (.inr ⟨rfl, hdash⟩), hs.noRun.rstrip_take_dash hdash,
      ht.cutName_hashed sha (by decide) ((ht.hashed_iff hmax).mpr hut),
      String.ofList_inj]
    show _ = rstripDash ((uncutName t).take 243) ++ _ ↔ _
    constructor
    · intro h
      -- the head has all its 243 characters, since the whole has 252
      have hlength := congrArg List.length h
      have hlong : 252 < (uncutName s).length := hs
      rw [List.length_append, List.length_cons, sha.length_digest, List.length_take] at hlength
      have hhead : rstripDash ((uncutName t).take 243) = (uncutName t).take 243 := by
        refine (List.rdropWhile_prefix _ _).eq_of_length_le ?_
        rw [List.length_take]
        show _ ≤ (rstripDash _).length
        omega
      rw [h, hhead]
    · intro h
      -- no dash ends the head, since one follows it
      have hrun : NoRun ((uncutName t).take 243 ++ '-' :: sha.digest 8 t) := by
        rw [← h]
        exact hs.noRun.take 252
      rw [h, hrun.rstrip_left]

/-- When two texts that are cut come to one name. -/
theorem cutName_eq_iff (hn : 10 ≤ n) (hmax : n ≤ 253) (hs : Truncated s n) (ht : Truncated t n)
    (hdigests : sha.digest 8 s ≠ sha.digest 8 t) :
    cutName sha s n 8 = cutName sha t n 8 ↔ Meet sha n s t := by
  by_cases hus : Undigested n s <;> by_cases hut : Undigested n t
  · rw [cutName_eq_iff_undigested sha hmax hs ht hus hut]
    refine ⟨.undigested hus hut, fun h => ?_⟩
    cases h with
    | undigested _ _ same => exact same
    | left _ hno => exact absurd hut hno
    | right hno => exact absurd hus hno
  · rw [cutName_eq_iff_hashed sha hmax hs ht hus hut]
    refine ⟨.left hus hut, fun h => ?_⟩
    cases h with
    | undigested _ hyes => exact absurd hyes hut
    | left _ _ same => exact same
    | right hno => exact absurd hus hno
  · rw [eq_comm, cutName_eq_iff_hashed sha hmax ht hs hut hus]
    refine ⟨.right hus hut, fun h => ?_⟩
    cases h with
    | undigested hyes => exact absurd hyes hus
    | left hyes => exact absurd hyes hus
    | right _ _ same => exact same
  · have hapart : cutName sha s n 8 ≠ cutName sha t n 8 := fun h => hdigests
      (digest_eq_of_cutName_eq sha hn hs ht ((hs.hashed_iff hmax).mpr hus)
        ((ht.hashed_iff hmax).mpr hut) h)
    refine ⟨fun h => absurd h hapart, fun h => ?_⟩
    cases h with
    | undigested hyes => exact absurd hyes hus
    | left hyes => exact absurd hyes hus
    | right _ hyes => exact absurd hyes hut

theorem keptApart_iff (hn : 10 ≤ n) (hmax : n ≤ 253) :
    KeptApart sha n s t ↔ ¬ CutTogether sha n s t := by
  rw [KeptApart, collisionResistantK8sName_eq sha s hn, collisionResistantK8sName_eq sha t hn,
    Except.ok.injEq]
  constructor
  · intro hapart htogether
    have hsame := (cutName_eq_iff sha hn hmax htogether.left htogether.right
      htogether.digests).mpr htogether.meet
    have htexts := hapart htogether.left htogether.right
      (fun h => absurd h htogether.digests) hsame
    exact htogether.digests (congrArg (sha.digest 8) htexts)
  · intro hapart hs ht hdigest hsame
    by_contra hne
    have hdigests : sha.digest 8 s ≠ sha.digest 8 t := fun h => hne (hdigest h)
    exact hapart ⟨hs, ht, hdigests, (cutName_eq_iff sha hn hmax hs ht hdigests).mp hsame⟩

/-- Up to 251 characters every name that is cut is hashed. -/
theorem keptApart_of_le (hn : 10 ≤ n) (hmax : n ≤ 251) : KeptApart sha n s t := by
  rw [keptApart_iff sha hn (by omega)]
  intro htogether
  have hnone : ∀ u, ¬ Undigested n u := by
    intro u hu
    rw [Undigested] at hu
    omega
  cases htogether.meet with
  | undigested hs => exact hnone s hs
  | left hs => exact hnone s hs
  | right _ ht => exact hnone t ht

end

/-! ## The last two limits -/

/-- A text whose name has a dash where 253 characters end. -/
def dashedAtCut (c : Char) : String := String.ofList (dashed [List.replicate 252 'a', [c]])

theorem nameWords_dashedAtCut {c : Char} (hc : isAlnum c = true) :
    NameWords [List.replicate 252 'a', [c]] := by
  refine ⟨List.cons_ne_nil _ _, fun w hw => ?_⟩
  rcases List.mem_pair.mp hw with rfl | rfl
  · refine ⟨List.cons_ne_nil _ _, fun d hd => ?_⟩
    rw [List.eq_of_mem_replicate hd]
    rfl
  · exact ⟨List.cons_ne_nil _ _, fun d hd => List.mem_singleton.mp hd ▸ hc⟩

theorem wordsOf_dashedAtCut {c : Char} (hc : isAlnum c = true) :
    wordsOf (dashedAtCut c) = [List.replicate 252 'a', [c]] :=
  wordsOf_nameOf (nameWords_dashedAtCut hc)

theorem truncated_dashedAtCut {c : Char} (hc : isAlnum c = true) {n : Nat} (hmax : n ≤ 253) :
    Truncated (dashedAtCut c) n := by
  have hlength : (dashed [List.replicate 252 'a', [c]]).length = 254 := by
    rw [dashed_cons (List.cons_ne_nil _ _), dashed_singleton, List.length_append,
      List.length_replicate]
    rfl
  rw [Truncated, uncutName_eq, wordsOf_dashedAtCut hc, hlength]
  omega

/-- Cut at 253 characters, such texts are the same. -/
theorem cut_dashedAtCut {c : Char} (hc : isAlnum c = true) :
    (uncutName (dashedAtCut c)).take 253 = List.replicate 252 'a' ++ ['-'] := by
  rw [uncutName_eq, wordsOf_dashedAtCut hc, dashed_cons (List.cons_ne_nil _ _), dashed_singleton,
    List.take_append, List.length_replicate,
    List.take_of_length_le (by rw [List.length_replicate]; decide)]
  rfl

theorem undigested_dashedAtCut {c : Char} (hc : isAlnum c = true) {n : Nat} (hn : 252 ≤ n)
    (hmax : n ≤ 253) : Undigested n (dashedAtCut c) := by
  by_cases h : n = 253
  · exact .inl h
  · refine .inr ⟨by omega, ?_⟩
    have hlast : (List.replicate 252 'a' ++ ['-'])[252]? = some '-' := by
      rw [List.getElem?_append_right (by rw [List.length_replicate]), List.length_replicate]
      rfl
    rw [← cut_dashedAtCut hc, List.getElem?_take, if_pos (by decide)] at hlast
    exact hlast

/-- Two such texts come to one name at the last two limits. -/
theorem cutTogether_dashedAtCut {sha : Sha256} {c d : Char} (hc : isAlnum c = true)
    (hd : isAlnum d = true) (hsha : sha.digest 8 (dashedAtCut c) ≠ sha.digest 8 (dashedAtCut d))
    {n : Nat} (hn : 252 ≤ n) (hmax : n ≤ 253) :
    CutTogether sha n (dashedAtCut c) (dashedAtCut d) where
  left := truncated_dashedAtCut hc hmax
  right := truncated_dashedAtCut hd hmax
  digests := hsha
  meet := .undigested (undigested_dashedAtCut hc hn hmax) (undigested_dashedAtCut hd hn hmax)
    ((cut_dashedAtCut hc).trans (cut_dashedAtCut hd).symm)

/-- Sanitizing keeps its promise at every length from four on, and the names of the compiler are
labels that stand for themselves at every length it allows. Two names that are cut keep apart
unless one of them fits once it is cut at 253 characters, gets no digest for that, and meets the
other. -/
theorem names_legal_stable_distinct (sha : Sha256) :
    (∀ m, 4 ≤ m → SanitizesWell m) ∧
      ∀ n, 13 ≤ n → n ≤ 253 →
        (∀ s, ∃ name, collisionResistantK8sName sha s n 8 = .ok name ∧
          NamedWell sha n s name) ∧
        ∀ s t, KeptApart sha n s t ↔ ¬ CutTogether sha n s t := by
  refine ⟨fun m hm => sanitizesWell hm, fun n hn hmax => ⟨fun s => ?_, fun s t => ?_⟩⟩
  · exact ⟨_, collisionResistantK8sName_eq sha s (by omega), namedWell sha s hn hmax⟩
  · exact keptApart_iff sha (by omega) hmax

/-! The digests of the two texts, and zeros for every other one. -/

def digestA : List Char :=
  "67f97c4f7692606ec6e7552e9e2a2840103f8c374ab930d0d405d0c00d30f5c8".toList

def digestB : List Char :=
  "5ca026c102affda832fd085ee8602a874519e4bb32d8ad59f4bafcc643ac7891".toList

def digestAtCut (s : String) : List Char :=
  if s = dashedAtCut 'a' then digestA
  else if s = dashedAtCut 'b' then digestB
  else List.replicate 64 '0'

def shaAtCut : Sha256 where
  hexdigest := digestAtCut
  length_eq s := by
    unfold digestAtCut
    split_ifs <;> decide
  hex s c hc := by
    unfold digestAtCut at hc
    have hall : ((digestA ++ digestB ++ List.replicate 64 '0').all fun c =>
        ('0' ≤ c && c ≤ '9') || ('a' ≤ c && c ≤ 'f')) = true := by decide
    have hmem : c ∈ digestA ++ digestB ++ List.replicate 64 '0' := by
      split_ifs at hc <;> simp only [List.mem_append, hc, true_or, or_true]
    simpa using List.all_eq_true.mp hall c hmem

theorem shaAtCut_differs :
    shaAtCut.digest 8 (dashedAtCut 'a') ≠ shaAtCut.digest 8 (dashedAtCut 'b') := by
  have hne : dashedAtCut 'b' ≠ dashedAtCut 'a' := by
    intro h
    have hwords := congrArg wordsOf h
    rw [wordsOf_dashedAtCut (by decide), wordsOf_dashedAtCut (by decide)] at hwords
    exact absurd (List.cons.inj hwords).2 (by decide)
  have hdigest : ∀ s, shaAtCut.digest 8 s = (digestAtCut s).take 8 := fun s => by
    simp only [Sha256.digest, shaAtCut]
  have ha : digestAtCut (dashedAtCut 'a') = digestA := by
    unfold digestAtCut
    exact if_pos rfl
  have hb : digestAtCut (dashedAtCut 'b') = digestB := by
    unfold digestAtCut
    exact (if_neg hne).trans (if_pos rfl)
  rw [hdigest, hdigest, ha, hb]
  decide

theorem names_legal_stable_distinct_shaAtCut :
    SanitizesWell 4 ∧ KeptApart shaAtCut 251 (dashedAtCut 'a') (dashedAtCut 'b') ∧
      ¬ KeptApart shaAtCut 252 (dashedAtCut 'a') (dashedAtCut 'b') := by
  obtain ⟨hsanitize, hnames⟩ := names_legal_stable_distinct shaAtCut
  refine ⟨hsanitize 4 (Nat.le_refl 4), ?_, ?_⟩
  · exact keptApart_of_le shaAtCut (by decide) (by decide)
  · rw [(hnames 252 (by decide) (by decide)).2]
    exact not_not_intro (cutTogether_dashedAtCut (by decide) (by decide) shaAtCut_differs
      (by decide) (by decide))

/-- At 253 characters two texts that differ after the cut have one name. -/
theorem names_meet_at_cut : ¬ KeptApart shaAtCut 253 (dashedAtCut 'a') (dashedAtCut 'b') := by
  rw [keptApart_iff shaAtCut (by decide) (by decide)]
  exact not_not_intro (cutTogether_dashedAtCut (by decide) (by decide) shaAtCut_differs
    (by decide) (by decide))

end MissionCompiler.Names
