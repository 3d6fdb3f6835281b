import Mathlib.Data.String.Basic
import MissionCompiler.Lib.Dashed

/-!
# Kubernetes names

`sanitize_k8s_name` and `_collision_resistant_k8s_name`. Everything about the names they produce
is said of their words: a sanitized name is the words of the input written down with one dash
between them (`sanitizeK8sName_eq`), and a name that had to be cut is some words followed by the
digest of the whole input (`cutName_long`).

The hash is a parameter. Only the shape of its output is known: 64 hexadecimal digits.
-/

namespace MissionCompiler.Names

open Lib

/-! ## The code -/

/-- `[a-z0-9]`. -/
def isAlnum (c : Char) : Bool := ('a' ≤ c && c ≤ 'z') || ('0' ≤ c && c ≤ '9')

/-- `str.lower()` of one character, as far as the substitution after it can tell: besides the
ASCII capitals, two characters have an ASCII letter in their lower case. -/
def lowerChar (c : Char) : List Char :=
  if 'A' ≤ c ∧ c ≤ 'Z' then [Char.ofNat (c.toNat + 32)]
  else if c = '\u0130' then ['i', '\u0307']
  else if c = '\u212a' then ['k']
  else [c]

/-- `re.sub(r"[^a-z0-9-]", "-", s)` of one character. -/
def substituteChar (c : Char) : Char := if isAlnum c || c == '-' then c else '-'

/-- The two steps that work character by character. -/
def legalize (cs : List Char) : List Char := (cs.flatMap lowerChar).map substituteChar

/-- `sanitize_k8s_name`. -/
def sanitizeK8sName (name : String) (maxLen : Nat) : String :=
  let s := stripDash (squeeze (legalize name.toList))
  let s := rstripDash (s.take maxLen)
  if s.isEmpty then "step" else String.ofList s

/-- `hashlib.sha256(name.encode("utf-8")).hexdigest()`, by its shape. -/
structure Sha256 where
  hexdigest : String → List Char
  length_eq : ∀ s, (hexdigest s).length = 64
  hex : ∀ s, ∀ c ∈ hexdigest s, ('0' ≤ c ∧ c ≤ '9') ∨ ('a' ≤ c ∧ c ≤ 'f')

/-- `hexdigest()[:hash_len]`. -/
def Sha256.digest (sha : Sha256) (hashLen : Nat) (name : String) : List Char :=
  (sha.hexdigest name).take hashLen

/-- `_collision_resistant_k8s_name`, once the lengths are known to leave room. -/
def cutName (sha : Sha256) (name : String) (maxLen hashLen : Nat) : String :=
  let normalized := sanitizeK8sName name 253
  if normalized.length ≤ maxLen then normalized
  else
    let head := rstripDash (normalized.toList.take (maxLen - hashLen - 1))
    let head := if head.isEmpty then "step".toList else head
    String.ofList (head ++ '-' :: sha.digest hashLen name)

/-- `_collision_resistant_k8s_name`. -/
def collisionResistantK8sName (sha : Sha256) (name : String) (maxLen hashLen : Nat) :
    Except Exn String :=
  if maxLen < hashLen + 2 then .error .valueError else .ok (cutName sha name maxLen hashLen)

/-! ## Names as words -/

/-- The words of a name: there is one at least, and they are alphanumeric. -/
structure NameWords (ws : List (List Char)) : Prop where
  ne_nil : ws ≠ []
  word : ∀ w ∈ ws, w ≠ [] ∧ ∀ c ∈ w, isAlnum c = true

theorem isAlnum_dash : isAlnum '-' = false := by decide

theorem isAlnum_iff {c : Char} :
    isAlnum c = true ↔ (97 ≤ c.toNat ∧ c.toNat ≤ 122) ∨ (48 ≤ c.toNat ∧ c.toNat ≤ 57) := by
  simp only [isAlnum, Bool.or_eq_true, Bool.and_eq_true, decide_eq_true_eq]
  rfl

theorem NameWords.isWord {ws : List (List Char)} (h : NameWords ws) : ∀ w ∈ ws, IsWord w := by
  intro w hw
  refine ⟨(h.word w hw).1, fun hm => ?_⟩
  have hdash := (h.word w hw).2 _ hm
  rw [isAlnum_dash] at hdash
  exact Bool.noConfusion hdash

theorem NameWords.append {a b : List (List Char)} (ha : NameWords a)
    (hb : ∀ w ∈ b, w ≠ [] ∧ ∀ c ∈ w, isAlnum c = true) : NameWords (a ++ b) := by
  refine ⟨by simp [ha.ne_nil], fun w hw => ?_⟩
  rcases List.mem_append.mp hw with hw | hw
  · exact ha.word w hw
  · exact hb w hw

/-- The name of a list of words. -/
def nameOf (ws : List (List Char)) : String := String.ofList (dashed ws)

/-- The words of the name a text is sanitized to. -/
def wordsOf (s : String) : List (List Char) := words (legalize s.toList)

theorem legalize_append (a b : List Char) : legalize (a ++ b) = legalize a ++ legalize b := by
  rw [legalize, List.flatMap_append, List.map_append]
  rfl

theorem wordsOf_append_dash (a b : String) : wordsOf (a ++ "-" ++ b) = wordsOf a ++ wordsOf b := by
  have hdash : legalize "-".toList = ['-'] := by decide
  rw [wordsOf, String.toList_append, String.toList_append, legalize_append, legalize_append, hdash,
    List.append_assoc, List.singleton_append, words_append_dash]
  rfl

theorem substituteChar_legal (c : Char) : isAlnum (substituteChar c) = true ∨
    substituteChar c = '-' := by
  unfold substituteChar
  split
  · next h =>
    rcases Bool.or_eq_true _ _ ▸ h with h | h
    · exact .inl h
    · exact .inr (beq_iff_eq.mp h)
  · exact .inr rfl

/-- The words of a text are alphanumeric, whatever the text is. -/
theorem wordsOf_word {s : String} {w : List Char} (h : w ∈ wordsOf s) :
    w ≠ [] ∧ ∀ c ∈ w, isAlnum c = true := by
  obtain ⟨hne, hdash⟩ := isWord_of_mem_words h
  refine ⟨hne, fun c hc => ?_⟩
  obtain ⟨d, _, rfl⟩ := List.mem_map.mp (mem_of_mem_words h c hc)
  rcases substituteChar_legal d with hlegal | hlegal
  · exact hlegal
  · rw [hlegal] at hc
    exact absurd hc hdash

theorem lowerChar_of_legal {c : Char} (h : isAlnum c = true ∨ c = '-') : lowerChar c = [c] := by
  rcases h with h | rfl
  · rw [isAlnum_iff] at h
    have hcapital : ¬ ('A' ≤ c ∧ c ≤ 'Z') := by
      show ¬ (65 ≤ c.toNat ∧ c.toNat ≤ 90)
      omega
    have hdotted : c ≠ '\u0130' := by
      rintro rfl
      revert h
      decide
    have hkelvin : c ≠ '\u212a' := by
      rintro rfl
      revert h
      decide
    rw [lowerChar, if_neg hcapital, if_neg hdotted, if_neg hkelvin]
  · rfl

theorem legalize_of_legal {cs : List Char} (h : ∀ c ∈ cs, isAlnum c = true ∨ c = '-') :
    legalize cs = cs := by
  induction cs with
  | nil => rfl
  | cons c cs ih =>
    have hlegal := h c List.mem_cons_self
    have hc : lowerChar c = [c] := lowerChar_of_legal hlegal
    have hs : substituteChar c = c := by
      rw [substituteChar, if_pos]
      rcases hlegal with ha | rfl
      · rw [ha, Bool.true_or]
      · rfl
    rw [← List.singleton_append, legalize_append, ih fun d hd => h d (List.mem_cons_of_mem c hd)]
    simp [legalize, hc, hs]

/-- A name is read back as the words it was written from. -/
theorem wordsOf_nameOf {ws : List (List Char)} (h : NameWords ws) : wordsOf (nameOf ws) = ws := by
  have hlegal : legalize (dashed ws) = dashed ws := by
    refine legalize_of_legal fun c hc => ?_
    rcases mem_dashed hc with rfl | ⟨w, hw, hcw⟩
    · exact .inr rfl
    · exact .inl ((h.word w hw).2 c hcw)
  rw [wordsOf, nameOf, String.toList_ofList, hlegal, words_dashed h.isWord]

theorem nameOf_injective {a b : List (List Char)} (ha : NameWords a) (hb : NameWords b)
    (h : nameOf a = nameOf b) : a = b := by
  rw [← wordsOf_nameOf ha, h, wordsOf_nameOf hb]

theorem length_nameOf (ws : List (List Char)) : (nameOf ws).length = (dashed ws).length := by
  rw [nameOf, String.length_ofList]

theorem NameWords.legal {ws : List (List Char)} (h : NameWords ws) :
    ∀ c ∈ dashed ws, isAlnum c = true ∨ c = '-' := by
  intro c hc
  rcases mem_dashed hc with rfl | ⟨w, hw, hcw⟩
  · exact .inr rfl
  · exact .inl ((h.word w hw).2 c hcw)

theorem NameWords.first {ws : List (List Char)} (h : NameWords ws) :
    ∃ c, (dashed ws).head? = some c ∧ isAlnum c = true := by
  have hne := dashed_ne_nil h.isWord h.ne_nil
  have hfirst := head?_dashed h.isWord
  rw [List.head?_eq_some_head hne] at hfirst ⊢
  refine ⟨_, rfl, (h.legal _ (List.head_mem hne)).resolve_right fun hc => ?_⟩
  exact hfirst (congrArg some hc)

theorem NameWords.last {ws : List (List Char)} (h : NameWords ws) :
    ∃ c, (dashed ws).getLast? = some c ∧ isAlnum c = true := by
  have hne := dashed_ne_nil h.isWord h.ne_nil
  have hlast := List.rdropWhile_eq_self_iff.mp (rstrip_dashed h.isWord) hne
  rw [List.getLast?_eq_some_getLast hne]
  refine ⟨_, rfl, (h.legal _ (List.getLast_mem hne)).resolve_right fun hc => ?_⟩
  exact hlast (by rw [hc]; rfl)

/-! ## Cutting a name -/

/-- What is left of a name cut short, and stripped of a dash at its new end, is a name. -/
theorem NameWords.cut {ws : List (List Char)} (h : NameWords ws) {n : Nat} (hn : 1 ≤ n) :
    NameWords (words ((dashed ws).take n)) := by
  refine ⟨?_, fun w hw => ?_⟩
  · have hhead := head?_dashed h.isWord
    cases hd : dashed ws with
    | nil => exact absurd hd (dashed_ne_nil h.isWord h.ne_nil)
    | cons c cs =>
      rw [hd] at hhead
      obtain ⟨m, rfl⟩ := Nat.exists_eq_add_of_le' hn
      exact words_ne_nil List.mem_cons_self fun hc => hhead (congrArg some hc)
  · obtain ⟨hne, hdash⟩ := isWord_of_mem_words hw
    refine ⟨hne, fun c hc => ?_⟩
    rcases mem_dashed (List.mem_of_mem_take (mem_of_mem_words hw c hc)) with rfl | ⟨v, hv, hcv⟩
    · exact absurd hc hdash
    · exact (h.word v hv).2 c hcv

theorem wordsOf_nameWords {s : String} (h : wordsOf s ≠ []) : NameWords (wordsOf s) :=
  ⟨h, fun _ hw => wordsOf_word hw⟩

/-- A text with a word in it is sanitized to the name of its words, cut to the length. -/
theorem sanitizeK8sName_eq {s : String} (h : wordsOf s ≠ []) {n : Nat} (hn : 1 ≤ n) :
    sanitizeK8sName s n = nameOf (words ((dashed (wordsOf s)).take n)) := by
  have hws := wordsOf_nameWords h
  have hcut := hws.cut hn
  have hne := dashed_ne_nil hcut.isWord hcut.ne_nil
  rw [sanitizeK8sName, strip_squeeze]
  show (if (rstripDash ((dashed (wordsOf s)).take n)).isEmpty then "step" else
    String.ofList (rstripDash ((dashed (wordsOf s)).take n))) = _
  rw [rstrip_take_dashed hws.isWord, if_neg (by simpa using hne)]
  rfl

/-- A name that fits is the name of all the words. -/
theorem sanitizeK8sName_short {s : String} (h : wordsOf s ≠ []) {n : Nat} (hn : 1 ≤ n)
    (hlen : (dashed (wordsOf s)).length ≤ n) : sanitizeK8sName s n = nameOf (wordsOf s) := by
  rw [sanitizeK8sName_eq h hn, List.take_of_length_le hlen,
    words_dashed (wordsOf_nameWords h).isWord]

/-- A name is its own sanitized form. -/
theorem sanitizeK8sName_nameOf {ws : List (List Char)} (h : NameWords ws) {n : Nat} (hn : 1 ≤ n)
    (hlen : (nameOf ws).length ≤ n) : sanitizeK8sName (nameOf ws) n = nameOf ws := by
  have hwords := wordsOf_nameOf h
  have hne : wordsOf (nameOf ws) ≠ [] := by
    rw [hwords]
    exact h.ne_nil
  rw [length_nameOf, ← hwords] at hlen
  rw [sanitizeK8sName_short hne hn hlen, hwords]

/-- A name that does not fit loses one character more than it has to, at most. -/
theorem length_cut {ws : List (List Char)} (h : NameWords ws) {n : Nat}
    (hlen : n ≤ (dashed ws).length) :
    (dashed (words ((dashed ws).take n))).length ≤ n ∧
      n ≤ (dashed (words ((dashed ws).take n))).length + 1 := by
  have hrun : NoRun ((dashed ws).take n) := (noRun_dashed h.isWord).take n
  have hshort := hrun.length_le
  rw [rstrip_take_dashed h.isWord, List.length_take, Nat.min_eq_left hlen] at hshort
  refine ⟨?_, hshort⟩
  rw [← rstrip_take_dashed h.isWord]
  calc (rstripDash ((dashed ws).take n)).length ≤ ((dashed ws).take n).length :=
        (List.rdropWhile_prefix _ _).length_le
    _ ≤ n := by rw [List.length_take]; exact Nat.min_le_left _ _

/-! ## The names of the compiler -/

theorem Sha256.length_digest (sha : Sha256) (s : String) : (sha.digest 8 s).length = 8 := by
  rw [Sha256.digest, List.length_take, sha.length_eq]
  rfl

theorem Sha256.digest_word (sha : Sha256) (s : String) :
    sha.digest 8 s ≠ [] ∧ ∀ c ∈ sha.digest 8 s, isAlnum c = true := by
  refine ⟨fun hnil => ?_, fun c hc => ?_⟩
  · have hlen := sha.length_digest s
    rw [hnil] at hlen
    cases hlen
  · rw [isAlnum_iff]
    have hhex : (48 ≤ c.toNat ∧ c.toNat ≤ 57) ∨ (97 ≤ c.toNat ∧ c.toNat ≤ 102) :=
      sha.hex s c (List.mem_of_mem_take hc)
    omega

/-- Whether `_collision_resistant_k8s_name` has to hash the name. -/
def Hashed (s : String) (n : Nat) : Prop := n < (sanitizeK8sName s 253).length

/-- A name whose words do not fit is hashed. -/
theorem hashed_of_long {s : String} (h : wordsOf s ≠ []) {n : Nat} (hmax : n < 252)
    (hlen : n < (dashed (wordsOf s)).length) : Hashed s n := by
  have hws := wordsOf_nameWords h
  rw [Hashed, sanitizeK8sName_eq h (by decide), length_nameOf]
  by_cases hfits : 253 ≤ (dashed (wordsOf s)).length
  · have hcut := (length_cut hws hfits).2
    omega
  · rw [List.take_of_length_le (by omega), words_dashed hws.isWord]
    exact hlen

/-- A name that fits is not hashed. -/
theorem cutName_short (sha : Sha256) {s : String} (h : wordsOf s ≠ []) {n : Nat}
    (hn : n ≤ 253) (hlen : (dashed (wordsOf s)).length ≤ n) :
    cutName sha s n 8 = nameOf (wordsOf s) := by
  have hshort : sanitizeK8sName s 253 = nameOf (wordsOf s) :=
    sanitizeK8sName_short h (by decide) (hlen.trans hn)
  rw [cutName, hshort]
  exact if_pos (by rwa [length_nameOf])

/-- A name that has to be hashed is some words of it and the digest of the whole. -/
theorem cutName_long (sha : Sha256) {s : String} (h : wordsOf s ≠ []) {n : Nat} (hn : 10 ≤ n)
    (hmax : n ≤ 253) (hhashed : Hashed s n) :
    ∃ head, NameWords head ∧ cutName sha s n 8 = nameOf (head ++ [sha.digest 8 s]) ∧
      (nameOf (head ++ [sha.digest 8 s])).length ≤ n ∧
      ∀ ws vs, wordsOf s = ws ++ vs → ws ≠ [] → (dashed ws).length ≤ n - 8 - 1 →
        ∃ more, head = ws ++ more := by
  have hnorm : sanitizeK8sName s 253 = nameOf (words ((dashed (wordsOf s)).take 253)) :=
    sanitizeK8sName_eq h (by decide)
  have hname : NameWords (words ((dashed (wordsOf s)).take 253)) :=
    (wordsOf_nameWords h).cut (by decide)
  rw [Hashed, hnorm, length_nameOf] at hhashed
  have hkept : ∀ ws vs, wordsOf s = ws ++ vs → ws ≠ [] → (dashed ws).length ≤ n - 8 - 1 →
      ∃ more, words ((dashed (words ((dashed (wordsOf s)).take 253))).take (n - 8 - 1)) =
        ws ++ more := by
    intro ws vs hws hne hlen
    have hwords : ∀ w ∈ ws, IsWord w := fun w hw =>
      (wordsOf_nameWords h).isWord w (hws ▸ List.mem_append_left vs hw)
    obtain ⟨more, hmore⟩ := words_take_dashed hwords hne (show (dashed ws).length ≤ 253 by omega)
    rw [hws, hmore]
    exact words_take_dashed hwords hne hlen
  generalize words ((dashed (wordsOf s)).take 253) = normalized at hnorm hname hhashed hkept
  have hhead : NameWords (words ((dashed normalized).take (n - 8 - 1))) := hname.cut (by omega)
  have hne := dashed_ne_nil hhead.isWord hhead.ne_nil
  have hcut : cutName sha s n 8 =
      nameOf (words ((dashed normalized).take (n - 8 - 1)) ++ [sha.digest 8 s]) := by
    rw [cutName, hnorm]
    show (if (nameOf normalized).length ≤ n then _ else _) = _
    rw [length_nameOf, if_neg (by omega), nameOf, String.toList_ofList,
      rstrip_take_dashed hname.isWord]
    show String.ofList ((if (dashed (words ((dashed normalized).take (n - 8 - 1)))).isEmpty
      then _ else _) ++ '-' :: sha.digest 8 s) = _
    rw [if_neg (by simpa using hne), nameOf, dashed_append_singleton hhead.ne_nil]
  refine ⟨_, hhead, hcut, ?_, hkept⟩
  have hlength := (length_cut hname (show n - 8 - 1 ≤ (dashed normalized).length by omega)).1
  rw [length_nameOf, dashed_append_singleton hhead.ne_nil, List.length_append, List.length_cons,
    sha.length_digest]
  omega

/-- The words of a name the compiler makes: those of the text, or some of them and the digest
of the text when it is hashed. -/
inductive CutForm (sha : Sha256) (s : String) (n : Nat) : List (List Char) → Prop where
  | whole : CutForm sha s n (wordsOf s)
  | hashed {head : List (List Char)} (hashed : Hashed s n) (name : NameWords head) :
      CutForm sha s n (head ++ [sha.digest 8 s])

/-- What `_collision_resistant_k8s_name` makes of a text with a word in it. -/
theorem cutName_form (sha : Sha256) {s : String} (h : wordsOf s ≠ []) {n : Nat} (hn : 10 ≤ n)
    (hmax : n < 252) :
    ∃ ws, NameWords ws ∧ CutForm sha s n ws ∧ cutName sha s n 8 = nameOf ws ∧
      (nameOf ws).length ≤ n := by
  by_cases hlen : (dashed (wordsOf s)).length ≤ n
  · refine ⟨_, wordsOf_nameWords h, .whole, cutName_short sha h (by omega) hlen, ?_⟩
    rwa [length_nameOf]
  · have hhashed := hashed_of_long h hmax (by omega)
    obtain ⟨head, hhead, hcut, hlength, _⟩ := cutName_long sha h hn (by omega) hhashed
    refine ⟨_, hhead.append fun w hw => ?_, .hashed hhashed hhead, hcut, hlength⟩
    rw [List.mem_singleton.mp hw]
    exact sha.digest_word s

/-- The words at the beginning of a text are at the beginning of its name, when a hashed name has
room for them. -/
theorem cutName_keeps (sha : Sha256) {s : String} {ws vs : List (List Char)}
    (hs : wordsOf s = ws ++ vs) (hne : ws ≠ []) {n : Nat} (hn : 10 ≤ n) (hmax : n < 252)
    (hlen : (dashed ws).length ≤ n - 8 - 1) :
    ∃ more, NameWords (ws ++ more) ∧ cutName sha s n 8 = nameOf (ws ++ more) ∧
      (nameOf (ws ++ more)).length ≤ n := by
  have h : wordsOf s ≠ [] := by
    rw [hs]
    exact List.append_ne_nil_of_left_ne_nil hne vs
  by_cases hshort : (dashed (wordsOf s)).length ≤ n
  · refine ⟨vs, hs ▸ wordsOf_nameWords h, ?_, ?_⟩
    · rw [cutName_short sha h (by omega) hshort, hs]
    · rwa [length_nameOf, ← hs]
  · have hhashed := hashed_of_long h hmax (by omega)
    obtain ⟨head, hhead, hcut, hlength, hkept⟩ := cutName_long sha h hn (by omega) hhashed
    obtain ⟨more, rfl⟩ := hkept ws vs hs hne hlen
    rw [List.append_assoc] at hcut hlength
    refine ⟨more ++ [sha.digest 8 s], ?_, hcut, hlength⟩
    rw [← List.append_assoc]
    apply hhead.append
    intro w hw
    rw [List.mem_singleton.mp hw]
    exact sha.digest_word s

theorem collisionResistantK8sName_eq (sha : Sha256) (s : String) {n : Nat} (hn : 10 ≤ n) :
    collisionResistantK8sName sha s n 8 = .ok (cutName sha s n 8) :=
  if_neg (by omega)

end MissionCompiler.Names
