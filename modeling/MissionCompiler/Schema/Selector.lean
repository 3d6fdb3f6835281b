import MissionCompiler.Names.Grammar

/-!
# Node selectors

`_valid_label_selector`: the keys and values a step prefers its nodes by are copied into a label
selector, so they are held to its grammar here. A key is split at its last slash, and a prefix at
its dots. The first entry that is refused is the one the message is about.
-/

namespace MissionCompiler.Schema

open Lib Names RegularExpression

/-! ## The code -/

def dnsLabelRe : RegularExpression Char :=
  charClass lowerAlnum * optional (star (charClass ("-" ++ lowerAlnum)) * charClass lowerAlnum)

/-- The characters of `[A-Za-z0-9]`. -/
def anyCaseAlnum : String := "ABCDEFGHIJKLMNOPQRSTUVWXYZ" ++ lowerAlnum

/-- `[A-Za-z0-9]([-A-Za-z0-9_.]*[A-Za-z0-9])?`. -/
def labelNameRe : RegularExpression Char :=
  charClass anyCaseAlnum *
    optional (star (charClass ("-" ++ anyCaseAlnum ++ "_.")) * charClass anyCaseAlnum)

def labelValueRe : RegularExpression Char := labelNameRe

/-- `key.rpartition("/")`, with whether there is a separator. -/
def rpartition (key : List Char) : List Char × Bool × List Char :=
  let upToSlash := key.rdropWhile (· != '/')
  (upToSlash.dropLast, !upToSlash.isEmpty, key.rtakeWhile (· != '/'))

inductive SelectorRefusal where
  | invalidName (key : String)
  | emptyPrefix (key : String)
  | invalidPrefix (key : String)
  | notLabelValue (key value : String)

/-- The message of the `ValueError`. The `repr` of a string is Python's. -/
def SelectorRefusal.text (reprStr : String → String) : SelectorRefusal → String
  | .invalidName key => "node selector key " ++ reprStr key ++ " has an invalid name segment"
  | .emptyPrefix key => "node selector key " ++ reprStr key ++ " has an empty prefix"
  | .invalidPrefix key => "node selector key " ++ reprStr key ++ " has an invalid prefix"
  | .notLabelValue key value => "node selector value " ++ reprStr value ++ " for " ++ reprStr key ++
      " is not a label value"

/-- The body of the loop. -/
def checkSelectorEntry (key value : String) : Except SelectorRefusal Unit :=
  let (before, separator, name) := rpartition key.toList
  if !fullmatch labelNameRe name || name.length > 63 then .error (.invalidName key)
  else if separator && before.isEmpty then .error (.emptyPrefix key)
  else
    let parts := if before.isEmpty then [] else before.splitOn '.'
    if !before.isEmpty && (before.length > 253 ||
        !parts.all fun part => fullmatch dnsLabelRe part && part.length ≤ 63) then
      .error (.invalidPrefix key)
    else if !value.isEmpty && (value.length > 63 || !fullmatch labelValueRe value.toList) then
      .error (.notLabelValue key value)
    else .ok ()

/-- `_valid_label_selector`. -/
def validLabelSelector (selector : List (String × String)) :
    Except SelectorRefusal (List (String × String)) := do
  selector.forM fun e => checkSelectorEntry e.1 e.2
  return selector

/-! ## Splitting a key -/

theorem rpartition_slash {before name : List Char} (h : '/' ∉ name) :
    rpartition (before ++ '/' :: name) = (before, true, name) := by
  have hname : ∀ c ∈ name.reverse, (c != '/') = true := by
    intro c hc
    rw [List.mem_reverse] at hc
    exact bne_iff_ne.mpr fun heq => h (heq ▸ hc)
  have hrev : (before ++ '/' :: name).reverse = name.reverse ++ '/' :: before.reverse := by simp
  have hdrop : (before ++ '/' :: name).rdropWhile (· != '/') = before ++ ['/'] := by
    rw [List.rdropWhile, hrev, List.dropWhile_append_of_pos hname,
      List.dropWhile_cons_of_neg (by simp), List.reverse_cons, List.reverse_reverse]
  have htake : (before ++ '/' :: name).rtakeWhile (· != '/') = name := by
    rw [List.rtakeWhile, hrev, List.takeWhile_append_of_pos hname,
      List.takeWhile_cons_of_neg (by simp), List.append_nil, List.reverse_reverse]
  rw [rpartition, hdrop, htake, List.dropLast_concat]
  simp

theorem rpartition_plain {key : List Char} (h : '/' ∉ key) : rpartition key = ([], false, key) := by
  have hkey : ∀ c ∈ key, (c != '/') = true := fun c hc => bne_iff_ne.mpr fun heq => h (heq ▸ hc)
  rw [rpartition, List.rdropWhile_eq_nil_iff.mpr hkey, List.rtakeWhile_eq_self_iff.mpr hkey]
  rfl

/-- A text with a slash in it ends in one and a part without. -/
theorem exists_lastSlash {key : List Char} (h : '/' ∈ key) :
    ∃ before name, key = before ++ '/' :: name ∧ '/' ∉ name := by
  obtain ⟨name, before, heq, hname⟩ := List.eq_append_cons_of_mem (List.mem_reverse.mpr h)
  refine ⟨before.reverse, name.reverse, ?_, fun hm => hname (List.mem_reverse.mp hm)⟩
  rw [← List.reverse_reverse key, heq]
  simp

/-! ## What is accepted -/

theorem mem_anyCaseAlnum (c : Char) : c ∈ anyCaseAlnum.toList ↔ isAlnumAnyCase c = true := by
  constructor
  · have hall : anyCaseAlnum.toList.all isAlnumAnyCase = true := by decide +kernel
    exact fun hc => List.all_eq_true.mp hall c hc
  · intro hc
    have hall : ∀ n < 128, isAlnumAnyCase (Char.ofNat n) = true →
        Char.ofNat n ∈ anyCaseAlnum.toList := by decide +kernel
    exact of_ascii (P := fun c => isAlnumAnyCase c = true → c ∈ anyCaseAlnum.toList) hall
      (isAlnumAnyCase_ascii hc) hc

theorem mem_nameChars (c : Char) :
    c ∈ ("-" ++ anyCaseAlnum ++ "_.").toList ↔ isNameChar c = true := by
  rw [String.toList_append, String.toList_append, List.mem_append, List.mem_append,
    mem_anyCaseAlnum]
  have hdash : c ∈ "-".toList ↔ c = '-' := List.mem_singleton
  have htail : c ∈ "_.".toList ↔ c = '_' ∨ c = '.' := List.mem_pair
  rw [hdash, htail]
  simp only [isNameChar, Bool.or_eq_true, beq_iff_eq]
  grind

theorem fullmatch_labelName {text : List Char} :
    fullmatch labelNameRe text = true ↔ Bordered (fun c => isAlnumAnyCase c = true)
      (fun c => isNameChar c = true) text :=
  bordered_iff mem_anyCaseAlnum mem_nameChars fun c hc => by simp [isNameChar, hc]

/-- The check of a name segment. -/
theorem nameCheck_iff {name : List Char} :
    ¬ (!fullmatch labelNameRe name || name.length > 63) = true ↔ NameSegment name := by
  have hsegment : fullmatch labelNameRe name = true ∧ name.length ≤ 63 ↔ NameSegment name := by
    rw [fullmatch_labelName]
    exact ⟨fun ⟨h, hlen⟩ => ⟨h, hlen⟩, fun h => ⟨h.bordered, h.length_le⟩⟩
  rw [← hsegment]
  simp

/-- The check of a value. -/
theorem valueCheck_iff {value : String} :
    ¬ (!value.isEmpty && (value.length > 63 || !fullmatch labelValueRe value.toList)) = true ↔
      LabelValue value.toList := by
  have hempty : value.isEmpty = true ↔ value.toList = [] := by simp
  have hsegment : ¬ (!fullmatch labelValueRe value.toList || value.length > 63) = true ↔
      NameSegment value.toList := nameCheck_iff
  rw [LabelValue, ← hempty, ← hsegment, Bool.or_comm]
  cases value.isEmpty <;> simp

/-- The checks of a prefix, when there is a slash after it. -/
theorem prefixCheck_iff {before : List Char} :
    ¬ before.isEmpty = true ∧
        ¬ (!before.isEmpty && (before.length > 253 ||
          !(if before.isEmpty then [] else before.splitOn '.').all fun part =>
            fullmatch dnsLabelRe part && part.length ≤ 63)) = true ↔
      LabelPrefix before := by
  have hlabel : ∀ part, fullmatch dnsLabelRe part = true ↔ DnsLabel part := fun part =>
    fullmatch_dnsLabel
  cases hempty : before.isEmpty with
  | true =>
    rw [List.isEmpty_iff] at hempty
    exact ⟨fun h => absurd rfl h.1, fun h => absurd hempty h.ne_nil⟩
  | false =>
    rw [labelPrefix_iff]
    simp [hlabel]

/-- A key without a slash is a name segment. -/
theorem qualifiedName_plain {key : List Char} (h : '/' ∉ key) :
    QualifiedName key ↔ NameSegment key := by
  constructor
  · intro hkey
    cases hkey with
    | plain segment => exact segment
    | prefixed => exact absurd (List.mem_append_right _ List.mem_cons_self) h
  · exact .plain

/-- A key with a slash has a prefix before the last one. -/
theorem qualifiedName_slash {before name : List Char} (h : '/' ∉ name) :
    QualifiedName (before ++ '/' :: name) ↔ LabelPrefix before ∧ NameSegment name := by
  constructor
  · intro hkey
    generalize htext : before ++ '/' :: name = text at hkey
    cases hkey with
    | plain segment =>
      rw [← htext] at segment
      exact absurd (List.mem_append_right before List.mem_cons_self) segment.no_slash
    | prefixed domain segment =>
      have hsplit := congrArg rpartition htext
      rw [rpartition_slash h, rpartition_slash segment.no_slash] at hsplit
      cases hsplit
      exact ⟨domain, segment⟩
  · exact fun ⟨domain, segment⟩ => .prefixed domain segment

/-- One entry is accepted as a key and a value of a label selector. -/
theorem checkSelectorEntry_eq_ok {key value : String} :
    checkSelectorEntry key value = .ok () ↔
      QualifiedName key.toList ∧ LabelValue value.toList := by
  rw [← valueCheck_iff]
  by_cases hslash : '/' ∈ key.toList
  · obtain ⟨before, name, hkey, hname⟩ := exists_lastSlash hslash
    rw [hkey, qualifiedName_slash hname, ← nameCheck_iff, ← prefixCheck_iff, checkSelectorEntry,
      hkey, rpartition_slash hname]
    simp only [ite_error_eq_ok, Bool.true_and, and_true]
    tauto
  · rw [qualifiedName_plain hslash, ← nameCheck_iff, checkSelectorEntry, rpartition_plain hslash]
    simp only [ite_error_eq_ok, Bool.false_and, List.isEmpty_nil, Bool.not_true]
    simp

/-- `_valid_label_selector` accepts the label selectors, and leaves them as they are. -/
theorem validLabelSelector_eq_ok {selector result : List (String × String)} :
    validLabelSelector selector = .ok result ↔ result = selector ∧ LabelSelector selector := by
  have hentries : selector.forM (fun e => checkSelectorEntry e.1 e.2) = .ok () ↔
      LabelSelector selector :=
    forM_eq_ok.trans (forall₂_congr fun _ _ => checkSelectorEntry_eq_ok)
  rw [validLabelSelector, bind_eq_ok, ← hentries]
  constructor
  · rintro ⟨_, h, hresult⟩
    exact ⟨(Except.ok.inj hresult).symm, h⟩
  · rintro ⟨rfl, h⟩
    exact ⟨(), h, rfl⟩

end MissionCompiler.Schema
