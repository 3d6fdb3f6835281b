import MissionCompiler.Lib.Patterns
import MissionCompiler.Names.Sanitize

/-!
# The grammars of Kubernetes names

What a DNS label, a DNS subdomain and the parts of a label selector are, each said by what the
text is put together from. Both modules of the source that check names write the pattern of a DNS
label down, and `fullmatch_dnsLabel` is about the pattern.
-/

namespace MissionCompiler.Names

open Lib RegularExpression

/-! ## DNS names -/

/-- Lowercase letters, digits and dashes, without a dash at either end. -/
def DnsLabel (text : List Char) : Prop :=
  Bordered (fun c => isAlnum c = true) (fun c => isAlnum c = true ∨ c = '-') text

instance (text : List Char) : Decidable (DnsLabel text) :=
  inferInstanceAs (Decidable (Bordered _ _ text))

/-- DNS labels with one dot between them. -/
def DnsSubdomain (text : List Char) : Prop := Separated '.' DnsLabel text

/-! ## Label selectors -/

/-- `[A-Za-z0-9]`. -/
def isAlnumAnyCase (c : Char) : Bool := isAlnum c || ('A' ≤ c && c ≤ 'Z')

/-- `[A-Za-z0-9._-]`. -/
def isNameChar (c : Char) : Bool := isAlnumAnyCase c || c == '-' || c == '_' || c == '.'

/-- The name segment of a key, and a value that is not empty. -/
structure NameSegment (text : List Char) : Prop where
  bordered : Bordered (fun c => isAlnumAnyCase c = true) (fun c => isNameChar c = true) text
  length_le : text.length ≤ 63

/-- The prefix of a key: a DNS subdomain with room for 63 characters in each of its labels. -/
structure LabelPrefix (text : List Char) : Prop where
  labels : Separated '.' (fun part => DnsLabel part ∧ part.length ≤ 63) text
  length_le : text.length ≤ 253

/-- A key: a name segment, or a prefix, a slash and a name segment. -/
inductive QualifiedName : List Char → Prop where
  | plain {name : List Char} (segment : NameSegment name) : QualifiedName name
  | prefixed {before name : List Char} (domain : LabelPrefix before)
      (segment : NameSegment name) : QualifiedName (before ++ '/' :: name)

/-- A value is empty, or like a name segment. -/
def LabelValue (text : List Char) : Prop := text = [] ∨ NameSegment text

/-- Keys and values of a selector. -/
def LabelSelector (selector : List (String × String)) : Prop :=
  ∀ e ∈ selector, QualifiedName e.1.toList ∧ LabelValue e.2.toList

/-! ## Characters -/

theorem isAlnumAnyCase_ascii {c : Char} (h : isAlnumAnyCase c = true) : c.toNat < 128 := by
  simp only [isAlnumAnyCase, Bool.or_eq_true, isAlnum_iff, Bool.and_eq_true,
    decide_eq_true_eq] at h
  rcases h with h | ⟨_, h⟩
  · omega
  · have hcapital : c.toNat ≤ 90 := h
    omega

theorem mem_lowerAlnum (c : Char) : c ∈ lowerAlnum.toList ↔ isAlnum c = true := by
  constructor
  · have hall : lowerAlnum.toList.all isAlnum = true := by decide
    exact fun hc => List.all_eq_true.mp hall c hc
  · intro hc
    have hall : ∀ n < 128, isAlnum (Char.ofNat n) = true → Char.ofNat n ∈ lowerAlnum.toList := by
      decide +kernel
    refine of_ascii (P := fun c => isAlnum c = true → c ∈ lowerAlnum.toList) hall ?_ hc
    rw [isAlnum_iff] at hc
    omega

theorem mem_dashLowerAlnum (c : Char) :
    c ∈ ("-" ++ lowerAlnum).toList ↔ isAlnum c = true ∨ c = '-' := by
  rw [String.toList_append, List.mem_append, mem_lowerAlnum, or_comm]
  exact or_congr Iff.rfl List.mem_singleton

/-! ## DNS labels -/

theorem fullmatch_dnsLabel {text : List Char} :
    fullmatch (charClass lowerAlnum * optional (star (charClass ("-" ++ lowerAlnum)) *
      charClass lowerAlnum)) text = true ↔ DnsLabel text :=
  bordered_iff mem_lowerAlnum mem_dashLowerAlnum fun _ => Or.inl

theorem DnsLabel.ne_nil {text : List Char} (h : DnsLabel text) : text ≠ [] := by
  rintro rfl
  obtain ⟨c, hc, _⟩ := h.first
  cases hc

/-- A label has no character that is neither alphanumeric nor a dash. -/
theorem DnsLabel.not_mem {text : List Char} (h : DnsLabel text) {c : Char}
    (hc : isAlnum c = false) (hdash : c ≠ '-') : c ∉ text := by
  intro hm
  rcases h.legal c hm with halnum | rfl
  · rw [hc] at halnum
    exact Bool.noConfusion halnum
  · exact hdash rfl

theorem DnsLabel.no_dot {text : List Char} (h : DnsLabel text) : '.' ∉ text :=
  h.not_mem (by decide) (by decide)

theorem NameSegment.no_slash {text : List Char} (h : NameSegment text) : '/' ∉ text := by
  intro hm
  exact absurd (h.bordered.legal _ hm) (by decide)

/-! ## Prefixes -/

/-- A prefix is recognized by its parts. -/
theorem labelPrefix_iff {before : List Char} :
    LabelPrefix before ↔ before.length ≤ 253 ∧
      ∀ part ∈ before.splitOn '.', DnsLabel part ∧ part.length ≤ 63 := by
  have hlabels : Separated '.' (fun part => DnsLabel part ∧ part.length ≤ 63) before ↔ _ :=
    separated_iff fun part h => h.1.no_dot
  rw [← hlabels]
  exact ⟨fun h => ⟨h.length_le, h.labels⟩, fun ⟨hlen, h⟩ => ⟨h, hlen⟩⟩

theorem LabelPrefix.ne_nil {before : List Char} (h : LabelPrefix before) : before ≠ [] := by
  rintro rfl
  have hpart := (labelPrefix_iff.mp h).2 [] (by simp)
  exact hpart.1.ne_nil rfl

end MissionCompiler.Names
