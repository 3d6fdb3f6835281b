import Mathlib.Computability.RegularExpressions

/-!
# Patterns

The pieces a pattern of Python is put together from, as regular expressions, and what a text
looks like that each of them matches. `re.fullmatch` is membership in the language, so no choice
of a matcher is left to reason about: a matched text comes apart at every product, and a star of
a class is a text over the class.
-/

namespace Lib

open RegularExpression

/-! ## Pieces -/

def lowerAlnum : String := "abcdefghijklmnopqrstuvwxyz0123456789"

/-- `[…]`. -/
def charClass (cs : String) : RegularExpression Char := (cs.toList.map char).sum

/-- `(…)?`. -/
def optional (r : RegularExpression Char) : RegularExpression Char := 1 + r

/-- One of a few words. -/
def oneOf (ws : List String) : RegularExpression Char :=
  (ws.map fun w => (w.toList.map char).prod).sum

/-- `pattern.fullmatch(text)`. -/
def fullmatch (pattern : RegularExpression Char) (text : List Char) : Bool := pattern.rmatch text

/-! ## What they match -/

section

variable {p q : RegularExpression Char} {text : List Char}

theorem fullmatch_iff : fullmatch p text = true ↔ text ∈ p.matches' := rmatch_iff_matches' p text

theorem mem_char {c : Char} : text ∈ (char c).matches' ↔ text = [c] := by
  rw [matches'_char]
  rfl

theorem mem_alt : text ∈ (p + q).matches' ↔ text ∈ p.matches' ∨ text ∈ q.matches' := by
  rw [matches'_add, Language.mem_add]

theorem mem_mul : text ∈ (p * q).matches' ↔
    ∃ a b, text = a ++ b ∧ a ∈ p.matches' ∧ b ∈ q.matches' := by
  rw [matches'_mul, Language.mem_mul]
  constructor
  · rintro ⟨a, ha, b, hb, rfl⟩
    exact ⟨a, b, rfl, ha, hb⟩
  · rintro ⟨a, b, rfl, ha, hb⟩
    exact ⟨a, ha, b, hb, rfl⟩

theorem mem_optional : text ∈ (optional p).matches' ↔ text = [] ∨ text ∈ p.matches' := by
  rw [optional, mem_alt, matches'_epsilon, Language.mem_one]

theorem mem_charSum {cs : List Char} :
    text ∈ ((cs.map char).sum).matches' ↔ ∃ c ∈ cs, text = [c] := by
  induction cs with
  | nil => simp [matches'_zero, Language.notMem_zero]
  | cons c cs ih =>
    rw [List.map_cons, List.sum_cons, mem_alt, mem_char, ih, List.exists_mem_cons_iff]

theorem mem_charClass {s : String} : text ∈ (charClass s).matches' ↔ ∃ c ∈ s.toList, text = [c] :=
  mem_charSum

theorem mem_charProd {w : List Char} : text ∈ ((w.map char).prod).matches' ↔ text = w := by
  induction w generalizing text with
  | nil => rw [List.map_nil, List.prod_nil, matches'_epsilon, Language.mem_one]
  | cons c w ih =>
    rw [List.map_cons, List.prod_cons, mem_mul]
    constructor
    · rintro ⟨a, b, rfl, ha, hb⟩
      rw [mem_char.mp ha, ih.mp hb]
      rfl
    · rintro rfl
      exact ⟨[c], w, rfl, mem_char.mpr rfl, ih.mpr rfl⟩

theorem mem_oneOf {ws : List String} : text ∈ (oneOf ws).matches' ↔ ∃ w ∈ ws, text = w.toList := by
  induction ws with
  | nil => simp [oneOf, matches'_zero, Language.notMem_zero]
  | cons w ws ih =>
    rw [List.exists_mem_cons_iff, ← ih, ← mem_charProd]
    exact mem_alt

/-- A star of a class matches the texts over the class. -/
theorem mem_star_charClass {s : String} :
    text ∈ (star (charClass s)).matches' ↔ ∀ c ∈ text, c ∈ s.toList := by
  rw [matches'_star, Language.mem_kstar]
  constructor
  · rintro ⟨pieces, rfl, hpieces⟩ c hc
    obtain ⟨piece, hpiece, hc⟩ := List.mem_flatten.mp hc
    obtain ⟨d, hd, rfl⟩ := mem_charClass.mp (hpieces piece hpiece)
    exact List.mem_singleton.mp hc ▸ hd
  · intro h
    have hflat : text = (text.map fun c => [c]).flatten := by
      rw [← List.flatMap_def, List.flatMap_singleton']
    refine ⟨text.map fun c => [c], hflat, fun piece hpiece => ?_⟩
    obtain ⟨c, hc, rfl⟩ := List.mem_map.mp hpiece
    exact mem_charClass.mpr ⟨c, h c hc, rfl⟩

/-- One character of a class, and any more. -/
theorem mem_plus_charClass {s : String} :
    text ∈ (charClass s * star (charClass s)).matches' ↔
      text ≠ [] ∧ ∀ c ∈ text, c ∈ s.toList := by
  rw [mem_mul]
  constructor
  · rintro ⟨a, b, rfl, ha, hb⟩
    obtain ⟨c, hc, rfl⟩ := mem_charClass.mp ha
    exact ⟨List.cons_ne_nil c b, List.forall_mem_cons.mpr ⟨hc, mem_star_charClass.mp hb⟩⟩
  · rintro ⟨hne, h⟩
    obtain ⟨c, rest, rfl⟩ := List.exists_cons_of_ne_nil hne
    rw [List.forall_mem_cons] at h
    exact ⟨[c], rest, rfl, mem_charClass.mpr ⟨c, h.1, rfl⟩, mem_star_charClass.mpr h.2⟩

/-- A text over a class, not empty and no longer than `n`. -/
structure UpTo (s : String) (n : Nat) (text : List Char) : Prop where
  ne_nil : text ≠ []
  legal : ∀ c ∈ text, c ∈ s.toList
  length_le : text.length ≤ n

theorem upTo_one {s : String} : text ∈ (charClass s).matches' ↔ UpTo s 1 text := by
  rw [mem_charClass]
  constructor
  · rintro ⟨c, hc, rfl⟩
    exact ⟨List.cons_ne_nil c [], fun d hd => List.mem_singleton.mp hd ▸ hc, Nat.le_refl 1⟩
  · rintro ⟨hne, hlegal, hlen⟩
    obtain ⟨c, rfl⟩ := List.length_eq_one_iff.mp
      (Nat.le_antisymm hlen (List.length_pos_iff.mpr hne))
    exact ⟨c, hlegal c List.mem_cons_self, rfl⟩

/-- With one more optional character a text may be longer by one. -/
theorem upTo_succ {s : String} {n : Nat} (hn : 1 ≤ n)
    (h : ∀ text, text ∈ p.matches' ↔ UpTo s n text) :
    text ∈ (p * optional (charClass s)).matches' ↔ UpTo s (n + 1) text := by
  rw [mem_mul]
  constructor
  · rintro ⟨a, b, rfl, ha, hb⟩
    obtain ⟨hne, hlegal, hlen⟩ := (h a).mp ha
    refine ⟨List.append_ne_nil_of_left_ne_nil hne b, fun c hc => ?_, ?_⟩
    · rcases List.mem_append.mp hc with hc | hc
      · exact hlegal c hc
      · rcases mem_optional.mp hb with rfl | hb
        · cases hc
        · exact (upTo_one.mp hb).legal c hc
    · rw [List.length_append]
      rcases mem_optional.mp hb with rfl | hb
      · exact Nat.le_succ_of_le hlen
      · exact Nat.add_le_add hlen (upTo_one.mp hb).length_le
  · rintro ⟨hne, hlegal, hlen⟩
    by_cases hshort : text.length ≤ n
    · exact ⟨text, [], (List.append_nil text).symm, (h text).mpr ⟨hne, hlegal, hshort⟩,
        mem_optional.mpr (.inl rfl)⟩
    · obtain ⟨front, c, rfl⟩ := (List.eq_nil_or_concat' text).resolve_left hne
      rw [List.length_append, List.length_singleton] at hlen hshort
      have hfront : UpTo s n front := by
        refine ⟨List.length_pos_iff.mp (by omega), fun d hd => ?_, by omega⟩
        exact hlegal d (List.mem_append_left _ hd)
      refine ⟨front, [c], rfl, (h front).mpr hfront, mem_optional.mpr (.inr ?_)⟩
      exact mem_charClass.mpr ⟨c, hlegal c (List.mem_append_right _ List.mem_cons_self), rfl⟩

end

/-! ## Texts with edges -/

/-- A text of inner characters, with an edge character first and last. -/
structure Bordered (edge inner : Char → Prop) (text : List Char) : Prop where
  legal : ∀ c ∈ text, inner c
  first : ∃ c, text.head? = some c ∧ edge c
  last : ∃ c, text.getLast? = some c ∧ edge c

instance (edge inner : Char → Prop) [DecidablePred edge] [DecidablePred inner]
    (text : List Char) : Decidable (Bordered edge inner text) :=
  decidable_of_iff (text.all inner = true ∧ text.head?.any edge = true ∧
      text.getLast?.any edge = true) <| by
    simp only [List.all_eq_true, Option.any_eq_true, decide_eq_true_eq]
    exact ⟨fun h => ⟨h.1, h.2.1, h.2.2⟩, fun h => ⟨h.legal, h.first, h.last⟩⟩

/-- A pattern that asks for an edge character, or for two with inner characters between them. -/
theorem bordered_iff {edges inners : String} {edge inner : Char → Prop} {text : List Char}
    (hedge : ∀ c, c ∈ edges.toList ↔ edge c) (hinner : ∀ c, c ∈ inners.toList ↔ inner c)
    (hsub : ∀ c, edge c → inner c) :
    fullmatch (charClass edges * optional (star (charClass inners) * charClass edges)) text = true ↔
      Bordered edge inner text := by
  rw [fullmatch_iff, mem_mul]
  constructor
  · rintro ⟨a, b, rfl, ha, hb⟩
    obtain ⟨c, hc, rfl⟩ := mem_charClass.mp ha
    rw [hedge] at hc
    rcases mem_optional.mp hb with rfl | hb
    · exact ⟨fun d hd => List.mem_singleton.mp hd ▸ hsub c hc, ⟨c, rfl, hc⟩, ⟨c, rfl, hc⟩⟩
    · obtain ⟨middle, z, rfl, hmiddle, hz⟩ := mem_mul.mp hb
      obtain ⟨d, hd, rfl⟩ := mem_charClass.mp hz
      rw [hedge] at hd
      have hlast : ((c :: middle) ++ [d]).getLast? = some d := List.getLast?_concat
      refine ⟨fun e he => ?_, ⟨c, rfl, hc⟩, ⟨d, hlast, hd⟩⟩
      rcases List.mem_append.mp he with he | he
      · exact List.mem_singleton.mp he ▸ hsub c hc
      · rcases List.mem_append.mp he with he | he
        · exact (hinner e).mp (mem_star_charClass.mp hmiddle e he)
        · exact List.mem_singleton.mp he ▸ hsub d hd
  · rintro ⟨hlegal, ⟨c, hfirst, hc⟩, ⟨d, hlast, hd⟩⟩
    obtain ⟨rest, rfl⟩ := List.head?_eq_some_iff.mp hfirst
    refine ⟨[c], rest, rfl, mem_charClass.mpr ⟨c, (hedge c).mpr hc, rfl⟩, mem_optional.mpr ?_⟩
    rcases List.eq_nil_or_concat' rest with rfl | ⟨middle, z, rfl⟩
    · exact .inl rfl
    · have hz : ((c :: middle) ++ [z]).getLast? = some z := List.getLast?_concat
      have hd : edge z := Option.some.inj (hz.symm.trans hlast) ▸ hd
      refine .inr (mem_mul.mpr ⟨middle, [z], rfl, ?_, ?_⟩)
      · exact mem_star_charClass.mpr fun e he => (hinner e).mpr
          (hlegal e (List.mem_cons_of_mem c (List.mem_append_left _ he)))
      · exact mem_charClass.mpr ⟨z, (hedge z).mpr hd, rfl⟩

/-- What is checked of the ASCII characters is known of every one of them. -/
theorem of_ascii {P : Char → Prop} (h : ∀ n < 128, P (Char.ofNat n)) {c : Char}
    (hc : c.toNat < 128) : P c := by
  rw [← Char.ofNat_toNat c]
  exact h c.toNat hc

/-! ## Parts between dots -/

/-- Parts with one separator between them: one part at least. -/
def Separated (sep : Char) (part : List Char → Prop) (text : List Char) : Prop :=
  ∃ parts, parts ≠ [] ∧ (∀ w ∈ parts, part w) ∧ text = [sep].intercalate parts

/-- Such a text is recognized by splitting it. -/
theorem separated_iff {sep : Char} {part : List Char → Prop} {text : List Char}
    (hpart : ∀ w, part w → sep ∉ w) :
    Separated sep part text ↔ ∀ w ∈ text.splitOn sep, part w := by
  constructor
  · rintro ⟨parts, hne, hparts, rfl⟩
    rwa [List.splitOn_intercalate _ (fun w hw => hpart w (hparts w hw)) hne]
  · intro h
    exact ⟨text.splitOn sep, List.splitOn_ne_nil _ _, h, (List.intercalate_splitOn sep).symm⟩

end Lib
