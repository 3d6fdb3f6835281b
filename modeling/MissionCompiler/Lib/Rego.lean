import MissionCompiler.Lib.Enumerate
import MissionCompiler.Lib.Json
import MissionCompiler.Lib.Python
import MissionCompiler.Lib.Quote

/-!
# Rego rule bodies

A partial set rule is read as the list of heads its body fires with: one binding of the
body's variables at a time, nothing where the body is false or a reference in it is undefined
(`fire`), and every binding a container offers where a variable indexes it (`iterate`). The
set a rule denotes is the list up to order and repetition, so a set is empty exactly when the
list is (`iterate_eq_nil`, `fire_eq_nil`).

The built-ins are the documented ones. `Printer` is what is left of Go's formatting once the
verbs are decided: the table of printable characters, and the spelling of operands that are
neither strings nor integers.
-/

namespace Lib.Rego

/-- `object.get(object, key, default)`. -/
def objectGet (object : Json) (key : String) (default : Json) : Json :=
  (object.get? key).getD default

/-- With null for its default, `object.get` reads a field as `dict.get` does. -/
theorem objectGet_null (object : Json) (key : String) :
    objectGet object key .null = object.field key := rfl

/-- The head of a rule under one binding: present when the body holds. -/
def fire {α : Type} (body : Bool) (head : α) : List α := if body then [head] else []

/-- What a body contributes over every binding `x[i]` offers. An undefined reference offers
none, and neither does a value that is no container. -/
def iterate {α : Type} (x : Option Json) (body : Json → Json → List α) : List α :=
  match x with
  | some j => j.entries.flatMap fun e => body e.1 e.2
  | none => []

@[simp] theorem fire_eq_nil {α : Type} {body : Bool} {head : α} :
    fire body head = [] ↔ body = false := by
  cases body <;> simp [fire]

/-- The values a reference with a variable index ranges over. -/
def items : Option Json → List Json
  | some j => j.values
  | none => []

theorem items_of_arr {j : Json} {key : String} {xs : List Json} (h : j.field key = .arr xs) :
    items (j.get? key) = xs := by
  rw [Json.get?_eq_some_of_field h (by simp), items, Json.values_arr]

theorem items_of_null {j : Json} {key : String} (h : j.field key = .null) :
    items (j.get? key) = [] := by
  cases hg : j.get? key with
  | none => rfl
  | some v =>
    rw [Json.field, hg, Option.getD_some] at h
    rw [h]
    rfl

/-- A body whose emptiness does not depend on the index is empty over every binding exactly
when it is empty at every value. -/
theorem iterate_eq_nil {α : Type} {body : Json → Json → List α} {clean : Json → Prop}
    (h : ∀ k v, body k v = [] ↔ clean v) (x : Option Json) :
    iterate x body = [] ↔ ∀ v ∈ items x, clean v := by
  cases x with
  | none => simp [iterate, items]
  | some j =>
    simp only [iterate, items, Json.values, List.flatMap_eq_nil_iff, h, List.forall_mem_map]

/-- Over the elements of an array, a variable index ranges as a loop does. -/
theorem iterate_arr {α : Type} (xs : List Json) (body : Json → Json → List α) :
    iterate (some (.arr xs)) body = enumerated (fun i x => body (.num (.int i)) x) xs := by
  rw [iterate, Json.entries, List.flatMap_map]
  rfl

/-! ## `trim_space` -/

/-- Go's `unicode.IsSpace`. -/
def isGoSpace (c : Char) : Bool :=
  let n := c.toNat
  (0x09 ≤ n && n ≤ 0x0D) || n == 0x20 || n == 0x85 || n == 0xA0 || n == 0x1680 ||
    (0x2000 ≤ n && n ≤ 0x200A) || n == 0x2028 || n == 0x2029 || n == 0x202F || n == 0x205F ||
    n == 0x3000

def trimSpace (s : String) : String := String.ofList (stripChars isGoSpace s.toList)

/-- A string is blank to `trim_space` when trimming leaves nothing. -/
def goBlank (s : String) : Bool := trimSpace s == ""

theorem goBlank_iff {s : String} : goBlank s = true ↔ ∀ c ∈ s.toList, isGoSpace c = true := by
  have h : trimSpace s = "" ↔ stripChars isGoSpace s.toList = [] := by
    rw [← String.toList_inj, trimSpace, String.toList_ofList]
    rfl
  rw [goBlank, beq_iff_eq, h, stripChars_eq_nil]

/-- Every space of Go's is one of Python's; the information separators go the other way. -/
theorem isPySpace_of_isGoSpace {c : Char} (h : isGoSpace c = true) : isPySpace c = true := by
  simp only [isGoSpace, isPySpace, Bool.or_eq_true, Bool.and_eq_true, decide_eq_true_eq,
    beq_iff_eq] at h ⊢
  omega

theorem pyBlank_of_goBlank {s : String} (h : goBlank s = true) : pyBlank s = true :=
  pyBlank_iff.mpr fun c hc => isPySpace_of_isGoSpace (goBlank_iff.mp h c hc)

/-- The information separators are what only Python takes for spaces. -/
theorem isGoSpace_eq_false_iff {c : Char} (h : isPySpace c = true) :
    isGoSpace c = false ↔ 0x1C ≤ c.toNat ∧ c.toNat ≤ 0x1F := by
  simp only [isGoSpace, isPySpace, Bool.or_eq_true, Bool.and_eq_true, decide_eq_true_eq,
    beq_iff_eq, Bool.or_eq_false_iff, Bool.and_eq_false_iff, decide_eq_false_iff_not,
    beq_eq_false_iff_ne] at h ⊢
  omega

/-- A string is blank to Python alone when it is made of spaces with a separator among them. -/
theorem pyBlank_not_goBlank_iff {s : String} :
    pyBlank s = true ∧ goBlank s = false ↔
      (∀ c ∈ s.toList, isPySpace c = true) ∧ ∃ c ∈ s.toList, 0x1C ≤ c.toNat ∧ c.toNat ≤ 0x1F := by
  rw [pyBlank_iff, ← Bool.not_eq_true, goBlank_iff]
  refine and_congr_right fun hspaces => ?_
  simp only [not_forall, Bool.not_eq_true]
  constructor
  · rintro ⟨c, hc, hgo⟩
    exact ⟨c, hc, (isGoSpace_eq_false_iff (hspaces c hc)).mp hgo⟩
  · rintro ⟨c, hc, hsep⟩
    exact ⟨c, hc, (isGoSpace_eq_false_iff (hspaces c hc)).mpr hsep⟩

/-! ## `sprintf` -/

/-- The part of Go's `fmt` that a verb does not decide. -/
structure Printer where
  /-- `strconv.IsPrint`. -/
  isPrint : Char → Bool
  isPrint_ascii : ∀ c : Char, 0x20 ≤ c.toNat → c.toNat < 0x7F → isPrint c = true
  /-- `%q` of an operand that is not a string. -/
  quoteOther : Json → String
  /-- `%v` of an operand that is neither a string nor an integer. -/
  printOther : Json → String
  /-- `%d` of an operand that is not an integer. -/
  decimalOther : Json → String

variable (go : Printer)

/-- The verb `%d`. -/
def Printer.d : Json → String
  | .num (.int n) => toString n
  | j => go.decimalOther j

/-- The verb `%q`. -/
def Printer.q : Json → String
  | .str s => goQuote go.isPrint s
  | j => go.quoteOther j

/-- Printable ASCII is escaped alike by `%q` and by JSON. -/
theorem Printer.quotedAlike_ascii {s : String}
    (h : (s.toList.all fun c => 0x20 ≤ c.toNat && c.toNat < 0x7F) = true) :
    QuotedAlike go.isPrint s := by
  intro c hc
  have hascii := List.all_eq_true.mp h c hc
  simp only [Bool.and_eq_true, decide_eq_true_eq] at hascii
  obtain ⟨hlow, hhigh⟩ := hascii
  have hprint := go.isPrint_ascii c hlow hhigh
  have hnot : ∀ d : Char, d.toNat < 0x20 → c ≠ d := by
    rintro d hd rfl
    omega
  unfold goQuoteChar jsonQuoteChar
  by_cases hq : c = '"'
  · rw [if_pos (.inl hq), if_pos hq, hq]
  by_cases hb : c = '\\'
  · rw [if_pos (.inr hb), if_neg hq, if_pos hb, hb]
  have h8 : c.toNat ≠ 0x08 := by omega
  have hc : c.toNat ≠ 0x0C := by omega
  have hctl : ¬ c.toNat < 0x20 := by omega
  simp only [hq, hb, or_self, if_false, hprint, if_true, h8, hc, hctl,
    hnot '\n' (by decide), hnot '\r' (by decide), hnot '\t' (by decide)]

/-- The verb `%v`. -/
def Printer.v : Json → String
  | .str s => s
  | .num (.int n) => toString n
  | j => go.printOther j

end Lib.Rego

