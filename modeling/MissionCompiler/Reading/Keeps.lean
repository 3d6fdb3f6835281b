import MissionCompiler.Reading.Models

/-!
# What is kept of a document

The dump of a plan is what the policy engines judge. It keeps a document where everything the
document says is in it at the same place, as the value it was written as or as the one it was
converted to, and everything else in it is a default.
-/

namespace MissionCompiler.Reading

open Lib Schema

/-! ## The relation -/

/-- The defaults of the models, as they are dumped. -/
def defaults : List (String × Json) :=
  [("phase", .null), ("resource_class", .str "cpu"), ("fallback_resource_class", .null),
    ("needs_acceleration", .bool false), ("command", .arr []), ("args", .arr []),
    ("metadata", .obj []), ("preferred_node_selector", .obj []), ("landscape_type", .null),
    ("execution_mode", .str "sequential"), ("orbit", .null), ("duration_seconds", .null),
    ("instrument", .null), ("sensor", .null), ("ground_visibility", .bool false),
    ("region_type", .null), ("services", .arr []), ("client_id", .null)]

/-- The last entry of a dict whose key has a text. -/
def LastOf {ι : Type} (entries : List (DictKey × ι)) (s : String) (m : ι) : Prop :=
  ∃ before key after, entries = before ++ (key, m) :: after ∧ keyText key = some s ∧
    ∀ e ∈ after, keyText e.1 ≠ some s

/-- What the JSON says of an object is what the object says. Only bytes are read as what pydantic
takes them for: a number in a text is a plain decimal and its value is the number's. In a dict of
strings (`texts`), a key that is bytes is its text, and of the entries of one text the last one
stands. -/
inductive Keeps {ι : Type} (conv : Conversions) (isoformat : Timestamp → String)
    (doc : Document ι) : ι → Json → Prop
  | null {n : ι} (h : doc.value n = .null) : Keeps conv isoformat doc n .null
  | bool {n : ι} {b : Bool} (h : doc.value n = .bool b) : Keeps conv isoformat doc n (.bool b)
  | int {n : ι} {i : Int} (h : doc.value n = .int i) : Keeps conv isoformat doc n (.num (.int i))
  | float {n : ι} {x : Rat} {text : String} (h : doc.value n = .float (some x) text) :
    Keeps conv isoformat doc n (.num (.float x))
  | str {n : ι} {s : String} (h : doc.value n = .str s) : Keeps conv isoformat doc n (.str s)
  | date {n : ι} {s : String} (h : doc.value n = .date s) : Keeps conv isoformat doc n (.str s)
  | datetime {n : ι} {aware : Option Timestamp} {s : String} (h : doc.value n = .datetime aware s) :
    Keeps conv isoformat doc n (.str s)
  | list {n : ι} {items : List ι} {xs : List Json}
    (h : doc.value n = .list items ∨ doc.value n = .set items)
    (length_eq : items.length = xs.length)
    (each : ∀ m x, (m, x) ∈ items.zip xs → Keeps conv isoformat doc m x) :
    Keeps conv isoformat doc n (.arr xs)
  | dict {n : ι} {entries : List (DictKey × ι)} {kvs : List (String × Json)}
    (h : doc.value n = .dict entries) (known : ∀ e ∈ entries, ∃ s ∈ kvs.map Prod.fst, e.1 = .str s)
    (each : ∀ s j, (s, j) ∈ kvs → ∀ m, (.str s, m) ∈ entries → Keeps conv isoformat doc m j)
    (added : ∀ s j, (s, j) ∈ kvs → (∃ m, (.str s, m) ∈ entries) ∨ (s, j) ∈ defaults) :
    Keeps conv isoformat doc n (.obj kvs)
  | texts {n : ι} {entries : List (DictKey × ι)} {kvs : List (String × Json)}
    (h : doc.value n = .dict entries)
    (known : ∀ e ∈ entries, ∃ s ∈ kvs.map Prod.fst, keyText e.1 = some s)
    (last : ∀ s j, (s, j) ∈ kvs → ∃ m, LastOf entries s m)
    (each : ∀ s j, (s, j) ∈ kvs → ∀ m, LastOf entries s m → Keeps conv isoformat doc m j) :
    Keeps conv isoformat doc n (.obj kvs)
  | whole {n : ι} {i : Int} {x : Rat} {text : String} (h : doc.value n = .float (some x) text)
    (value : x = i) : Keeps conv isoformat doc n (.num (.int i))
  | rounded {n : ι} {i : Int} {x : Rat} (h : doc.value n = .int i)
    (value : conv.nearest i = some x) : Keeps conv isoformat doc n (.num (.float x))
  | decimal {n : ι} {s : String} {i : Int} (h : doc.value n = .str s)
    (plain : isPlainDecimal s = true) (value : decimalValue s = i) :
    Keeps conv isoformat doc n (.num (.int i))
  | roundedDecimal {n : ι} {s : String} {x : Rat} (h : doc.value n = .str s)
    (plain : isPlainDecimal s = true) (value : conv.nearest (decimalValue s) = some x) :
    Keeps conv isoformat doc n (.num (.float x))
  | timestamp {n : ι} {s : String} {t : Timestamp} (h : doc.value n = .str s)
    (value : conv.datetimeOfText s = some (some t)) :
    Keeps conv isoformat doc n (.str (isoformat t))
  | instant {n : ι} {t : Timestamp} {text : String} (h : doc.value n = .datetime (some t) text) :
    Keeps conv isoformat doc n (.str (isoformat t))
  | bytes {n : ι} {s : String} {j : Json} (h : doc.value n = .binary (some s))
    (value : j = .str s ∨ (∃ i, conv.intOfText s = some i ∧ j = .num (.int i)) ∨
      (∃ x, conv.floatOfText s = some x ∧ j = .num (.float x)) ∨
      ∃ t, conv.datetimeOfText s = some (some t) ∧ j = .str (isoformat t)) :
    Keeps conv isoformat doc n j

section

variable {ι α : Type} {conv : Conversions} {isoformat : Timestamp → String} {doc : Document ι}
  {n : ι}

/-! ## Single values -/

/-- A text passes the check against blank ones as it is. -/
theorem notBlank_eq_ok {field s : String} {s' : {s : String // pyBlank s = false}} :
    notBlank field s = .ok s' ↔ s'.val = s := by
  unfold notBlank
  split
  · next hs =>
    constructor
    · intro h
      cases h
      rfl
    · intro h
      exact congrArg Except.ok (Subtype.ext h.symm)
  · next hs =>
    constructor
    · intro h
      cases h
    · intro h
      rw [← h] at hs
      exact absurd s'.property hs

/-- A number passes the bound from below as it is. -/
theorem nonnegative_eq_ok {i : Int} {k : Nat} : nonnegative i = .ok k ↔ (k : Int) = i := by
  unfold nonnegative
  split
  · simp only [Validated.ok.injEq]
    omega
  · simp only [refuse, reduceCtorEq, false_iff]
    omega

/-- A number passes the two bounds of a priority as it is. -/
theorem percentage_eq_ok {i : Int} {k : {k : Nat // k ≤ 100}} :
    percentage i = .ok k ↔ (k.val : Int) = i := by
  rw [percentage, Validated.andThen_eq_ok]
  constructor
  · intro ⟨m, hm, h⟩
    split at h
    · cases h
      exact nonnegative_eq_ok.mp hm
    · cases h
  · intro h
    refine ⟨k.val, nonnegative_eq_ok.mpr h, ?_⟩
    rw [dif_pos k.property]

/-- A text is a timestamp where pydantic finds one with an offset in it. -/
theorem readDatetimeText_eq_ok {s : String} {t : Timestamp} :
    readDatetimeText conv s = .ok t ↔ conv.datetimeOfText s = some (some t) := by
  unfold readDatetimeText
  split
  · next h => simp [h]
  · next h => simp [h, refuse]
  · next h => simp [h, refuse]

end

end MissionCompiler.Reading
