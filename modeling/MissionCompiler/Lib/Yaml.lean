import MissionCompiler.Lib.Json

/-!
# YAML values in Python

What a safe loader builds, and how Python code reads it: `get`, truth, equality as a set sees
it. Text and null are told apart from the other scalars (booleans, numbers, dates, bytes),
which are of a type of their own: Python compares those across their types, and nothing that
reads a label asks more of them.
-/

namespace Lib

inductive Yaml (σ : Type) where
  | null
  | str (s : String)
  | scalar (x : σ)
  | list (xs : List (Yaml σ))
  | dict (entries : List (Yaml σ × Yaml σ))

/-- The other scalars of a loader. Two are the same when Python finds them equal. -/
class Scalars (σ : Type) where
  same : σ → σ → Bool
  truthy : σ → Bool
  ofBool : Bool → σ
  ofNumber : Number → σ

/-- Booleans and numbers, by their values: Python finds `True`, `1` and `1.0` equal. -/
instance : Scalars Number where
  same
    | .int m, .int n => m == n
    | .int m, .float y => (m : Rat) == y
    | .float x, .int n => x == n
    | .float x, .float y => x == y
    | _, _ => false
  truthy n := !n.isZero
  ofBool b := .int (if b then 1 else 0)
  ofNumber := id

/-- The distinct elements of a list, in the order a set first meets them. -/
def distinct {α : Type} (same : α → α → Bool) (xs : List α) : List α :=
  xs.foldl (fun seen x => if seen.any fun y => same y x then seen else seen ++ [x]) []

namespace Yaml

variable {σ : Type}

def isNull : Yaml σ → Bool
  | .null => true
  | _ => false

def isDict : Yaml σ → Bool
  | .dict _ => true
  | _ => false

/-- Whether a value is one given string, and nothing but that string. -/
def eqStr (s : String) : Yaml σ → Bool
  | .str t => t == s
  | _ => false

/-- The value a dict has for a key that is text. -/
def at? (key : String) : Yaml σ → Option (Yaml σ)
  | .dict entries => (entries.find? fun e => e.1.eqStr key).map Prod.snd
  | _ => none

/-- `dict.get(key)`: the value, or null where there is none. -/
def get (key : String) (y : Yaml σ) : Yaml σ := (y.at? key).getD .null

/-- `value.get(key)`, which only a dict has. -/
def getAttr (key : String) : Yaml σ → Except Exn (Yaml σ)
  | .dict entries => .ok (get key (.dict entries))
  | _ => .error .attributeError

/-- A value a set can hold. -/
def hashed : Yaml σ → Except Exn (Yaml σ)
  | .list _ => .error .typeError
  | .dict _ => .error .typeError
  | y => .ok y

section

variable [Scalars σ]

def truthy : Yaml σ → Bool
  | .null => false
  | .str s => s != ""
  | .scalar x => Scalars.truthy x
  | .list xs => !xs.isEmpty
  | .dict entries => !entries.isEmpty

/-- `value or {}`. -/
def orEmpty (y : Yaml σ) : Yaml σ := if y.truthy then y else .dict []

mutual

/-- A JSON value, as a loader reads it back. -/
def ofJson : Json → Yaml σ
  | .null => .null
  | .bool b => .scalar (Scalars.ofBool b)
  | .num n => .scalar (Scalars.ofNumber n)
  | .str s => .str s
  | .arr xs => .list (ofJsons xs)
  | .obj kvs => .dict (ofFields kvs)

def ofJsons : List Json → List (Yaml σ)
  | [] => []
  | x :: xs => ofJson x :: ofJsons xs

def ofFields : List (String × Json) → List (Yaml σ × Yaml σ)
  | [] => []
  | (key, value) :: rest => (.str key, ofJson value) :: ofFields rest

end

/-- Equality of values a set can hold. -/
def same : Yaml σ → Yaml σ → Bool
  | .null, .null => true
  | .str s, .str t => s == t
  | .scalar x, .scalar y => Scalars.same x y
  | _, _ => false

end

@[simp] theorem isNull_iff {y : Yaml σ} : y.isNull = true ↔ y = .null := by
  cases y <;> simp [isNull]

@[simp] theorem eqStr_iff {s : String} {y : Yaml σ} : y.eqStr s = true ↔ y = .str s := by
  cases y <;> simp [eqStr]

theorem get_of_at? {y v : Yaml σ} {key : String} (h : y.at? key = some v) : y.get key = v := by
  rw [get, h, Option.getD_some]

/-- What a read gives is there, once it is not null. -/
theorem at?_of_get {y v : Yaml σ} {key : String} (h : y.get key = v) (hv : v ≠ .null) :
    y.at? key = some v := by
  unfold get at h
  cases hat : y.at? key with
  | none =>
    rw [hat] at h
    exact absurd h.symm hv
  | some w =>
    rw [hat] at h
    exact congrArg some h

/-- Only a dict has something at a key. -/
theorem isDict_of_at? {y v : Yaml σ} {key : String} (h : y.at? key = some v) :
    y.isDict = true := by
  cases y with
  | dict entries => rfl
  | _ => cases h

theorem getAttr_eq_ok {y v : Yaml σ} {key : String} :
    y.getAttr key = .ok v ↔ y.isDict = true ∧ y.get key = v := by
  cases y <;> simp [getAttr, isDict]

theorem hashed_eq_ok {y v : Yaml σ} (h : y.hashed = .ok v) : v = y := by
  cases y with
  | list xs => cases h
  | dict entries => cases h
  | _ => exact (Except.ok.inj h).symm

section

variable [Scalars σ]

theorem at?_ofJson (j : Json) (key : String) :
    (ofJson j : Yaml σ).at? key = (j.get? key).map ofJson := by
  cases j with
  | obj kvs =>
    show ((ofFields kvs).find? fun e => e.1.eqStr key).map Prod.snd = (kvs.lookup key).map ofJson
    induction kvs with
    | nil => rfl
    | cons kv kvs ih =>
      obtain ⟨k, v⟩ := kv
      rw [ofFields, List.find?_cons, List.lookup_cons, eqStr, Bool.beq_comm]
      cases key == k with
      | true => rfl
      | false => exact ih
  | _ => rfl

theorem get_ofJson (j : Json) (key : String) :
    (ofJson j : Yaml σ).get key = ofJson (j.field key) := by
  rw [get, at?_ofJson, Json.field]
  cases j.get? key <;> rfl

/-- A dict with something in it is not replaced. -/
theorem orEmpty_of_at? {y v : Yaml σ} {key : String} (h : y.at? key = some v) :
    y.orEmpty = y := by
  cases y with
  | dict entries =>
    cases entries with
    | nil => cases h
    | cons e entries => rfl
  | _ => cases h

/-- Reading a key of what replaces a value is reading the key of the value, which has none when
it is not a dict. -/
theorem get_orEmpty {y v : Yaml σ} {key : String} (h : y.orEmpty.getAttr key = .ok v) :
    y.get key = v := by
  obtain ⟨hdict, hget⟩ := getAttr_eq_ok.mp h
  unfold orEmpty at hdict hget
  split at hget
  · exact hget
  · next hfalsy =>
    rw [← hget]
    cases y with
    | dict entries =>
      cases entries with
      | nil => rfl
      | cons e entries => exact absurd rfl hfalsy
    | _ => rfl

theorem same_str {s : String} {y : Yaml σ} : same y (.str s) = true ↔ y = .str s := by
  cases y <;> simp [same]

theorem str_same {s : String} {y : Yaml σ} : same (.str s) y = true ↔ y = .str s := by
  cases y with
  | str t =>
    rw [same, beq_iff_eq, Yaml.str.injEq]
    exact eq_comm
  | _ => simp [same]

theorem null_same {y : Yaml σ} : same .null y = true ↔ y = .null := by
  cases y <;> simp [same]

theorem same_null {y : Yaml σ} : same y .null = true ↔ y = .null := by
  cases y <;> simp [same]

end

end Yaml

/-! ## Sets -/

section

variable {α : Type} {same : α → α → Bool}

theorem distinct_append_singleton (xs : List α) (x : α) :
    distinct same (xs ++ [x]) = if (distinct same xs).any fun y => same y x
      then distinct same xs else distinct same xs ++ [x] := by
  rw [distinct, List.foldl_append]
  rfl

/-- Each element of a list is one of the distinct ones, or the same as one of them. -/
theorem exists_mem_distinct {xs : List α} {x : α} (hx : x ∈ xs) :
    ∃ y ∈ distinct same xs, y = x ∨ same y x = true := by
  induction xs using List.reverseRecOn with
  | nil => exact absurd hx List.not_mem_nil
  | append_singleton xs z ih =>
    rw [distinct_append_singleton]
    split
    · next hany =>
      rcases List.mem_append.mp hx with hx | hx
      · exact ih hx
      · rw [List.mem_singleton.mp hx]
        obtain ⟨y, hy, hsame⟩ := List.any_eq_true.mp hany
        exact ⟨y, hy, .inr hsame⟩
    · rcases List.mem_append.mp hx with hx | hx
      · obtain ⟨y, hy, hsame⟩ := ih hx
        exact ⟨y, List.mem_append_left _ hy, hsame⟩
      · rw [List.mem_singleton.mp hx]
        exact ⟨z, List.mem_append_right _ List.mem_cons_self, .inl rfl⟩

theorem mem_of_mem_distinct {xs : List α} {x : α} (hx : x ∈ distinct same xs) : x ∈ xs := by
  induction xs using List.reverseRecOn with
  | nil => exact hx
  | append_singleton xs z ih =>
    rw [distinct_append_singleton] at hx
    split at hx
    · exact List.mem_append_left _ (ih hx)
    · rcases List.mem_append.mp hx with hx | hx
      · exact List.mem_append_left _ (ih hx)
      · exact List.mem_append_right _ hx

/-- A set of at most one element: everything is the same as that one. -/
theorem same_head_distinct {xs : List α} {d : α} (hone : ¬ 1 < (distinct same xs).length)
    {x : α} (hx : x ∈ xs) :
    (distinct same xs).head?.getD d = x ∨ same ((distinct same xs).head?.getD d) x = true := by
  obtain ⟨y, hy, hsame⟩ := @exists_mem_distinct _ same _ _ hx
  cases hset : distinct same xs with
  | nil =>
    rw [hset] at hy
    exact absurd hy List.not_mem_nil
  | cons z rest =>
    rw [hset] at hone hy
    have hrest : rest = [] := List.length_eq_zero_iff.mp (by simpa using hone)
    rw [hrest, List.mem_singleton] at hy
    rw [← hy]
    exact hsame

/-- A list of one value, over and over, makes a set of it alone. -/
theorem distinct_of_forall_eq {x : α} (hsame : same x x = true) {xs : List α}
    (h : ∀ y ∈ xs, y = x) : distinct same xs = if xs.isEmpty then [] else [x] := by
  induction xs using List.reverseRecOn with
  | nil => rfl
  | append_singleton xs z ih =>
    have hz : z = x := h z (List.mem_append_right _ List.mem_cons_self)
    have hxs := ih fun y hy => h y (List.mem_append_left _ hy)
    rw [distinct_append_singleton, hxs, hz]
    cases xs with
    | nil => rfl
    | cons y ys => simp [hsame]

end

end Lib

