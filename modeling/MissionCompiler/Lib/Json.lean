import Mathlib.Data.List.Dedup
import Mathlib.Data.Rat.Defs
import MissionCompiler.Lib.Python

/-!
# JSON values

One value type for what a JSON decoder builds: Python's `json.loads` on one side, a policy
engine's input document on the other. An object is an association list read by its first
entry for a key, so a reader of it never sees a key twice whatever the list holds: `get?` is
the field of an object and `entries` is what iterating a container ranges over, and the two
agree (`mem_entries`).
-/

namespace Lib

/-- A number as the decoder leaves it: an integer, a finite float as its exact value, or one
of the three floats (`NaN` and the infinities) that equal no finite number. -/
inductive Number where
  | int (n : Int)
  | float (x : Rat)
  | nonfinite
deriving DecidableEq

/-- Whether the number is zero. An integer and a float of one value are one number. -/
def Number.isZero : Number → Bool
  | .int n => n == 0
  | .float x => x == 0
  | .nonfinite => false

inductive Json where
  | null
  | bool (b : Bool)
  | num (n : Number)
  | str (s : String)
  | arr (xs : List Json)
  | obj (kvs : List (String × Json))

namespace Json

/-- The field of an object. Nothing else has fields, so a reference into it is undefined. -/
def get? (key : String) : Json → Option Json
  | .obj kvs => kvs.lookup key
  | _ => none

/-- `dict.get(key)`: the field, or null where there is none. -/
def field (key : String) (j : Json) : Json := (j.get? key).getD .null

/-- The values a container is iterated over, each under its array index or object key. -/
def entries : Json → List (Json × Json)
  | .arr xs => xs.zipIdx.map fun (x, i) => (.num (.int i), x)
  | .obj kvs => (kvs.map Prod.fst).dedup.filterMap fun k => (kvs.lookup k).map (.str k, ·)
  | _ => []

/-- The values among the entries of a container. -/
def values (j : Json) : List Json := j.entries.map Prod.snd

def isArr : Json → Bool
  | .arr _ => true
  | _ => false

def isObj : Json → Bool
  | .obj _ => true
  | _ => false

def isStr : Json → Bool
  | .str _ => true
  | _ => false

def isNull : Json → Bool
  | .null => true
  | _ => false

/-- Whether a value is one given string, and nothing but that string. -/
def eqStr (s : String) : Json → Bool
  | .str t => t == s
  | _ => false

/-- Whether a value is the boolean `true`; no other value counts as it. -/
def isTrue : Json → Bool
  | .bool b => b
  | _ => false

def isBool : Json → Bool
  | .bool _ => true
  | _ => false

/-- `isinstance(value, int) and not isinstance(value, bool)`. -/
def isInt : Json → Bool
  | .num (.int _) => true
  | _ => false

/-- `type(value).__name__`. -/
def typeName : Json → String
  | .null => "NoneType"
  | .bool _ => "bool"
  | .num (.int _) => "int"
  | .num _ => "float"
  | .str _ => "str"
  | .arr _ => "list"
  | .obj _ => "dict"

/-- `value[key]` for a string key. -/
def subscript (key : String) : Json → Except Exn Json
  | .obj kvs => match kvs.lookup key with
    | some v => .ok v
    | none => .error .keyError
  | _ => .error .typeError

/-- `value[i]`. A string is indexed like a list, and a dict is asked for a key it cannot have. -/
def subscriptAt (i : Nat) : Json → Except Exn Json
  | .arr xs => match xs[i]? with
    | some v => .ok v
    | none => .error .indexError
  | .str s => match s.toList[i]? with
    | some c => .ok (.str (String.singleton c))
    | none => .error .indexError
  | .obj _ => .error .keyError
  | _ => .error .typeError

def str? : Json → Option String
  | .str s => some s
  | _ => none

/-- The strings of a list of strings; nothing else is one. -/
def strings? : Json → Option (List String)
  | .arr xs => xs.mapM str?
  | _ => none

/-- Whether a value is a list or a dict, which Python cannot hash. -/
def isContainer : Json → Bool
  | .arr _ => true
  | .obj _ => true
  | _ => false

/-- `value in frozenset({…})` over a set of strings. Membership hashes the value first, and a
list or a dict has no hash. -/
def inStrings (members : List String) : Json → Except Exn Bool
  | .arr _ => .error .typeError
  | .obj _ => .error .typeError
  | .str s => .ok (members.contains s)
  | _ => .ok false

/-- Whether a value is the number zero. A boolean is not a number. -/
def isZero : Json → Bool
  | .num n => n.isZero
  | _ => false

@[simp] theorem eqStr_iff {s : String} {j : Json} : j.eqStr s = true ↔ j = .str s := by
  cases j <;> simp [eqStr]

@[simp] theorem isNull_iff {j : Json} : j.isNull = true ↔ j = .null := by
  cases j <;> simp [isNull]

@[simp] theorem isNull_eq_false {j : Json} : j.isNull = false ↔ j ≠ .null := by
  cases j <;> simp [isNull]

@[simp] theorem isTrue_iff {j : Json} : j.isTrue = true ↔ j = .bool true := by
  cases j <;> simp [isTrue]

@[simp] theorem isTrue_eq_false {j : Json} : j.isTrue = false ↔ j ≠ .bool true := by
  cases j <;> simp [isTrue]

theorem isArr_iff {j : Json} : j.isArr = true ↔ ∃ xs, j = .arr xs := by
  cases j <;> simp [isArr]

theorem isStr_iff {j : Json} : j.isStr = true ↔ ∃ s, j = .str s := by
  cases j <;> simp [isStr]

theorem isBool_iff {j : Json} : j.isBool = true ↔ ∃ b, j = .bool b := by
  cases j <;> simp [isBool]

theorem isInt_iff {j : Json} : j.isInt = true ↔ ∃ n, j = .num (.int n) := by
  cases j with
  | num n => cases n <;> simp [isInt]
  | _ => simp [isInt]

theorem subscript_eq_ok {j v : Json} {key : String} :
    j.subscript key = .ok v ↔ j.get? key = some v := by
  cases j with
  | obj kvs =>
    simp only [subscript, get?]
    cases kvs.lookup key <;> simp
  | _ => simp [subscript, get?]

theorem str?_eq_some {j : Json} {s : String} : j.str? = some s ↔ j = .str s := by
  cases j <;> simp [str?]

theorem strings?_eq_some {j : Json} {ss : List String} :
    j.strings? = some ss ↔ j = .arr (ss.map .str) := by
  cases j with
  | arr xs =>
    simp only [strings?, arr.injEq]
    induction xs generalizing ss with
    | nil => cases ss <;> simp
    | cons x xs ih =>
      rw [List.mapM_cons, Option.bind_eq_bind, Option.bind_eq_some_iff]
      cases ss with
      | nil => cases xs.mapM str? <;> simp
      | cons s ss =>
        simp only [str?_eq_some, Option.bind_eq_bind, Option.bind_eq_some_iff, ih, Option.pure_def,
          Option.some.injEq, List.cons.injEq, List.map_cons]
        constructor
        · rintro ⟨t, rfl, ts, rfl, rfl, rfl⟩
          exact ⟨rfl, rfl⟩
        · rintro ⟨rfl, rfl⟩
          exact ⟨s, rfl, ss, rfl, rfl, rfl⟩
  | _ => simp [strings?]

@[simp] theorem get?_obj (kvs : List (String × Json)) (key : String) :
    (Json.obj kvs).get? key = kvs.lookup key := rfl

@[simp] theorem field_obj (kvs : List (String × Json)) (key : String) :
    (Json.obj kvs).field key = (kvs.lookup key).getD .null := rfl

/-- A test that null fails is a test of the field, whether or not there is one. -/
theorem any_get? {p : Json → Bool} (hp : p .null = false) (j : Json) (key : String) :
    (j.get? key).any p = p (j.field key) := by
  unfold field
  cases j.get? key with
  | none => exact hp.symm
  | some v => rfl

/-- What a field holds is what a reference to it finds, once it is not null. -/
theorem get?_eq_some_of_field {j v : Json} {key : String} (h : j.field key = v)
    (hv : v ≠ .null) : j.get? key = some v := by
  unfold field at h
  cases hg : j.get? key with
  | none => rw [hg] at h; exact absurd h.symm hv
  | some w => rw [hg] at h; exact congrArg some h

theorem field_eq_of_get? {j v : Json} {key : String} (h : j.get? key = some v) :
    j.field key = v := by
  rw [field, h, Option.getD_some]

/-- The values of an array are its elements. -/
@[simp] theorem values_arr (xs : List Json) : (Json.arr xs).values = xs := by
  have hsnd : (Prod.snd ∘ fun e : Json × Nat => (Json.num (.int e.2), e.1)) = Prod.fst := rfl
  rw [values, entries, List.map_map, hsnd, List.zipIdx_map_fst]

end Json

end Lib

