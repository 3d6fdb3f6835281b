import MissionCompiler.Lib.Dict
import MissionCompiler.Lib.Validated
import MissionCompiler.Schema.Dump
import MissionCompiler.Schema.MetadataWalk
import MissionCompiler.Schema.Selector

/-!
# The document a plan is read from

What a YAML loader builds is a graph of objects, since an alias is one object twice. A model reads
the dicts and lists of it, and each value by the type of its field. Where a value has another type
pydantic may convert it: what it makes of a number's text, of a float where an integer is asked for
or of the text of a timestamp is a parameter (`Conversions`), and what the models rely on is said of
it (`Conversions.Lawful`).

Every part of a model is looked at, so what is wrong with a document is a list of errors, each with
its place. The key of a dict of strings is read like any other string, so one that is bytes is
decoded, and two keys of a document may become one.
-/

namespace MissionCompiler.Reading

open Lib Schema RegularExpression

/-! ## Objects -/

/-- What an object is. A float is its exact value where it is finite, and a datetime carries its
timestamp where it has an offset; `text` is what it is written as. Bytes carry the text they are
the encoding of, if they are one. -/
inductive Value (ι : Type) where
  | null
  | bool (b : Bool)
  | int (n : Int)
  | float (x : Option Rat) (text : String)
  | str (s : String)
  | date (text : String)
  | datetime (aware : Option Timestamp) (text : String)
  | list (items : List ι)
  | dict (entries : List (DictKey × ι))
  | binary (decoded : Option String)
  | set (items : List ι)
  | other (typeName : String)
deriving DecidableEq

/-- What the metadata walk looks at. -/
def Value.obj {ι : Type} : Value ι → Obj ι
  | .null => .none
  | .bool _ => .bool
  | .int _ => .int
  | .float x text => .float x.isSome text
  | .str _ => .str
  | .date _ => .date
  | .datetime _ _ => .datetime
  | .list items => .list items
  | .dict entries => .dict entries
  | .binary _ => .binary
  | .set _ => .set
  | .other typeName => .other typeName

/-- The objects of a document. A dict has each of its keys once. -/
structure Document (ι : Type) where
  value : ι → Value ι
  keys_nodup : ∀ n entries, value n = .dict entries → (entries.map Prod.fst).Nodup

/-! ## Conversions -/

/-- `_PLAIN_DECIMAL_RE`. -/
def plainDecimalRe : RegularExpression Char :=
  let digits := charClass "0123456789" * star (charClass "0123456789")
  optional (charClass "+-") *
    (digits * optional (char '.' * star (charClass "0123456789")) + char '.' * digits)

/-- `_PLAIN_DECIMAL_RE.fullmatch(value.strip())`. -/
def isPlainDecimal (text : String) : Bool := fullmatch plainDecimalRe (pyStrip text).toList

/-- The number a plain decimal is. -/
def decimalValue (text : String) : Rat :=
  let digits := text.toList.filter Char.isDigit
  let whole := digits.foldl (fun n c => 10 * n + (c.toNat - '0'.toNat)) 0
  let places := (text.toList.dropWhile (· != '.')).filter Char.isDigit
  let magnitude : Rat := (whole : Rat) / 10 ^ places.length
  if text.toList.contains '-' then -magnitude else magnitude

/-- What pydantic makes of a value of another type, and Python's `repr` of a string. The float that
is nearest to a number is there unless the number is out of range. A text may be a datetime, and
a datetime may have an offset. -/
structure Conversions where
  intOfText : String → Option Int
  intOfFloat : Rat → Option Int
  floatOfText : String → Option Rat
  nearest : Rat → Option Rat
  datetimeOfText : String → Option (Option Timestamp)
  reprStr : String → String

/-- What is wrong at a place: the type of a pydantic error, or the message of a validator. -/
inductive Problem where
  | missing
  | extraForbidden
  | invalidKey
  | modelType
  | dictType
  | listType
  | tooShort
  | stringType
  | stringUnicode
  | boolType
  | enumeration
  | intType
  | intParsing
  | intFromFloat
  | floatType
  | floatParsing
  | finiteNumber
  | greaterThanEqual
  | lessThanEqual
  | datetimeType
  | datetimeParsing
  | timezoneAware
  | valueError (text : String)

/-- An error of a `ValidationError`, with its `loc`. -/
structure FieldError where
  loc : List Subscript
  problem : Problem

abbrev Read (α : Type) := Validated FieldError α

def refuse {α : Type} (problem : Problem) : Read α := .refused ⟨[], problem⟩ []

def FieldError.under (step : Subscript) (e : FieldError) : FieldError :=
  { e with loc := step :: e.loc }

/-- What is read of a part, its errors being told from the whole. -/
def under {α : Type} (step : Subscript) (x : Read α) : Read α := x.mapErrors (.under step)

section

variable {ι α : Type} (conv : Conversions)

/-! ## Single values -/

/-- `str`, which decodes bytes. -/
def readText : Value ι → Read String
  | .str s => .ok s
  | .binary (some s) => .ok s
  | .binary none => refuse .stringUnicode
  | _ => refuse .stringType

/-- `StrictBool`. -/
def readStrictBool : Value ι → Read Bool
  | .bool b => .ok b
  | _ => refuse .boolType

/-- An enumeration of strings, by its value. -/
def readEnum (members : List α) (value : α → String) (v : Value ι) : Read α :=
  match (readText v) with
  | .ok s => match members.find? (value · == s) with
    | some a => .ok a
    | none => refuse .enumeration
  | .refused _ _ => refuse .enumeration

/-- `… | None`. -/
def readOptional (read : Value ι → Read α) : Value ι → Read (Option α)
  | .null => .ok none
  | v => some <$> read v

/-- A field validator that runs after the field is read. -/
def checked {β : Type} (check : α → Except String β) (x : Read α) : Read β :=
  x.andThen fun a => match check a with
    | .ok b => .ok b
    | .error text => refuse (.valueError text)

@[simp]
theorem checked_eq_ok {β : Type} {check : α → Except String β} {x : Read α} {b : β} :
    checked check x = .ok b ↔ ∃ a, x = .ok a ∧ check a = .ok b := by
  rw [checked, Validated.andThen_eq_ok]
  refine exists_congr fun a => and_congr_right fun _ => ?_
  cases check a with
  | ok b' => simp
  | error text => simp [refuse]

@[simp]
theorem under_eq_ok {step : Subscript} {x : Read α} {a : α} : under step x = .ok a ↔ x = .ok a :=
  Validated.mapErrors_eq_ok

/-- `_not_blank`, `_service_id_not_blank` and `mission_id_not_empty`. -/
def notBlank (field : String) (s : String) : Except String {s : String // pyBlank s = false} :=
  if h : pyBlank s = false then .ok ⟨s, h⟩ else .error (field ++ " must not be blank")

/-- `_plain_decimal`. -/
def plainDecimal (field : String) : Value ι → Read Unit
  | .str s => if isPlainDecimal s then .ok ()
    else refuse (.valueError (field ++ " must be a plain decimal number; " ++ conv.reprStr s ++
      " is read by Python as something a reader of the plan would not read it as"))
  | _ => .ok ()

/-- The validators that run before a number is read: a boolean is none, and a text is one where it
reads as the number it becomes. -/
def numberGuard (booleanText field : String) (v : Value ι) : Read Unit :=
  match v with
  | .bool _ => refuse (.valueError booleanText)
  | v => plainDecimal conv field v

/-- `int`. -/
def readInt : Value ι → Read Int
  | .int n => .ok n
  | .bool b => .ok (if b then 1 else 0)
  | .float (some x) _ => match conv.intOfFloat x with
    | some n => .ok n
    | none => refuse .intFromFloat
  | .float none _ => refuse .finiteNumber
  | .str s | .binary (some s) => match conv.intOfText s with
    | some n => .ok n
    | none => refuse .intParsing
  | .binary none => refuse .intParsing
  | _ => refuse .intType

/-- `float`, where `allow_inf_nan` is off. -/
def readFloat : Value ι → Read Rat
  | .float (some x) _ => .ok x
  | .float none _ => refuse .finiteNumber
  | .int n => match conv.nearest n with
    | some x => .ok x
    | none => refuse .floatType
  | .bool b => .ok (if b then 1 else 0)
  | .str s | .binary (some s) => match conv.floatOfText s with
    | some x => .ok x
    | none => refuse .floatParsing
  | .binary none => refuse .floatParsing
  | _ => refuse .floatType

/-- `Field(ge=0)`. -/
def nonnegative (n : Int) : Read Nat :=
  if 0 ≤ n then .ok n.toNat else refuse .greaterThanEqual

/-- `Field(ge=0, le=100)`. -/
def percentage (n : Int) : Read {n : Nat // n ≤ 100} :=
  (nonnegative n).andThen fun k => if h : k ≤ 100 then .ok ⟨k, h⟩ else refuse .lessThanEqual

/-- `_priority_is_not_a_boolean`, and the field. -/
def readPriority (v : Value ι) : Read {n : Nat // n ≤ 100} :=
  (numberGuard conv "priority must be a number between 0 and 100, not a boolean" "priority"
    v).andThen fun _ => (readInt conv v).andThen percentage

/-- `_numbers_are_not_booleans`, and `orbit`. -/
def readOrbit (v : Value ι) : Read (Option Nat) :=
  (numberGuard conv "orbit must be a number, not a boolean" "orbit" v).andThen
    fun _ => readOptional (fun v => (readInt conv v).andThen nonnegative) v

/-- `_numbers_are_not_booleans`, and `duration_seconds`. -/
def readDuration (v : Value ι) : Read (Option {d : Rat // 0 ≤ d}) :=
  (numberGuard conv "duration_seconds must be a number, not a boolean" "duration_seconds" v).andThen
    fun _ => readOptional (fun v => (readFloat conv v).andThen fun x =>
      if h : 0 ≤ x then .ok ⟨x, h⟩ else refuse .greaterThanEqual) v

/-- `AwareDatetime` from a text. -/
def readDatetimeText (s : String) : Read Timestamp :=
  match conv.datetimeOfText s with
  | some (some t) => .ok t
  | some none => refuse .timezoneAware
  | none => refuse .datetimeParsing

/-- `_timestamp_is_written_not_counted`, and `AwareDatetime`. -/
def readTimestamp : Value ι → Read Timestamp
  | .int _ | .float _ _ =>
    refuse (.valueError "timestamp must be an RFC 3339 string, not a number")
  | .str s | .binary (some s) => readDatetimeText conv s
  | .binary none => refuse .datetimeParsing
  | .datetime (some t) _ => .ok t
  | .datetime none _ | .date _ => refuse .timezoneAware
  | _ => refuse .datetimeType

/-! ## Containers -/

variable (doc : Document ι)

/-- The items of a list, each under its index. -/
def readItems (read : ι → Read α) (items : List ι) : Read (List α) :=
  .all (items.mapIdx fun i m => under (.index i) (read m))

/-- `list[…]`, which takes a set in the order it is gone through. -/
def readList (read : ι → Read α) (n : ι) : Read (List α) :=
  match doc.value n with
  | .list items | .set items => readItems read items
  | _ => refuse .listType

/-- `Field(min_length=1)`. -/
def nonempty (xs : List α) : Read {xs : List α // xs ≠ []} :=
  match xs with
  | [] => refuse .tooShort
  | x :: xs => .ok ⟨x :: xs, List.cons_ne_nil x xs⟩

def readTexts (n : ι) : Read (List String) := readList doc (fun m => readText (doc.value m)) n

/-- The text of a key, if it has one. -/
def keyText : DictKey → Option String
  | .str s => some s
  | .bytes decoded _ => decoded
  | .other _ _ => none

/-- A key of a dict of strings, which is read as `str`; an error of it is under `[key]`. -/
def readKey (key : DictKey) : Read String :=
  under (.key key) (under (.key (.str "[key]")) (match key with
    | .str s | .bytes (some s) _ => .ok s
    | .bytes none _ => refuse .stringUnicode
    | .other _ _ => refuse .stringType))

/-- `dict[str, …]`: a new dict, filled with the entries as they are read. -/
def readEntries (read : ι → Read α) (entries : List (DictKey × ι)) :
    Read {dict : List (String × α) // (dict.map Prod.fst).Nodup} :=
  (fun es => ⟨dictOf es, nodup_dictOf es⟩) <$>
    .all (entries.map fun e => Prod.mk <$> readKey e.1 <*> under (.key e.1) (read e.2))

/-- `dict[str, str]`. -/
def readTextDict (n : ι) : Read (List (String × String)) :=
  match doc.value n with
  | .dict entries => Subtype.val <$> readEntries (fun m => readText (doc.value m)) entries
  | _ => refuse .dictType

/-- `preferred_node_selector`. -/
def readSelector (n : ι) : Read (List (String × String)) :=
  checked (fun selector => (validLabelSelector selector).mapError (·.text conv.reprStr))
    (readTextDict doc n)

/-! ## Metadata -/

/-- The same object, with other names for those it holds. -/
def Value.map {κ : Type} (f : ι → κ) : Value ι → Value κ
  | .null => .null
  | .bool b => .bool b
  | .int n => .int n
  | .float x text => .float x text
  | .str s => .str s
  | .date text => .date text
  | .datetime aware text => .datetime aware text
  | .list items => .list (items.map f)
  | .dict entries => .dict (entries.map fun e => (e.1, f e.2))
  | .binary decoded => .binary decoded
  | .set items => .set (items.map f)
  | .other typeName => .other typeName

/-- A document and a dict beside it: the validator walks the dict that pydantic made. -/
def Document.beside (dict : {dict : List (String × ι) // (dict.map Prod.fst).Nodup}) :
    Document (Option ι) where
  value
    | none => .dict (dict.val.map fun e => (.str e.1, some e.2))
    | some m => (doc.value m).map some
  keys_nodup := by
    intro m entries h
    cases m with
    | none =>
      cases h
      rw [List.map_map]
      have hinj : Function.Injective DictKey.str := fun s t heq => DictKey.str.inj heq
      simpa [Function.comp_def] using dict.property.map hinj
    | some m =>
      cases hv : doc.value m with
      | dict es =>
        change (doc.value m).map some = .dict entries at h
        rw [hv] at h
        cases h
        simpa [Function.comp_def] using doc.keys_nodup m es hv
      | _ =>
        change (doc.value m).map some = .dict entries at h
        rw [hv] at h
        cases h

/-- What the metadata walk walks. -/
def Document.heap : Heap ι where
  obj n := (doc.value n).obj
  keys_nodup n entries h := by
    cases hv : doc.value n with
    | dict es =>
      rw [hv] at h
      cases h
      exact doc.keys_nodup n entries hv
    | _ => rw [hv] at h; cases h

/-- The fields that a dict holds under its keys. -/
def heldFields (held : ι → MetaValue) (entries : List (DictKey × ι)) :
    List (String × MetaValue) :=
  entries.filterMap fun e => match e.1 with
    | .str s => some (s, held e.2)
    | .bytes _ _ | .other _ _ => none

/-- What an object holds, as far as it goes down. -/
def Document.held : Nat → ι → MetaValue
  | 0, _ => .null
  | fuel + 1, n => match doc.value n with
    | .bool b => .bool b
    | .int i => .num (.int i)
    | .float (some x) _ => .num (.float x)
    | .str s => .str s
    | .date text => .date text
    | .datetime aware text => .datetime aware text
    | .list items => .arr (items.map (Document.held fuel))
    | .dict entries => .obj (heldFields (Document.held fuel) entries)
    | _ => .null

/-- `metadata`: a dict of strings to anything, and `_serialisable_metadata`. -/
def readMetadata [DecidableEq ι] (n : ι) : Read (List (String × MetaValue)) :=
  match doc.value n with
  | .dict entries => checked (fun dict =>
      match serialisableMetadata (doc.beside dict).heap none with
      | .ok _ => .ok (dict.val.map fun e => (e.1, doc.held maxMetadataDepth e.2))
      | .error refusal => .error (refusal.text conv.reprStr))
    (readEntries .ok entries)
  | _ => refuse .dictType

/-! ## Records -/

variable (entries : List (DictKey × ι))

/-- A field without a default. -/
def required (name : String) (read : ι → Read α) : Read α :=
  match entries.lookup (.str name) with
  | some n => under (.key (.str name)) (read n)
  | none => under (.key (.str name)) (refuse .missing)

/-- A field with a default, which is not validated. -/
def defaulted (name : String) (default : α) (read : ι → Read α) : Read α :=
  match entries.lookup (.str name) with
  | some n => under (.key (.str name)) (read n)
  | none => .ok default

/-- What `extra="forbid"` says of a key. -/
def extraKey (fields : List String) : DictKey → List FieldError
  | .str s => if s ∈ fields then [] else [⟨[.key (.str s)], .extraForbidden⟩]
  | key => [⟨[.key key], .invalidKey⟩]

/-- The keys a model does not know. -/
def extraKeys (fields : List String) : Read Unit :=
  .ofErrors (entries.flatMap fun e => extraKey fields e.1)

/-- A model: a dict with the fields that are read of it, and no other. -/
def readModel (fields : List String) (body : List (DictKey × ι) → Read α) (n : ι) : Read α :=
  match doc.value n with
  | .dict entries => (fun a _ => a) <$> body entries <*> extraKeys entries fields
  | _ => refuse .modelType

end

/-! ## What is read -/

section

variable {ι α : Type} {doc : Document ι} {n : ι} {entries : List (DictKey × ι)}

theorem nonempty_eq_ok {xs : List α} {ys : {xs : List α // xs ≠ []}} :
    nonempty xs = .ok ys ↔ ys.val = xs := by
  cases xs with
  | nil =>
    refine iff_of_false (fun h => ?_) ys.property
    cases h
  | cons x xs =>
    simp only [nonempty, Validated.ok.injEq]
    exact ⟨fun h => h ▸ rfl, fun h => Subtype.ext h.symm⟩

theorem required_eq_ok {name : String} {read : ι → Read α} {a : α} :
    required entries name read = .ok a ↔
      ∃ m, entries.lookup (.str name) = some m ∧ read m = .ok a := by
  unfold required
  split
  · next m hm => simp [hm]
  · next hm => simp [hm, refuse]

theorem defaulted_eq_ok {name : String} {default : α} {read : ι → Read α} {a : α} :
    defaulted entries name default read = .ok a ↔
      (∃ m, entries.lookup (.str name) = some m ∧ read m = .ok a) ∨
        entries.lookup (.str name) = none ∧ a = default := by
  unfold defaulted
  split
  · next m hm => simp [hm]
  · next hm => simp [hm, eq_comm]

theorem extraKeys_eq_ok {fields : List String} {u : Unit} :
    extraKeys entries fields = .ok u ↔ ∀ e ∈ entries, ∃ s ∈ fields, e.1 = .str s := by
  rw [extraKeys, Validated.ofErrors_eq_ok, List.flatMap_eq_nil_iff]
  refine forall₂_congr fun e _ => ?_
  obtain ⟨key, m⟩ := e
  cases key with
  | str s =>
    simp only [extraKey, DictKey.str.injEq]
    by_cases h : s ∈ fields <;> simp [h]
  | bytes decoded repr => simp [extraKey]
  | other identity repr => simp [extraKey]

theorem readModel_eq_ok {fields : List String} {body : List (DictKey × ι) → Read α} {a : α} :
    readModel doc fields body n = .ok a ↔ ∃ entries, doc.value n = .dict entries ∧
      body entries = .ok a ∧ ∀ e ∈ entries, ∃ s ∈ fields, e.1 = .str s := by
  unfold readModel
  split
  · next entries hv =>
    simp only [Validated.seq_eq_ok, Validated.map_eq_ok, extraKeys_eq_ok]
    constructor
    · rintro ⟨_, ⟨a', ha', rfl⟩, u, hu, rfl⟩
      exact ⟨entries, hv, ha', hu⟩
    · intro hread
      obtain ⟨entries', hv', ha, hknown⟩ := hread
      rw [hv] at hv'
      cases hv'
      exact ⟨_, ⟨a, ha, rfl⟩, (), hknown, rfl⟩
  · next hne =>
    refine iff_of_false (fun h => ?_) ?_
    · cases h
    · rintro ⟨entries, hv, -⟩
      exact hne entries hv

end

end MissionCompiler.Reading
