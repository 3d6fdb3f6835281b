import MissionCompiler.Lib.Unfolding
import MissionCompiler.Reading.Document

/-!
# Objects and their values

When an object unfolds to a value of `metadata`, whatever is shared in it. The validator accepts the
dicts that unfold to a value within its bounds, and what a step is given of them is that value.
-/

namespace MissionCompiler.Reading

open Lib Schema

/-- The places of a value, by their subscripts. -/
def metaEdges : MetaValue → List (Subscript × MetaValue)
  | .arr items => items.zipIdx.map fun e => (.index e.2, e.1)
  | .obj fields => fields.map fun e => (.key (.str e.1), e.2)
  | _ => []

/-- An object unfolds to a value. -/
inductive Unfolds {ι : Type} (doc : Document ι) : ι → MetaValue → Prop
  | null {n : ι} (h : doc.value n = .null) : Unfolds doc n .null
  | bool {n : ι} {b : Bool} (h : doc.value n = .bool b) : Unfolds doc n (.bool b)
  | int {n : ι} {i : Int} (h : doc.value n = .int i) : Unfolds doc n (.num (.int i))
  | float {n : ι} {x : Rat} {text : String} (h : doc.value n = .float (some x) text) :
    Unfolds doc n (.num (.float x))
  | str {n : ι} {s : String} (h : doc.value n = .str s) : Unfolds doc n (.str s)
  | date {n : ι} {s : String} (h : doc.value n = .date s) : Unfolds doc n (.date s)
  | datetime {n : ι} {aware : Option Timestamp} {s : String} (h : doc.value n = .datetime aware s) :
    Unfolds doc n (.datetime aware s)
  | list {n : ι} {items : List ι} {vs : List MetaValue} (h : doc.value n = .list items)
    (length_eq : items.length = vs.length)
    (each : ∀ m v, (m, v) ∈ items.zip vs → Unfolds doc m v) : Unfolds doc n (.arr vs)
  | dict {n : ι} {entries : List (DictKey × ι)} {fields : List (String × MetaValue)}
    (h : doc.value n = .dict entries)
    (keys : entries.map Prod.fst = fields.map fun e => .str e.1)
    (each : ∀ m v, (m, v) ∈ (entries.map Prod.snd).zip (fields.map Prod.snd) → Unfolds doc m v) :
    Unfolds doc n (.obj fields)

/-- A value within the bounds of the metadata validator. -/
structure WithinBounds (v : MetaValue) : Prop where
  depth : ∀ path ∈ unfolding metaEdges v, path.length ≤ maxMetadataDepth
  size : (unfolding metaEdges v).encard ≤ maxMetadataNodes

section

variable {ι : Type} {doc : Document ι} {n : ι}

/-! ## Unfolding -/

/-- What the walk takes for a JSON value is none of four kinds of objects. -/
theorem value_obj_isJson (v : Value ι) : v.obj.IsJson ↔ (∀ text, v ≠ .float none text) ∧
    (∀ decoded, v ≠ .binary decoded) ∧ (∀ items, v ≠ .set items) ∧ ∀ name, v ≠ .other name := by
  cases v with
  | float x text =>
    cases x with
    | none =>
      refine iff_of_false (fun h => ?_) fun h => h.1 text rfl
      generalize hobj : Value.obj (.float none text : Value ι) = o at h
      cases h <;> simp [Value.obj] at hobj
    | some x => exact iff_of_true (.float text) (by simp)
  | binary decoded => exact iff_of_false (fun h => nomatch h) (by simp)
  | set items => exact iff_of_false (fun h => nomatch h) (by simp)
  | other name => exact iff_of_false (fun h => nomatch h) (by simp)
  | _ => exact iff_of_true (by constructor) (by simp)

/-- What unfolds to a value is no object that the walk refuses. -/
theorem Unfolds.isJson {v : MetaValue} (h : Unfolds doc n v) :
    (doc.heap.obj n).IsJson ∧ (doc.heap.obj n).StringKeys := by
  have hobj : doc.heap.obj n = (doc.value n).obj := rfl
  have hkeys : ∀ entries, doc.value n = .dict entries → (∀ e ∈ entries, ∃ s, e.1 = .str s) →
      ((doc.value n).obj).StringKeys := by
    intro entries hv hstr entries' heq e he
    rw [hv] at heq
    cases heq
    exact hstr e he
  have hplain : (∀ entries, doc.value n ≠ .dict entries) → ((doc.value n).obj).StringKeys := by
    intro hne entries heq
    cases hv : doc.value n with
    | dict es => exact absurd hv (hne es)
    | _ => rw [hv] at heq; cases heq
  rw [hobj]
  cases h with
  | dict h keys each =>
    refine ⟨by rw [h]; exact .dict _, hkeys _ h fun e he => ?_⟩
    have hmem := List.mem_map_of_mem (f := Prod.fst) he
    rw [keys] at hmem
    obtain ⟨kv, -, hkv⟩ := List.mem_map.mp hmem
    exact ⟨kv.1, hkv.symm⟩
  | null h | bool h | int h | float h | str h | date h | datetime h | list h length_eq each =>
    refine ⟨by rw [h]; constructor, hplain fun entries hv => ?_⟩
    rw [h] at hv
    cases hv

/-- Entries and fields with the same keys, in pairs. -/
theorem forall₂_of_keys {α : Type} {R : ι → α → Prop} {entries : List (DictKey × ι)}
    {kvs : List (String × α)} (keys : entries.map Prod.fst = kvs.map fun e => .str e.1)
    (each : ∀ m j, (m, j) ∈ (entries.map Prod.snd).zip (kvs.map Prod.snd) → R m j) :
    List.Forall₂ (fun e kv => e.1 = .str kv.1 ∧ R e.2 kv.2) entries kvs := by
  induction entries generalizing kvs with
  | nil =>
    cases kvs with
    | nil => exact .nil
    | cons kv kvs => simp at keys
  | cons e entries ih =>
    cases kvs with
    | nil => simp at keys
    | cons kv kvs =>
      simp only [List.map_cons, List.cons.injEq] at keys
      refine .cons ⟨keys.1, each e.2 kv.2 (by simp)⟩ (ih keys.2 ?_)
      exact fun m j hm => each m j (List.mem_cons_of_mem _ hm)

/-- An object and its value have the same parts. -/
theorem unfolds_alike : Alike (Unfolds doc) doc.heap.edges metaEdges := by
  intro n j h
  have hobj : doc.heap.edges n = (doc.value n).obj.pairs := rfl
  rw [hobj]
  cases h with
  | @list _ items xs h length_eq each =>
    rw [h]
    show List.Forall₂ _ (items.zipIdx.map fun e => (Subscript.index e.2, e.1))
      (xs.zipIdx.map fun e => (Subscript.index e.2, e.1))
    rw [List.forall₂_map_left_iff, List.forall₂_map_right_iff]
    have hboth : ∀ k, List.Forall₂ (fun e e' => Subscript.index e.2 = Subscript.index e'.2 ∧
        Unfolds doc e.1 e'.1) (items.zipIdx k) (xs.zipIdx k) := by
      clear h
      induction items generalizing xs with
      | nil =>
        cases xs with
        | nil => exact fun k => .nil
        | cons x xs => cases length_eq
      | cons m items ih =>
        cases xs with
        | nil => cases length_eq
        | cons x xs =>
          intro k
          rw [List.zipIdx_cons, List.zipIdx_cons]
          refine .cons ⟨rfl, each m x (by simp)⟩ (ih (by simpa using length_eq) ?_ (k + 1))
          exact fun m' x' hm => each m' x' (List.mem_cons_of_mem _ hm)
    exact hboth 0
  | @dict _ entries kvs h keys each =>
    rw [h]
    show List.Forall₂ _ (entries.map fun e => (Subscript.key e.1, e.2))
      (kvs.map fun e => (Subscript.key (.str e.1), e.2))
    rw [List.forall₂_map_left_iff, List.forall₂_map_right_iff]
    exact (forall₂_of_keys keys each).imp fun e kv he => ⟨congrArg Subscript.key he.1, he.2⟩
  | null h | bool h | int h | float h | str h | date h | datetime h =>
    rw [h]
    exact .nil

/-- What unfolds to a value has the places of the value. -/
theorem Unfolds.unfolding {v : MetaValue} (h : Unfolds doc n v) :
    Lib.unfolding doc.heap.edges n = Lib.unfolding metaEdges v :=
  unfolds_alike.unfolding_eq h

/-- What unfolds to a value within the bounds is what the validator accepts. -/
theorem Unfolds.serialisable {v : MetaValue} (h : Unfolds doc n v) (hbounds : WithinBounds v) :
    Serialisable doc.heap n := by
  have hdepth : ∀ path ∈ Lib.unfolding doc.heap.edges n, path.length ≤ maxMetadataDepth := by
    rw [h.unfolding]
    exact hbounds.depth
  have hjson : ∀ m, Relation.ReflTransGen (Child doc.heap.edges) n m →
      (doc.heap.obj m).IsJson ∧ (doc.heap.obj m).StringKeys := by
    intro m hm
    obtain ⟨path, hpath⟩ := reaches_iff_at.mp hm
    obtain ⟨j', -, hj'⟩ := hpath.related unfolds_alike h
    exact hj'.isJson
  exact ⟨fun m => acyclic_of_bounded hdepth, fun m hm => (hjson m hm).1,
    fun m hm => (hjson m hm).2, hdepth, h.unfolding ▸ hbounds.size⟩

/-! ## Writing -/

/-- Whether an object is a JSON value as far as it goes down, and it goes down no further. -/
def Document.isWritten (doc : Document ι) : Nat → ι → Bool
  | 0, _ => false
  | fuel + 1, n => match doc.value n with
    | .float none _ | .binary _ | .set _ | .other _ => false
    | .list items => items.all (Document.isWritten doc fuel)
    | .dict entries => entries.all fun e => (match e.1 with
        | .str _ => true
        | .bytes _ _ | .other _ _ => false) && Document.isWritten doc fuel e.2
    | _ => true

/-- The objects below one are JSON values, and there are none far below. -/
structure Writable (doc : Document ι) (fuel : Nat) (n : ι) : Prop where
  value : ∀ path m, At doc.heap.edges n path m → (doc.heap.obj m).IsJson
  keys : ∀ path m, At doc.heap.edges n path m → (doc.heap.obj m).StringKeys
  depth : ∀ path ∈ Lib.unfolding doc.heap.edges n, path.length < fuel

/-- What a writable object holds is writable one step less deep. -/
theorem Writable.child {fuel : Nat} (h : Writable doc (fuel + 1) n) {step : Subscript} {m : ι}
    (edge : (step, m) ∈ doc.heap.edges n) : Writable doc fuel m where
  value path t ht := h.value (step :: path) t (.down edge ht)
  keys path t ht := h.keys (step :: path) t (.down edge ht)
  depth path := by
    intro ⟨t, ht⟩
    have hlen := h.depth (step :: path) ⟨t, .down edge ht⟩
    simp only [List.length_cons] at hlen
    omega

/-- What the validator accepts can be written as deep as it goes down. -/
theorem writable_of_serialisable (h : Serialisable doc.heap n) :
    Writable doc (maxMetadataDepth + 1) n where
  value path m hm := h.value m (reaches_iff_at.mpr ⟨path, hm⟩)
  keys path m hm := h.keys m (reaches_iff_at.mpr ⟨path, hm⟩)
  depth path hpath := Nat.lt_succ_of_le (h.depth path hpath)

/-- With string keys every entry of a dict is held. -/
theorem heldFields_keys {held : ι → MetaValue} {entries : List (DictKey × ι)}
    (hkeys : ∀ e ∈ entries, ∃ s, e.1 = .str s) :
    entries.map Prod.fst = (heldFields held entries).map (fun e => .str e.1) ∧
      (heldFields held entries).map Prod.snd = entries.map fun e => held e.2 := by
  induction entries with
  | nil => exact ⟨rfl, rfl⟩
  | cons e entries ih =>
    obtain ⟨⟨s, hs⟩, hrest⟩ := List.forall_mem_cons.mp hkeys
    obtain ⟨key, m⟩ := e
    simp only at hs
    subst hs
    obtain ⟨hfst, hsnd⟩ := ih hrest
    constructor
    · show _ :: _ = _ :: _
      exact congrArg _ hfst
    · show _ :: _ = _ :: _
      exact congrArg _ hsnd

theorem mem_zip_map {α β : Type} {f : α → β} {xs : List α} {a : α} {b : β} :
    (a, b) ∈ xs.zip (xs.map f) ↔ a ∈ xs ∧ b = f a := by
  rw [← List.map_prod_left_eq_zip, List.mem_map]
  constructor
  · intro ⟨x, hx, heq⟩
    cases heq
    exact ⟨hx, rfl⟩
  · intro ⟨ha, hb⟩
    exact ⟨a, ha, by rw [hb]⟩

/-- What is held by an object whose parts can be written is what it unfolds to. -/
theorem unfolds_of_isWritten {fuel : Nat} (h : doc.isWritten fuel n = true) :
    Unfolds doc n (doc.held fuel n) := by
  induction fuel generalizing n with
  | zero => cases h
  | succ fuel ih =>
    rw [Document.isWritten] at h
    rw [Document.held]
    cases hv : doc.value n with
    | null => exact .null hv
    | bool b => exact .bool hv
    | int i => exact .int hv
    | float x text =>
      cases x with
      | none => rw [hv] at h; cases h
      | some x => exact .float hv
    | str s => exact .str hv
    | date s => exact .date hv
    | datetime aware s => exact .datetime hv
    | list items =>
      rw [hv] at h
      refine .list hv (by simp) fun m x hm => ?_
      obtain ⟨hmem, rfl⟩ := mem_zip_map.mp hm
      exact ih (List.all_eq_true.mp h m hmem)
    | dict entries =>
      rw [hv] at h
      have hentry : ∀ e ∈ entries, (∃ s, e.1 = .str s) ∧ doc.isWritten fuel e.2 = true := by
        intro e he
        have hboth := List.all_eq_true.mp h e he
        rw [Bool.and_eq_true] at hboth
        refine ⟨?_, hboth.2⟩
        cases hk : e.1 with
        | str s => exact ⟨s, rfl⟩
        | bytes decoded repr => rw [hk] at hboth; cases hboth.1
        | other identity repr => rw [hk] at hboth; cases hboth.1
      obtain ⟨hfst, hsnd⟩ :=
        @heldFields_keys _ (doc.held fuel) entries fun e he => (hentry e he).1
      refine .dict hv hfst fun m v hm => ?_
      have hmap : entries.map (fun e => doc.held fuel e.2) =
          (entries.map Prod.snd).map (doc.held fuel) := List.map_map.symm
      rw [hsnd, hmap] at hm
      obtain ⟨hmem, rfl⟩ := mem_zip_map.mp hm
      obtain ⟨e, he, rfl⟩ := List.mem_map.mp hmem
      exact ih (hentry e he).2
    | binary decoded => rw [hv] at h; cases h
    | set items => rw [hv] at h; cases h
    | other name => rw [hv] at h; cases h

/-- What is writable is written by a recursion that is deep enough. -/
theorem Writable.isWritten {fuel : Nat} (h : Writable doc fuel n) :
    doc.isWritten fuel n = true := by
  induction fuel generalizing n with
  | zero => exact absurd (h.depth [] ⟨n, .here n⟩) (Nat.not_lt_zero _)
  | succ fuel ih =>
    have hjson := (value_obj_isJson (doc.value n)).mp (h.value [] n (.here n))
    have hkeys : (doc.value n).obj.StringKeys := h.keys [] n (.here n)
    have hedges : doc.heap.edges n = (doc.value n).obj.pairs := rfl
    rw [Document.isWritten]
    cases hv : doc.value n with
    | float x text =>
      cases x with
      | none => exact absurd hv (hjson.1 text)
      | some x => rfl
    | list items =>
      rw [hv] at hedges
      refine List.all_eq_true.mpr fun m hm => ?_
      obtain ⟨i, hi⟩ := List.getElem?_of_mem hm
      have hedge : (Subscript.index i, m) ∈ doc.heap.edges n := by
        rw [hedges]
        exact List.mem_map.mpr ⟨(m, i), List.mem_zipIdx_iff_getElem?.mpr hi, rfl⟩
      exact ih (h.child hedge)
    | dict entries =>
      rw [hv] at hedges hkeys
      refine List.all_eq_true.mpr fun e he => ?_
      obtain ⟨s, hs⟩ := hkeys entries rfl e he
      have hedge : (Subscript.key e.1, e.2) ∈ doc.heap.edges n := by
        rw [hedges]
        exact List.mem_map_of_mem (f := fun e => (Subscript.key e.1, e.2)) he
      rw [hs, Bool.and_eq_true]
      exact ⟨rfl, ih (h.child hedge)⟩
    | binary decoded => exact absurd hv (hjson.2.1 decoded)
    | set items => exact absurd hv (hjson.2.2.1 items)
    | other name => exact absurd hv (hjson.2.2.2 name)
    | _ => rfl

/-- What a part of a value unfolds to is one step less deep. -/
theorem length_lt_below {v w : MetaValue} {step : Subscript} {fuel : Nat}
    (edge : (step, w) ∈ metaEdges v)
    (hdepth : ∀ path ∈ Lib.unfolding metaEdges v, path.length < fuel + 1) :
    ∀ path ∈ Lib.unfolding metaEdges w, path.length < fuel := by
  rintro path ⟨t, ht⟩
  have hlen := hdepth (step :: path) ⟨t, .down edge ht⟩
  simp only [List.length_cons] at hlen
  omega

/-- Entries that pair with fields, by key and by what they hold, are held as these fields. -/
theorem heldFields_eq {held : ι → MetaValue} {entries : List (DictKey × ι)}
    {fields : List (String × MetaValue)}
    (h : List.Forall₂ (fun e kv => e.1 = .str kv.1 ∧ held e.2 = kv.2) entries fields) :
    heldFields held entries = fields := by
  induction h with
  | nil => rfl
  | @cons e kv entries fields he _ ih =>
    obtain ⟨key, m⟩ := e
    obtain ⟨s, v⟩ := kv
    simp only at he
    obtain ⟨rfl, rfl⟩ := he
    exact congrArg _ ih

/-- An object that unfolds to a value holds it, however far down that is. -/
theorem Unfolds.held_eq {v : MetaValue} (h : Unfolds doc n v) {fuel : Nat}
    (hdepth : ∀ path ∈ Lib.unfolding metaEdges v, path.length < fuel) : doc.held fuel n = v := by
  induction h generalizing fuel with
  | null h | bool h | int h | float h | str h | date h | datetime h =>
    cases fuel with
    | zero => exact absurd (hdepth [] ⟨_, .here _⟩) (Nat.not_lt_zero _)
    | succ fuel => rw [Document.held, h]
  | @list n items vs h length_eq each ih =>
    cases fuel with
    | zero => exact absurd (hdepth [] ⟨_, .here _⟩) (Nat.not_lt_zero _)
    | succ fuel =>
      rw [Document.held, h]
      have hheld : List.Forall₂ (fun m v => doc.held fuel m = v) items vs := by
        refine List.forall₂_iff_zip.mpr ⟨length_eq, fun {m v} hm => ih m v hm ?_⟩
        obtain ⟨i, hi⟩ := List.getElem?_of_mem (List.of_mem_zip hm).2
        have hedge : (Subscript.index i, v) ∈ metaEdges (.arr vs) :=
          List.mem_map.mpr ⟨(v, i), List.mem_zipIdx_iff_getElem?.mpr hi, rfl⟩
        exact length_lt_below hedge hdepth
      rw [← List.forall₂_map_left_iff, List.forall₂_eq_eq_eq] at hheld
      exact congrArg MetaValue.arr hheld
  | @dict n entries fields h keys each ih =>
    cases fuel with
    | zero => exact absurd (hdepth [] ⟨_, .here _⟩) (Nat.not_lt_zero _)
    | succ fuel =>
      rw [Document.held, h]
      have heach : ∀ m v, (m, v) ∈ (entries.map Prod.snd).zip (fields.map Prod.snd) →
          doc.held fuel m = v := by
        intro m v hm
        obtain ⟨kv, hkv, rfl⟩ := List.mem_map.mp (List.of_mem_zip hm).2
        have hedge : (Subscript.key (.str kv.1), kv.2) ∈ metaEdges (.obj fields) :=
          List.mem_map_of_mem (f := fun e => (Subscript.key (.str e.1), e.2)) hkv
        exact ih m kv.2 hm (length_lt_below hedge hdepth)
      exact congrArg MetaValue.obj (heldFields_eq (forall₂_of_keys keys heach))

/-! ## The dict that is walked -/

variable {dict : {dict : List (String × ι) // (dict.map Prod.fst).Nodup}}

/-- The objects of a document are the same beside a new dict. -/
theorem value_beside : (doc.beside dict).value (some n) = (doc.value n).map some := rfl

/-- An object holds the same with a dict beside the document. -/
theorem held_beside (fuel : Nat) : (doc.beside dict).held fuel (some n) = doc.held fuel n := by
  induction fuel generalizing n with
  | zero => rfl
  | succ fuel ih =>
    rw [Document.held, Document.held, value_beside]
    cases hv : doc.value n with
    | float x text => cases x <;> rfl
    | list items =>
      refine congrArg MetaValue.arr ?_
      rw [List.map_map]
      exact List.map_congr_left fun m _ => ih
    | dict entries =>
      refine congrArg MetaValue.obj ?_
      rw [heldFields, List.filterMap_map]
      refine List.filterMap_congr fun e _ => ?_
      obtain ⟨key, m⟩ := e
      cases key with
      | str s => exact congrArg (fun v => some (s, v)) ih
      | _ => rfl
    | _ => rfl

/-- What is written of a document is written of it beside a new dict. -/
theorem isWritten_beside (fuel : Nat) :
    (doc.beside dict).isWritten fuel (some n) = doc.isWritten fuel n := by
  induction fuel generalizing n with
  | zero => rfl
  | succ fuel ih =>
    rw [Document.isWritten, Document.isWritten, value_beside]
    cases hv : doc.value n with
    | float x text => cases x <;> rfl
    | list items =>
      show (items.map some).all _ = _
      rw [List.all_map]
      exact List.all_congr rfl fun m => ih
    | dict entries =>
      show (entries.map _).all _ = _
      rw [List.all_map]
      exact List.all_congr rfl fun e => congrArg _ ih
    | _ => rfl

/-- What unfolds in a document unfolds in it beside a new dict. -/
theorem Unfolds.beside {v : MetaValue} (h : Unfolds doc n v) :
    Unfolds (doc.beside dict) (some n) v := by
  induction h with
  | null h => exact .null (by rw [value_beside, h]; rfl)
  | bool h => exact .bool (by rw [value_beside, h]; rfl)
  | int h => exact .int (by rw [value_beside, h]; rfl)
  | float h => exact .float (by rw [value_beside, h]; rfl)
  | str h => exact .str (by rw [value_beside, h]; rfl)
  | date h => exact .date (by rw [value_beside, h]; rfl)
  | datetime h => exact .datetime (by rw [value_beside, h]; rfl)
  | @list n items vs h length_eq each ih =>
    have hvalue : (doc.beside dict).value (some n) = .list (items.map some) := by
      rw [value_beside, h]
      rfl
    refine .list hvalue (by rw [List.length_map, length_eq]) fun m v hm => ?_
    rw [List.zip_map_left] at hm
    obtain ⟨⟨m', v'⟩, hmem, heq⟩ := List.mem_map.mp hm
    cases heq
    exact ih m' v' hmem
  | @dict n entries fields h keys each ih =>
    have hvalue : (doc.beside dict).value (some n) =
        .dict (entries.map fun e => (e.1, some e.2)) := by
      rw [value_beside, h]
      rfl
    refine .dict hvalue ?_ fun m v hm => ?_
    · rw [List.map_map]
      exact keys
    · rw [List.map_map] at hm
      have hsnd : entries.map (Prod.snd ∘ fun e => (e.1, some e.2)) =
          (entries.map Prod.snd).map some := by rw [List.map_map]; rfl
      rw [hsnd, List.zip_map_left] at hm
      obtain ⟨⟨m', v'⟩, hmem, heq⟩ := List.mem_map.mp hm
      cases heq
      exact ih m' v' hmem

/-- Fields that pair with the dict are what it unfolds to. -/
theorem Unfolds.root {fields : List (String × MetaValue)}
    (hfields : List.Forall₂ (fun e kv => e.1 = kv.1 ∧ Unfolds doc e.2 kv.2) dict.val fields) :
    Unfolds (doc.beside dict) none (.obj fields) := by
  have hroot : (doc.beside dict).value none =
      .dict (dict.val.map fun e => (.str e.1, some e.2)) := rfl
  have hkeys : List.Forall₂ (fun (e : String × ι) (kv : String × MetaValue) =>
      DictKey.str kv.1 = DictKey.str e.1) dict.val fields :=
    hfields.imp fun e kv he => congrArg DictKey.str he.1.symm
  have hvalues : List.Forall₂ (Unfolds (doc.beside dict))
      ((dict.val.map fun e => (DictKey.str e.1, some e.2)).map Prod.snd)
      (fields.map Prod.snd) := by
    simp only [List.forall₂_map_left_iff, List.forall₂_map_right_iff]
    exact hfields.imp fun e kv he => he.2.beside
  refine .dict hroot ?_ fun m v hm => (List.forall₂_iff_zip.mp hvalues).2 hm
  rw [List.map_map]
  exact (map_eq_map_of_forall₂ hkeys).symm

/-- Where the dict is written, its objects are. -/
theorem isWritten_of_root {fuel : Nat} (h : (doc.beside dict).isWritten (fuel + 1) none = true) :
    ∀ e ∈ dict.val, doc.isWritten fuel e.2 = true := by
  intro e he
  change (dict.val.map fun e => (DictKey.str e.1, some e.2)).all _ = true at h
  rw [List.all_map] at h
  have hboth : (true && (doc.beside dict).isWritten fuel (some e.2)) = true :=
    List.all_eq_true.mp h e he
  rwa [Bool.true_and, isWritten_beside] at hboth

/-- The dict itself holds what its objects hold. -/
theorem held_dict (fuel : Nat) : (doc.beside dict).held (fuel + 1) none =
    .obj (dict.val.map fun e => (e.1, doc.held fuel e.2)) := by
  show MetaValue.obj (heldFields ((doc.beside dict).held fuel)
    (dict.val.map fun e => (.str e.1, some e.2))) = _
  rw [heldFields, List.filterMap_map]
  refine congrArg MetaValue.obj ?_
  refine (List.filterMap_congr (g := some ∘ fun e => (e.1, doc.held fuel e.2))
    fun e _ => ?_).trans (congrFun List.filterMap_eq_map _)
  show some (e.1, (doc.beside dict).held fuel (some e.2)) = some (e.1, doc.held fuel e.2)
  rw [held_beside]

/-! ## The validator -/

/-- The validator returns what it was given. -/
theorem serialisableMetadata_root [DecidableEq ι] {doc : Document ι} {n root : ι} :
    serialisableMetadata doc.heap n = .ok root ↔ root = n ∧ Serialisable doc.heap n := by
  constructor
  · intro h
    obtain ⟨_, hwalk, hroot⟩ := bind_eq_ok.mp h
    cases hroot
    exact ⟨rfl, serialisableMetadata_eq_ok.mp h⟩
  · intro ⟨hroot, h⟩
    rw [hroot]
    exact serialisableMetadata_eq_ok.mpr h

/-- A key is read as its text. -/
theorem readKey_eq_ok {key : DictKey} {s : String} :
    readKey key = .ok s ↔ keyText key = some s := by
  cases key with
  | str s' => simp [readKey, keyText]
  | bytes decoded repr => cases decoded <;> simp [readKey, keyText, refuse]
  | other identity repr => simp [readKey, keyText, refuse]

/-- The entries of a dict of strings, and the dict they are put into. -/
theorem readEntries_eq_ok {α : Type} {read : ι → Read α} {entries : List (DictKey × ι)}
    {dict : {dict : List (String × α) // (dict.map Prod.fst).Nodup}} :
    readEntries read entries = .ok dict ↔ ∃ es, dict.val = dictOf es ∧
      List.Forall₂ (fun e kv => keyText e.1 = some kv.1 ∧ read e.2 = .ok kv.2) entries es := by
  have hentry : ∀ (e : DictKey × ι) (kv : String × α),
      Prod.mk <$> readKey e.1 <*> under (.key e.1) (read e.2) = .ok kv ↔
        keyText e.1 = some kv.1 ∧ read e.2 = .ok kv.2 := by
    intro e kv
    simp only [Validated.seq_eq_ok, Validated.map_eq_ok, under_eq_ok, readKey_eq_ok]
    constructor
    · rintro ⟨_, ⟨s, hs, rfl⟩, t, ht, rfl⟩
      exact ⟨hs, ht⟩
    · intro h
      exact ⟨_, ⟨kv.1, h.1, rfl⟩, kv.2, h.2, rfl⟩
  rw [readEntries, Validated.map_eq_ok]
  refine exists_congr fun es => ?_
  rw [Validated.all_eq_ok, List.forall₂_map_left_iff, and_comm]
  simp only [hentry]
  refine and_congr_left fun _ => ?_
  rw [Subtype.ext_iff, eq_comm]

/-- What the validator accepts and unfolds to a value keeps that within the bounds. -/
theorem Unfolds.withinBounds {v : MetaValue} (h : Unfolds doc n v)
    (hserialisable : Serialisable doc.heap n) : WithinBounds v where
  depth := by
    rw [← h.unfolding]
    exact hserialisable.depth
  size := by
    rw [← h.unfolding]
    exact hserialisable.size

/-- A dict that the validator accepts unfolds, entry by entry, to what it holds. -/
theorem unfolds_of_serialisable (h : Serialisable (doc.beside dict).heap none) :
    List.Forall₂ (fun e kv => e.1 = kv.1 ∧ Unfolds doc e.2 kv.2) dict.val
        (dict.val.map fun e => (e.1, doc.held maxMetadataDepth e.2)) ∧
      WithinBounds (.obj (dict.val.map fun e => (e.1, doc.held maxMetadataDepth e.2))) := by
  have hwritten := (writable_of_serialisable h).isWritten
  have hentries : List.Forall₂ (fun e kv => e.1 = kv.1 ∧ Unfolds doc e.2 kv.2) dict.val
      (dict.val.map fun e => (e.1, doc.held maxMetadataDepth e.2)) := by
    rw [List.forall₂_map_right_iff]
    exact List.forall₂_same.mpr fun e he =>
      ⟨rfl, unfolds_of_isWritten (isWritten_of_root hwritten e he)⟩
  exact ⟨hentries, (Unfolds.root hentries).withinBounds h⟩

/-- Metadata is read of a dict of strings whose objects unfold to values within the bounds, and it
is these values. -/
theorem readMetadata_eq_ok [DecidableEq ι] {conv : Conversions}
    {fields : List (String × MetaValue)} :
    readMetadata conv doc n = .ok fields ↔ ∃ entries dict, doc.value n = .dict entries ∧
      readEntries .ok entries = .ok dict ∧
        List.Forall₂ (fun e kv => e.1 = kv.1 ∧ Unfolds doc e.2 kv.2) dict.val fields ∧
          WithinBounds (.obj fields) := by
  constructor
  · intro h
    unfold readMetadata at h
    split at h
    · next entries hv =>
      obtain ⟨dict, hdict, h⟩ := checked_eq_ok.mp h
      split at h
      · next root hroot =>
        obtain ⟨hentries, hbounds⟩ := unfolds_of_serialisable (serialisableMetadata_root.mp hroot).2
        rw [Except.ok.inj h] at hentries hbounds
        exact ⟨entries, dict, hv, hdict, hentries, hbounds⟩
      · cases h
    · cases h
  · rintro ⟨entries, dict, hv, hdict, hfields, hbounds⟩
    have hunfolds := Unfolds.root hfields
    have hheld : (doc.beside dict).held (maxMetadataDepth + 1) none = .obj fields :=
      hunfolds.held_eq fun path hpath => Nat.lt_succ_of_le (hbounds.depth path hpath)
    rw [held_dict] at hheld
    unfold readMetadata
    rw [hv]
    refine checked_eq_ok.mpr ⟨dict, hdict, ?_⟩
    rw [serialisableMetadata_root.mpr ⟨rfl, hunfolds.serialisable hbounds⟩]
    exact congrArg Except.ok (MetaValue.obj.inj hheld)

end

end MissionCompiler.Reading
