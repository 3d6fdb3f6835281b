import MissionCompiler.Compile.Unique
import MissionCompiler.Reading.Keeps
import MissionCompiler.Reading.Serialised

/-!
# Accepted documents

The dump of a plan that is read keeps the document it is read from, model by model.
-/

namespace MissionCompiler.Reading

open Lib Schema Names Compile

variable {ι α : Type} {conv : Conversions} {isoformat : Timestamp → String} {doc : Document ι}
  {n : ι}

/-! ## Containers -/

theorem readItems_eq_ok {read : ι → Read α} {items : List ι} {as : List α} :
    readItems read items = .ok as ↔ List.Forall₂ (fun m a => read m = .ok a) items as := by
  rw [readItems, Validated.all_eq_ok]
  have hindex : ∀ f : ℕ → ι → Read α, (∀ i m a, f i m = .ok a ↔ read m = .ok a) →
      (List.Forall₂ (fun x a => x = .ok a) (items.mapIdx f) as ↔
        List.Forall₂ (fun m a => read m = .ok a) items as) := by
    induction items generalizing as with
    | nil => intro f _; simp
    | cons m items ih =>
      intro f hf
      rw [List.mapIdx_cons, List.forall₂_cons_left_iff, List.forall₂_cons_left_iff]
      refine exists_congr fun a => exists_congr fun rest => and_congr (hf 0 m a)
        (and_congr_left fun _ => ?_)
      exact ih (fun i => f (i + 1)) fun i => hf (i + 1)
  exact hindex _ fun i m a => under_eq_ok

/-- A dict of strings is the new dict its entries are put into. -/
theorem readTextDict_eq_ok {kvs : List (String × String)} :
    readTextDict doc n = .ok kvs ↔ ∃ entries dict, doc.value n = .dict entries ∧
      readEntries (fun m => readText (doc.value m)) entries = .ok dict ∧ dict.val = kvs := by
  unfold readTextDict
  split
  · next entries hv =>
    rw [Validated.map_eq_ok]
    constructor
    · intro ⟨dict, hdict, hkvs⟩
      exact ⟨entries, dict, hv, hdict, hkvs⟩
    · intro hread
      obtain ⟨entries', dict, hv', hdict, hkvs⟩ := hread
      rw [hv] at hv'
      cases hv'
      exact ⟨dict, hdict, hkvs⟩
  · next hne =>
    refine iff_of_false (fun h => ?_) ?_
    · cases h
    · rintro ⟨entries, _, hv, -⟩
      exact hne entries hv

/-! ### Dicts of strings -/

section

variable {entries : List (DictKey × ι)} {es : List (String × α)} {R : ι → α → Prop} {s : String}

end

/-- A dict that is taken as it is. -/
theorem keeps_dict {entries : List (DictKey × ι)} {kvs : List (String × Json)}
    (hv : doc.value n = .dict entries)
    (h : List.Forall₂ (fun e kv => e.1 = .str kv.1 ∧ Keeps conv isoformat doc e.2 kv.2)
      entries kvs) : Keeps conv isoformat doc n (.obj kvs) := by
  have hnodup := doc.keys_nodup n entries hv
  refine .dict hv (fun e he => ?_) (fun s j hj m hm => ?_) (fun s j hj => ?_)
  · obtain ⟨kv, hkv, hkey, -⟩ := exists_of_mem_forall₂ h.flip he
    exact ⟨kv.1, List.mem_map_of_mem hkv, hkey⟩
  · obtain ⟨⟨key, m'⟩, hmem, hkey, hkeeps⟩ := exists_of_mem_forall₂ h hj
    have hsame := List.inj_on_of_nodup_map hnodup hmem hm hkey
    cases hsame
    exact hkeeps
  · obtain ⟨⟨key, m⟩, hmem, hkey, -⟩ := exists_of_mem_forall₂ h hj
    refine .inl ⟨m, ?_⟩
    rw [← show key = .str s from hkey]
    exact hmem

/-- A selector is a dict of strings that are labels. -/
theorem readSelector_eq_ok {selector : List (String × String)} :
    readSelector conv doc n = .ok selector ↔
      readTextDict doc n = .ok selector ∧ LabelSelector selector := by
  rw [readSelector, checked_eq_ok]
  have hcheck : ∀ s : List (String × String), (validLabelSelector s).mapError
      (·.text conv.reprStr) = .ok selector ↔ selector = s ∧ LabelSelector s := by
    intro s
    rw [← validLabelSelector_eq_ok]
    cases validLabelSelector s <;> simp [Except.mapError]
  simp only [hcheck]
  constructor
  · rintro ⟨s, hs, rfl, hlabels⟩
    exact ⟨hs, hlabels⟩
  · intro ⟨hs, hlabels⟩
    exact ⟨selector, hs, rfl, hlabels⟩

/-- What an object unfolds to is kept of it. -/
theorem Unfolds.keeps {v : MetaValue} (h : Unfolds doc n v) :
    Keeps conv isoformat doc n v.json := by
  induction h with
  | null h => exact .null h
  | bool h => exact .bool h
  | int h => exact .int h
  | float h => exact .float h
  | str h => exact .str h
  | date h => exact .date h
  | datetime h => exact .datetime h
  | @list n items vs h length_eq _ ih =>
    rw [MetaValue.json, MetaValue.jsonItems_eq]
    refine .list (.inl h) (by rw [length_eq, List.length_map]) fun m j hm => ?_
    rw [List.zip_map_right] at hm
    obtain ⟨⟨m', v⟩, hmem, heq⟩ := List.mem_map.mp hm
    cases heq
    exact ih m' v hmem
  | @dict n entries fields h keys _ ih =>
    rw [MetaValue.json, MetaValue.jsonFields_eq]
    refine keeps_dict h (List.forall₂_map_right_iff.mpr ?_)
    exact (forall₂_of_keys keys ih).imp fun e kv he => ⟨he.1, he.2⟩

variable {entries : List (DictKey × ι)}

/-- An entry of a dict is what a lookup of its key gives. -/
theorem lookup_of_mem (hv : doc.value n = .dict entries) {key : DictKey} {m : ι}
    (h : (key, m) ∈ entries) : entries.lookup key = some m := by
  have hnodup := doc.keys_nodup n entries hv
  clear hv
  induction entries with
  | nil => cases h
  | cons e entries ih =>
    rw [List.map_cons, List.nodup_cons] at hnodup
    rcases List.mem_cons.mp h with rfl | h
    · rw [List.lookup_cons, beq_self_eq_true]
    · have hne : key ≠ e.1 := fun heq => hnodup.1 (heq ▸ List.mem_map_of_mem (f := Prod.fst) h)
      rw [List.lookup_cons, beq_eq_false_iff_ne.mpr hne]
      exact ih h hnodup.2

theorem mem_of_lookup {key : DictKey} {m : ι} (h : entries.lookup key = some m) :
    (key, m) ∈ entries := by
  obtain ⟨before, after, heq, -⟩ := List.lookup_eq_some_iff.mp h
  rw [heq]
  simp

variable [DecidableEq ι]

def sampleConversions : Conversions where
  intOfText text := if text = " 50 " then some 50 else none
  intOfFloat _ := none
  floatOfText _ := none
  nearest _ := none
  datetimeOfText text := if text = "2026-03-01T12:00:00Z" then some (some noon) else none
  reprStr _ := ""

/-- Whether a dict has each of its keys once. -/
def keysOnce (v : Value Nat) : Bool :=
  match v with
  | .dict entries => decide (entries.map Prod.fst).Nodup
  | _ => true

/-- A document of the listed objects. -/
def documentOf (values : List (Value Nat)) (h : values.all keysOnce = true) : Document Nat where
  value n := values.getD n .null
  keys_nodup n entries hv := by
    have hmem : Value.dict entries ∈ values := by
      rw [List.getD_eq_getElem?_getD] at hv
      cases hget : values[n]? with
      | none => rw [hget] at hv; cases hv
      | some v =>
        rw [hget] at hv
        exact (show v = .dict entries from hv) ▸ List.mem_of_getElem? hget
    exact of_decide_eq_true (List.all_eq_true.mp h _ hmem)

def sampleValues : List (Value Nat) :=
  [.dict [(.str "mission_id", 1), (.str "events", 2)], .str "m1", .list [3],
    .dict [(.str "timestamp", 4), (.str "event_type", 5), (.str "instrument", 6),
      (.str "services", 7)],
    .datetime (some noon) "2026-03-01 12:00:00+00:00", .str "acquisition", .str "cam", .list [8, 8],
    .dict [(.str "service_id", 9), (.str "priority", 10), (.str "steps", 11)], .str "detect",
    .str " 50 ", .list [12],
    .dict [(.str "name", 13), (.str "image", 14), (.str "resource_class", 15),
      (.str "fallback_resource_class", 16), (.str "needs_acceleration", 17)],
    .str "infer", .str "registry/infer", .str "gpu", .str "cpu", .bool true]

theorem keysOnce_sampleValues : sampleValues.all keysOnce = true := by decide

def sampleDocument : Document Nat := documentOf sampleValues keysOnce_sampleValues

end MissionCompiler.Reading
