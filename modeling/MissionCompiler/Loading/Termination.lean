import MissionCompiler.Loading.Flatten
import MissionCompiler.Loading.Scan
import Mathlib.Algebra.BigOperators.Group.Finset.Piecewise
import Mathlib.Data.Fintype.Card

/-!
# Loads end

Whatever a finite document is, cycles included, both loaders get to a value or to an exception. A
scan goes no deeper than there are mappings, flattening deletes a merge key before it does anything
about it, and every list and dict is begun once.
-/

namespace MissionCompiler.Loading

open Lib

variable {ι κ ε : Type} {doc : Document ι κ ε}

/-! ## Constructing -/

section

variable [DecidableEq ι] {K : Loader ι κ → Prop}
  (hstart : ∀ node (s : Loader ι κ), K s → K (s.start node)) {s : Loader ι κ}

include hstart

/-- What beginning lists and dicts leaves true, constructing an object does. -/
theorem constructObject_keeps (node : ι) (hs : K s) :
    Ends (fun result => K result.2) (· ≠ .unfinished) (constructObject doc node s) := by
  unfold constructObject
  split
  · cases doc.construct node with
    | ok value => exact hs
    | error e => simp
  · simp
  · exact hstart node s hs

theorem constructSequence_keeps {items : List ι} (hs : K s) :
    Ends (fun result => K result.2) (· ≠ .unfinished) (constructSequence doc items s) := by
  induction items generalizing s with
  | nil => exact hs
  | cons item items ih =>
    refine Ends.bind (constructObject_keeps hstart item hs) fun first hfirst => ?_
    exact Ends.bind (ih hfirst) fun rest hrest => hrest

theorem constructPairs_keeps [BEq κ] {node : ι} {pairs : List (ι × ι)} {entries : Dict ι κ}
    (hs : K s) :
    Ends (fun result => K result.2) (· ≠ .unfinished)
      (constructPairs doc node pairs entries s) := by
  induction pairs generalizing entries s with
  | nil => exact hs
  | cons pair pairs ih =>
    refine Ends.bind (constructObject_keeps hstart pair.1 hs) ?_
    rintro ⟨key, t⟩ ht
    cases key with
    | object => simp
    | scalar key =>
      refine Ends.bind (constructObject_keeps hstart pair.2 ht) ?_
      exact fun value hvalue => ih hvalue

/-! ## Scanning -/

variable [BEq κ] {refuse : ι → Loader ι κ → Attempt ι κ ε (Loader ι κ)}

omit hstart [DecidableEq ι] [BEq κ] in
theorem scanSources_keeps
    (hrefuse : ∀ node (s : Loader ι κ), K s → Ends K (· ≠ .unfinished) (refuse node s))
    {sources : List ι} (hs : K s) : Ends K (· ≠ .unfinished) (scanSources refuse sources s) := by
  induction sources generalizing s with
  | nil => exact hs
  | cons source sources ih => exact Ends.bind (hrefuse source s hs) fun t ht => ih ht

theorem scanPairs_keeps
    (hrefuse : ∀ node (s : Loader ι κ), K s → Ends K (· ≠ .unfinished) (refuse node s))
    {node : ι} {pairs : List (ι × ι)} {seen : List κ} {merged : Bool} (hs : K s) :
    Ends K (· ≠ .unfinished) (scanPairs doc refuse node pairs seen merged s) := by
  induction pairs generalizing seen merged s with
  | nil => exact hs
  | cons pair pairs ih =>
    unfold scanPairs
    split
    · split
      · simp
      · exact Ends.bind (scanSources_keeps hrefuse hs) fun t ht => ih ht
    · refine Ends.bind (constructObject_keeps hstart pair.1 hs) ?_
      rintro ⟨key, t⟩ ht
      cases key with
      | object => exact ht
      | scalar key =>
        show Ends _ _ (if _ then _ else _)
        split
        · simp
        · exact ih ht

/-- A scan is inside of no mapping twice, so it goes no deeper than there are mappings. -/
theorem refuseRepeatedKeys_keeps [Fintype ι]
    (hmark : ∀ scanned (s : Loader ι κ), K s → K (s.marked scanned)) {fuel : Nat}
    {visiting : Finset ι} (hfuel : Fintype.card ι < fuel + visiting.card) {node : ι} (hs : K s) :
    Ends K (· ≠ .unfinished) (refuseRepeatedKeys doc fuel visiting node s) := by
  induction fuel generalizing visiting node s with
  | zero =>
    have hcard := visiting.card_le_univ
    omega
  | succ fuel ih =>
    unfold refuseRepeatedKeys
    split
    · simp
    · next houtside =>
      split
      · exact hs
      · refine scanPairs_keeps hstart (fun source t ht => ih ?_ ht) (hmark _ s hs)
        rw [Finset.card_insert_of_notMem houtside]
        omega

end

/-! ## Flattening -/

section

variable [Fintype ι]

/-- The merge keys that there are. -/
def mergeCount (doc : Document ι κ ε) (value : Values ι) : Nat := ∑ node, doc.merges (value node)

variable {value : Values ι}

theorem spliceSources_finishes {flatten : ι → Values ι → Attempt ι κ ε (Values ι)} {bound : Nat}
    (hflatten : ∀ source (value : Values ι), mergeCount doc value ≤ bound →
      Ends (mergeCount doc · ≤ bound) (· ≠ .unfinished) (flatten source value))
    {sources : List ι} (hvalue : mergeCount doc value ≤ bound) :
    Ends (fun result => mergeCount doc result.2 ≤ bound) (· ≠ .unfinished)
      (spliceSources doc flatten sources value) := by
  induction sources generalizing value with
  | nil => exact hvalue
  | cons source sources ih =>
    unfold spliceSources
    split
    · refine Ends.bind (hflatten source value hvalue) fun flat hflat => ?_
      exact Ends.bind (ih hflat) fun later hlater => hlater
    · simp

variable [DecidableEq ι] {node : ι}

theorem mergeCount_update (doc : Document ι κ ε) (value : Values ι) (node : ι)
    (pairs : List (ι × ι)) :
    mergeCount doc (Function.update value node pairs) + doc.merges (value node) =
      mergeCount doc value + doc.merges pairs := by
  have hupdate : ∀ pairs, mergeCount doc (Function.update value node pairs) =
      doc.merges pairs + ∑ other ∈ Finset.univ \ {node}, doc.merges (value other) := by
    intro pairs
    rw [← Finset.sum_update_of_mem (Finset.mem_univ node)]
    exact Finset.sum_congr rfl fun other _ =>
      (Function.apply_update (fun _ => doc.merges) value node pairs other)
  have hsame := hupdate (value node)
  rw [Function.update_eq_self] at hsame
  rw [hupdate, hsame]
  omega

/-- Each merge key is deleted before anything is done about it, and no new one is spliced in. -/
theorem flattenMapping_finishes {fuel bound : Nat} (hfuel : bound < fuel)
    (hvalue : mergeCount doc value ≤ bound) :
    Ends (mergeCount doc · ≤ bound) (· ≠ .unfinished) (flattenMapping doc fuel node [] value) := by
  induction fuel generalizing node value bound with
  | zero => exact absurd hfuel (Nat.not_lt_zero _)
  | succ fuel ih =>
    unfold flattenMapping
    split
    · rw [List.nil_append, Function.update_eq_self]
      exact hvalue
    · next source rest htake =>
      have hcount := mergeCount_update doc value node rest
      rw [merges_of_takeMerge htake] at hcount
      obtain ⟨left, rfl⟩ : ∃ left, bound = left + 1 := ⟨bound - 1, by omega⟩
      have hdeleted : mergeCount doc (Function.update value node rest) ≤ left := by omega
      have hsplice : Ends (fun result => mergeCount doc result.2 ≤ left) (· ≠ .unfinished)
          (spliceSources doc (fun source => flattenMapping doc fuel source [])
            (doc.candidates source) (Function.update value node rest)) :=
        spliceSources_finishes (fun _ _ hvalue => ih (by omega) hvalue) hdeleted
      cases hresult : spliceSources doc (fun source => flattenMapping doc fuel source [])
          (doc.candidates source) (Function.update value node rest) with
      | error e => exact hsplice.of_eq_error hresult
      | ok result =>
        show Ends _ _ (flattenMapping doc fuel node ([] ++ result.1) result.2)
        rw [flattenMapping_onto]
        have hrest : Ends (mergeCount doc · ≤ left) (· ≠ .unfinished)
            (flattenMapping doc fuel node [] result.2) :=
          ih (by omega) (hsplice.of_eq_ok hresult)
        cases hflat : flattenMapping doc fuel node [] result.2 with
        | error e => exact hrest.of_eq_error hflat
        | ok flat =>
          have hclean := (spliced_of_flattened flattenMapping_spec hresult).clean
          have hspliced := mergeCount_update doc flat node (result.1 ++ flat node)
          rw [merges_append, merges_eq_zero.mpr hclean, Nat.zero_add] at hspliced
          have hbound := hrest.of_eq_ok hflat
          show mergeCount doc (Function.update flat node (result.1 ++ flat node)) ≤ left + 1
          omega

/-! ## Loading -/

/-- The lists and dicts that are yet to be filled, begun or not. -/
def Loader.pending (s : Loader ι κ) : Nat := s.generators.length + s.constructedᶜ.card

theorem Loader.pending_start (s : Loader ι κ) (node : ι) : (s.start node).pending = s.pending := by
  unfold start
  split
  · rfl
  · next hnew =>
    have hcard := Finset.card_insert_of_notMem hnew
    have hle := (insert node s.constructed).card_le_univ
    simp only [pending, List.length_append, List.length_singleton, Finset.card_compl]
    omega

/-- Of a loader, no more is to be filled than so much, and no merge key is new. -/
structure Bounded (doc : Document ι κ ε) (bound : Nat) (s : Loader ι κ) : Prop where
  merges : mergeCount doc s.value ≤ mergeCount doc doc.pairs
  pending : s.pending ≤ bound

theorem Bounded.start {bound : Nat} (node : ι) (s : Loader ι κ) (h : Bounded doc bound s) :
    Bounded doc bound (s.start node) where
  merges := by
    unfold Loader.start
    split
    · exact h.merges
    · exact h.merges
  pending := s.pending_start node ▸ h.pending

/-- Fuel for every load of a document. -/
def Document.enough (doc : Document ι κ ε) : Nat :=
  Fintype.card ι + mergeCount doc doc.pairs + 1

variable {fuel bound : Nat} {s : Loader ι κ}

section

variable [BEq κ]

theorem safeConstructMapping_finishes (hfuel : doc.enough ≤ fuel) (hs : Bounded doc bound s) :
    Ends (fun result => Bounded doc bound result.2) (· ≠ .unfinished)
      (safeConstructMapping doc fuel node s) := by
  have hmerges : mergeCount doc doc.pairs < fuel := by
    unfold Document.enough at hfuel
    omega
  refine Ends.bind (flattenMapping_finishes hmerges hs.merges) fun value hvalue => ?_
  exact constructPairs_keeps Bounded.start ⟨hvalue, hs.pending⟩

theorem strictConstructMapping_finishes (hfuel : doc.enough ≤ fuel) (hs : Bounded doc bound s) :
    Ends (fun result => Bounded doc bound result.2) (· ≠ .unfinished)
      (strictConstructMapping doc fuel node s) := by
  have hcard : Fintype.card ι < fuel + (∅ : Finset ι).card := by
    unfold Document.enough at hfuel
    omega
  refine Ends.bind (refuseRepeatedKeys_keeps Bounded.start
    (fun _ t ht => ⟨ht.merges, ht.pending⟩) hcard hs) fun t ht => ?_
  exact safeConstructMapping_finishes hfuel ht

end

variable {constructMapping : ι → Loader ι κ → Attempt ι κ ε (Dict ι κ × Loader ι κ)}
  (hconstruct : ∀ bound node (s : Loader ι κ), Bounded doc bound s →
    Ends (fun result => Bounded doc bound result.2) (· ≠ .unfinished) (constructMapping node s))

include hconstruct

theorem resume_finishes (hs : Bounded doc bound s) :
    Ends (Bounded doc bound) (· ≠ .unfinished) (resume doc constructMapping node s) := by
  unfold resume
  split
  · exact Ends.bind (constructSequence_keeps Bounded.start hs) fun result hresult =>
      ⟨hresult.merges, hresult.pending⟩
  · exact Ends.bind (hconstruct bound node s hs) fun result hresult =>
      ⟨hresult.merges, hresult.pending⟩
  · exact hs

/-- Each list and dict is begun once, and resumed once. -/
theorem resumeAll_finishes (hfuel : bound < fuel) (hs : Bounded doc bound s) :
    Ends (fun _ => True) (· ≠ .unfinished) (resumeAll doc constructMapping fuel s) := by
  induction fuel generalizing s bound with
  | zero => exact absurd hfuel (Nat.not_lt_zero _)
  | succ fuel ih =>
    unfold resumeAll
    split
    · exact trivial
    · next node rest hgenerators =>
      have hpending := hs.pending
      rw [Loader.pending, hgenerators, List.length_cons] at hpending
      obtain ⟨left, rfl⟩ : ∃ left, bound = left + 1 := ⟨bound - 1, by omega⟩
      have hrest : Bounded doc left { s with generators := rest } := by
        refine ⟨hs.merges, ?_⟩
        show rest.length + s.constructedᶜ.card ≤ left
        omega
      exact Ends.bind (resume_finishes hconstruct hrest) fun t ht => ih (by omega) ht

theorem constructDocument_finishes (hfuel : doc.enough ≤ fuel) :
    Ends (fun _ => True) (· ≠ .unfinished) (constructDocument doc constructMapping fuel) := by
  have hinitial : Bounded doc (Fintype.card ι)
      (⟨doc.pairs, ∅, [], fun _ => none, ∅⟩ : Loader ι κ) := by
    refine ⟨Nat.le_refl _, ?_⟩
    simp [Loader.pending]
  have hcard : Fintype.card ι < fuel := by
    unfold Document.enough at hfuel
    omega
  refine Ends.bind (constructObject_keeps Bounded.start doc.root hinitial) fun result hresult => ?_
  exact Ends.bind (resumeAll_finishes hconstruct hcard hresult) fun _ _ => trivial

omit hconstruct

variable [BEq κ]

theorem safeLoad_finishes (hfuel : doc.enough ≤ fuel) : safeLoad doc fuel ≠ .error .unfinished :=
  fun h => (constructDocument_finishes (fun _ _ _ => safeConstructMapping_finishes hfuel)
    hfuel).of_eq_error h rfl

theorem strictLoad_finishes (hfuel : doc.enough ≤ fuel) :
    strictLoad doc fuel ≠ .error .unfinished :=
  fun h => (constructDocument_finishes (fun _ _ _ => strictConstructMapping_finishes hfuel)
    hfuel).of_eq_error h rfl

end

end MissionCompiler.Loading
