import MissionCompiler.Lib.Outcome
import MissionCompiler.Loading.Ambiguity

/-!
# What a scan finds

The scan of a mapping whose keys all have values: it marks every mapping it merges in, each of which
passes, or it raises because one of them is faulty. It changes nothing else. The mappings it is
inside of are the ones whose scan is not over.
-/

namespace MissionCompiler.Loading

open Lib

variable {ι κ ε : Type} (doc : Document ι κ ε)

/-- The loader, with other mappings marked as scanned. -/
def Loader.marked (scanned : Finset ι) (s : Loader ι κ) : Loader ι κ := { s with scanned }

/-- No key of a mapping, or of what it merges in, makes a set raise. -/
def Keyed (value : Values ι) (node : ι) : Prop :=
  ∀ source, Reaches doc value node source → ∀ pair ∈ value source,
    doc.isMerge pair.1 = false → ∃ key, doc.key pair.1 = some key

section

variable [BEq κ]

/-- A mapping that is faulty, or merges one in that is. -/
def Flawed (node : ι) : Prop := ∃ source, Reaches doc doc.pairs node source ∧ Faulty doc source

/-- Where a scan stands: a mapping it has not reached is as it was composed, and one it has reached
passes with all it merges in, unless the scan is inside of it. -/
structure Scanning (visiting : Finset ι) (s : Loader ι κ) : Prop where
  composed : ∀ node, node ∉ s.scanned → s.value node = doc.pairs node
  passed : ∀ node ∈ s.scanned, node ∉ visiting → Passed doc node
  closed : ∀ node ∈ s.scanned, node ∉ visiting → ∀ source, Pulls doc doc.pairs node source →
    source ∈ s.scanned

/-- What a scan has done by the time it stands at another loader. -/
structure Scanned (visiting : Finset ι) (s s' : Loader ι κ) : Prop
    extends Scanning doc visiting s' where
  marked : s' = s.marked s'.scanned
  grown : s.scanned ⊆ s'.scanned

/-- A function scans a mapping, wherever the scan stands that calls it. -/
def Scans (refuse : ι → Loader ι κ → Attempt ι κ ε (Loader ι κ)) (visiting : Finset ι)
    (value : Values ι) (node : ι) : Prop :=
  ∀ s : Loader ι κ, s.value = value → Scanning doc visiting s →
    Ends (fun s' => Scanned doc visiting s s' ∧ node ∈ s'.scanned ∧ node ∉ visiting)
      (fun e => e = .unfinished ∨ Flawed doc node) (refuse node s)

/-- The keys that are left are not among those seen, and no two of them are the same. -/
structure Unseen (seen : List κ) (pairs : List (ι × ι)) : Prop where
  distinct : (doc.keys pairs).Pairwise fun a b => (a == b) = false
  apart : ∀ a ∈ seen, ∀ b ∈ doc.keys pairs, (a == b) = false

end

variable {doc}

theorem Keyed.pulls {value : Values ι} {node source : ι} (h : Keyed doc value node)
    (hpulls : Pulls doc value node source) : Keyed doc value source :=
  fun other hreaches => h other (hreaches.head hpulls)

/-- A scalar is constructed without a trace. -/
theorem constructObject_eq_scalar [DecidableEq ι] {node : ι} {key : κ} {s t : Loader ι κ} :
    constructObject doc node s = .ok (.scalar key, t) ↔ doc.key node = some key ∧ t = s := by
  unfold constructObject Document.key
  cases doc.node node with
  | scalar =>
    cases doc.construct node with
    | ok value => simp [eq_comm]
    | error e => simp
  | merge => simp
  | sequence items => simp
  | mapping pairs => simp

theorem key_eq_none_of_isMerge {node : ι} (h : doc.isMerge node = true) : doc.key node = none := by
  unfold Document.isMerge at h
  unfold Document.key
  split at h
  · next hmerge => rw [hmerge]
  · cases h

theorem keys_cons_of_isMerge {pair : ι × ι} (h : doc.isMerge pair.1 = true)
    (pairs : List (ι × ι)) : doc.keys (pair :: pairs) = doc.keys pairs :=
  List.filterMap_cons_none (key_eq_none_of_isMerge h)

theorem keys_cons_of_key {pair : ι × ι} {key : κ} (h : doc.key pair.1 = some key)
    (pairs : List (ι × ι)) : doc.keys (pair :: pairs) = key :: doc.keys pairs :=
  List.filterMap_cons_some h

theorem merges_cons_of_isMerge {pair : ι × ι} (h : doc.isMerge pair.1 = true)
    (pairs : List (ι × ι)) : doc.merges (pair :: pairs) = doc.merges pairs + 1 :=
  List.countP_cons_of_pos h

theorem merges_cons_of_plain {pair : ι × ι} (h : doc.isMerge pair.1 = false)
    (pairs : List (ι × ι)) : doc.merges (pair :: pairs) = doc.merges pairs :=
  List.countP_cons_of_neg (Bool.eq_false_iff.mp h)

theorem names_cons {pair : ι × ι} {pairs : List (ι × ι)} {source : ι} :
    Names doc (pair :: pairs) source ↔
      doc.isMerge pair.1 = true ∧ source ∈ mergeSources doc pair.2 ∨ Names doc pairs source :=
  List.exists_mem_cons_iff ..

section

variable [BEq κ] {visiting : Finset ι} {s s' s'' : Loader ι κ}

theorem Scanned.refl (h : Scanning doc visiting s) : Scanned doc visiting s s :=
  ⟨h, rfl, Finset.Subset.refl _⟩

theorem Scanned.trans (h : Scanned doc visiting s s') (h' : Scanned doc visiting s' s'') :
    Scanned doc visiting s s'' where
  toScanning := h'.toScanning
  marked := by
    rw [h'.marked, h.marked]
    rfl
  grown := h.grown.trans h'.grown

theorem Scanned.value_eq (h : Scanned doc visiting s s') : s'.value = s.value := by
  rw [h.marked]
  rfl

variable {refuse : ι → Loader ι κ → Attempt ι κ ε (Loader ι κ)}

/-- The scan of one source after another. -/
theorem scanSources_ends {sources : List ι} (hscanning : Scanning doc visiting s)
    (hrefuse : ∀ source ∈ sources, Scans doc refuse visiting s.value source) :
    Ends (fun s' => Scanned doc visiting s s' ∧
        ∀ source ∈ sources, source ∈ s'.scanned ∧ source ∉ visiting)
      (fun e => e = .unfinished ∨ ∃ source ∈ sources, Flawed doc source)
      (scanSources refuse sources s) := by
  induction sources generalizing s with
  | nil => exact ⟨.refl hscanning, fun _ hsource => absurd hsource List.not_mem_nil⟩
  | cons source sources ih =>
    rw [List.forall_mem_cons] at hrefuse
    refine Ends.bind ((hrefuse.1 s rfl hscanning).mono (fun _ h => h) fun e he =>
      he.imp_right fun hflawed => ⟨source, List.mem_cons_self, hflawed⟩) ?_
    rintro t ⟨hfirst, hmem, hnot⟩
    refine (ih hfirst.toScanning (hfirst.value_eq ▸ hrefuse.2)).mono ?_ ?_
    · rintro u ⟨hrest, hsources⟩
      exact ⟨hfirst.trans hrest, List.forall_mem_cons.mpr ⟨⟨hrest.grown hmem, hnot⟩, hsources⟩⟩
    · rintro e (he | ⟨next, hnext, hflawed⟩)
      · exact .inl he
      · exact .inr ⟨next, List.mem_cons_of_mem _ hnext, hflawed⟩

theorem unseen_cons_of_isMerge {seen : List κ} {pair : ι × ι} {pairs : List (ι × ι)}
    (h : doc.isMerge pair.1 = true) :
    Unseen doc seen (pair :: pairs) ↔ Unseen doc seen pairs := by
  have hkeys := keys_cons_of_isMerge h pairs
  exact ⟨fun ⟨hdistinct, hapart⟩ => ⟨hkeys ▸ hdistinct, hkeys ▸ hapart⟩,
    fun ⟨hdistinct, hapart⟩ => ⟨hkeys ▸ hdistinct, hkeys ▸ hapart⟩⟩

theorem unseen_cons_of_key {seen : List κ} {pair : ι × ι} {pairs : List (ι × ι)} {key : κ}
    (h : doc.key pair.1 = some key) (hnew : ∀ a ∈ seen, (a == key) = false) :
    Unseen doc seen (pair :: pairs) ↔ Unseen doc (key :: seen) pairs := by
  have hkeys := keys_cons_of_key h pairs
  constructor
  · rintro ⟨hdistinct, hapart⟩
    rw [hkeys, List.pairwise_cons] at hdistinct
    rw [hkeys] at hapart
    exact ⟨hdistinct.2, List.forall_mem_cons.mpr ⟨hdistinct.1, fun a ha b hb =>
      hapart a ha b (List.mem_cons_of_mem _ hb)⟩⟩
  · rintro ⟨hdistinct, hapart⟩
    rw [List.forall_mem_cons] at hapart
    refine ⟨?_, fun a ha => ?_⟩
    · rw [hkeys, List.pairwise_cons]
      exact ⟨hapart.1, hdistinct⟩
    · rw [hkeys, List.forall_mem_cons]
      exact ⟨hnew a ha, hapart.2 a ha⟩

/-- The scan of the pairs of a mapping that are left, after keys that were seen. -/
theorem scanPairs_ends [DecidableEq ι] {node : ι} {pairs : List (ι × ι)} {seen : List κ}
    {merged : Bool} (hscanning : Scanning doc visiting s)
    (hkeyed : ∀ pair ∈ pairs, doc.isMerge pair.1 = false → ∃ key, doc.key pair.1 = some key)
    (hrefuse : ∀ source, Names doc pairs source → Scans doc refuse visiting s.value source) :
    Ends (fun s' => Scanned doc visiting s s' ∧ Unseen doc seen pairs ∧
        doc.merges pairs + merged.toNat ≤ 1 ∧
        ∀ source, Names doc pairs source → source ∈ s'.scanned ∧ source ∉ visiting)
      (fun e => e = .unfinished ∨ ¬ Unseen doc seen pairs ∨ 1 < doc.merges pairs + merged.toNat ∨
        ∃ source, Names doc pairs source ∧ Flawed doc source)
      (scanPairs doc refuse node pairs seen merged s) := by
  induction pairs generalizing seen merged s with
  | nil =>
    refine ⟨.refl hscanning, ⟨.nil, fun _ _ _ h => absurd h List.not_mem_nil⟩, ?_, ?_⟩
    · show 0 + merged.toNat ≤ 1
      rw [Nat.zero_add]
      exact Bool.toNat_le merged
    · rintro source ⟨pair, hpair, _⟩
      exact absurd hpair List.not_mem_nil
  | cons pair pairs ih =>
    rw [List.forall_mem_cons] at hkeyed
    simp only [names_cons, or_imp, forall_and] at hrefuse
    simp only [names_cons]
    unfold scanPairs
    cases hmerge : doc.isMerge pair.1 with
    | true =>
      rw [merges_cons_of_isMerge hmerge, unseen_cons_of_isMerge hmerge]
      cases merged with
      | true =>
        refine .inr (.inr (.inl ?_))
        rw [Bool.toNat_true]
        omega
      | false =>
        refine Ends.bind ((scanSources_ends hscanning fun source hsource =>
          hrefuse.1 source ⟨hmerge, hsource⟩).mono (fun _ h => h) ?_) ?_
        · rintro e (he | ⟨source, hsource, hflawed⟩)
          · exact .inl he
          · exact .inr (.inr (.inr ⟨source, .inl ⟨rfl, hsource⟩, hflawed⟩))
        · rintro t ⟨hfirst, hsources⟩
          refine (ih hfirst.toScanning hkeyed.2 (hfirst.value_eq ▸ hrefuse.2)).mono ?_ ?_
          · rintro u ⟨hrest, hunseen, hmerges, hnames⟩
            refine ⟨hfirst.trans hrest, hunseen, hmerges, ?_⟩
            rintro source (⟨_, hsource⟩ | hsource)
            · exact ⟨hrest.grown (hsources source hsource).1, (hsources source hsource).2⟩
            · exact hnames source hsource
          · rintro e (he | hunseen | hmerges | ⟨source, hsource, hflawed⟩)
            · exact .inl he
            · exact .inr (.inl hunseen)
            · exact .inr (.inr (.inl hmerges))
            · exact .inr (.inr (.inr ⟨source, .inr hsource, hflawed⟩))
    | false =>
      obtain ⟨key, hkey⟩ := hkeyed.1 hmerge
      rw [merges_cons_of_plain hmerge, constructObject_eq_scalar.mpr ⟨hkey, rfl⟩]
      show Ends _ _ (if seen.any (· == key) then _ else _)
      split
      · next hseen =>
        obtain ⟨a, ha, heq⟩ := List.any_eq_true.mp hseen
        refine .inr (.inl fun hunseen => ?_)
        have hmem : key ∈ doc.keys (pair :: pairs) := by
          rw [keys_cons_of_key hkey]
          exact List.mem_cons_self
        exact Bool.false_ne_true ((hunseen.apart a ha key hmem).symm.trans heq)
      · next hseen =>
        have hnew : ∀ a ∈ seen, (a == key) = false := by simpa using hseen
        rw [unseen_cons_of_key hkey hnew]
        simp only [Bool.false_eq_true, false_and, false_or]
        exact ih hscanning hkeyed.2 hrefuse.2

/-- Inside of a mapping that is not yet scanned, its own mark is the one that is new. -/
theorem Scanning.enter [DecidableEq ι] {node : ι} (h : Scanning doc visiting s) :
    Scanning doc (insert node visiting) (s.marked (insert node s.scanned)) where
  composed other hother := h.composed other fun hmem => hother (Finset.mem_insert_of_mem hmem)
  passed other hother hnot := by
    rw [Finset.mem_insert, not_or] at hnot
    exact h.passed other ((Finset.mem_insert.mp hother).resolve_left hnot.1) hnot.2
  closed other hother hnot source hpulls := by
    rw [Finset.mem_insert, not_or] at hnot
    have hmem := (Finset.mem_insert.mp hother).resolve_left hnot.1
    exact Finset.mem_insert_of_mem (h.closed other hmem hnot.2 source hpulls)

/-- Out of a mapping that passed, with all that it names marked. -/
theorem Scanned.leave [DecidableEq ι] {node : ι}
    (h : Scanned doc (insert node visiting) (s.marked (insert node s.scanned)) s')
    (hpassed : Passed doc node)
    (hsources : ∀ source, Pulls doc doc.pairs node source → source ∈ s'.scanned) :
    Scanned doc visiting s s' ∧ node ∈ s'.scanned := by
  have hmem : node ∈ s'.scanned := h.grown (Finset.mem_insert_self _ _)
  refine ⟨⟨⟨h.composed, fun other hother hnot => ?_, fun other hother hnot source hpulls => ?_⟩,
    h.marked, (Finset.subset_insert _ _).trans h.grown⟩, hmem⟩
  · by_cases heq : other = node
    · exact heq ▸ hpassed
    · exact h.passed other hother fun hvisiting =>
        (Finset.mem_insert.mp hvisiting).elim heq hnot
  · by_cases heq : other = node
    · exact hsources source (heq ▸ hpulls)
    · exact h.closed other hother (fun hvisiting =>
        (Finset.mem_insert.mp hvisiting).elim heq hnot) source hpulls

/-- A scan of a mapping whose keys all have values marks it and what it merges in, and they pass, or
it finds one that is faulty. -/
theorem refuseRepeatedKeys_ends [DecidableEq ι] {fuel : Nat} {node : ι}
    (hpath : ∀ outer ∈ visiting, Relation.TransGen (Pulls doc doc.pairs) outer node)
    {value : Values ι} (hkeyed : Keyed doc value node) :
    Scans doc (refuseRepeatedKeys doc fuel visiting) visiting value node := by
  induction fuel generalizing visiting node value with
  | zero => exact fun _ _ _ => .inl rfl
  | succ fuel ih =>
    rintro s rfl hscanning
    unfold refuseRepeatedKeys
    split
    · next hinside =>
      exact .inr ⟨node, .refl, .mergesItself (hpath node hinside)⟩
    · next houtside =>
      split
      · next hmem => exact ⟨.refl hscanning, hmem, houtside⟩
      · next hnew =>
        have hcomposed := hscanning.composed node hnew
        have hpulls : ∀ source, Names doc (doc.pairs node) source → Pulls doc s.value node source :=
          fun source hnames => by rwa [Pulls, hcomposed]
        rw [hcomposed]
        refine (scanPairs_ends hscanning.enter (hcomposed ▸ hkeyed node .refl)
          fun source hnames => ?_).mono ?_ ?_
        · refine ih (fun outer houter => ?_) (hkeyed.pulls (hpulls source hnames))
          rcases Finset.mem_insert.mp houter with rfl | houter
          · exact .single hnames
          · exact (hpath outer houter).tail hnames
        · rintro s' ⟨hscanned, hunseen, hmerges, hnames⟩
          have hpassed : Passed doc node := by
            refine .intro hunseen.distinct (by simpa using hmerges) fun source hsource => ?_
            exact hscanned.passed source (hnames source hsource).1 (hnames source hsource).2
          obtain ⟨hout, hmem⟩ :=
            hscanned.leave hpassed fun source hsource => (hnames source hsource).1
          exact ⟨hout, hmem, houtside⟩
        · rintro e (he | hunseen | hmerges | ⟨source, hsource, other, hreaches, hfaulty⟩)
          · exact .inl he
          · refine .inr ⟨node, .refl, .repeatedKey fun hdistinct => hunseen ⟨hdistinct, ?_⟩⟩
            exact fun _ h => absurd h List.not_mem_nil
          · exact .inr ⟨node, .refl, .repeatedMerge (by simpa using hmerges)⟩
          · exact .inr ⟨other, .head hsource hreaches, hfaulty⟩

/-- The scan of a mapping that is constructed, which is inside of none. -/
theorem refuseRepeatedKeys_outermost [DecidableEq ι] {node : ι} (fuel : Nat)
    (hkeyed : Keyed doc s.value node) (hscanning : Scanning doc ∅ s) :
    Ends (fun t => Scanned doc ∅ s t ∧ node ∈ t.scanned ∧ node ∉ (∅ : Finset ι))
      (fun e => e = .unfinished ∨ Flawed doc node) (refuseRepeatedKeys doc fuel ∅ node s) :=
  refuseRepeatedKeys_ends (fun _ h => absurd h (Finset.notMem_empty _)) hkeyed s rfl hscanning

end

end MissionCompiler.Loading
