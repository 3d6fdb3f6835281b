import MissionCompiler.Lib.Reachable
import MissionCompiler.Loading.Flatten
import MissionCompiler.Loading.Scan

/-!
# A load that is under way

What holds of a strict load that has not raised so far (`Underway`). Every mapping that was scanned
passed, and is as it was composed or whole; every list and dict that was begun is filled with
objects that have been begun, or still waits. Once nothing waits, that is so of every value of the
document.
-/

namespace MissionCompiler.Loading

open Lib

variable {ι κ ε : Type} (doc : Document ι κ ε)

/-! ## What is constructed -/

/-- A node that is constructed as a list or a dict. -/
def Document.isObject (node : ι) : Bool :=
  match doc.node node with
  | .sequence _ => true
  | .mapping _ => true
  | _ => false

/-- What an object holds: the items of a list, and the values of a dict and of what it merges in. -/
inductive Holds (node part : ι) : Prop
  | item (h : part ∈ doc.items node)
  | value {source key : ι} (reached : Reaches doc doc.pairs node source)
      (written : (key, part) ∈ doc.pairs source) (plain : doc.isMerge key = false)

/-- What is constructed in a load that does not raise: the root, and what is held at any depth. -/
abbrev Held : ι → Prop := Relation.ReflTransGen (Holds doc) doc.root

variable {doc} {node : ι}

theorem passed_of_pairs_eq_nil [BEq κ] (h : doc.pairs node = []) : Passed doc node := by
  refine .intro ?_ ?_ fun source hpulls => ?_
  · unfold DistinctKeys
    rw [h]
    exact .nil
  · rw [h]
    exact Nat.zero_le 1
  · obtain ⟨pair, hpair, _⟩ := hpulls
    rw [h] at hpair
    exact absurd hpair List.not_mem_nil

/-- What has no pairs merges nothing in. -/
theorem eq_of_reaches_of_pairs_eq_nil {source : ι} (hpairs : doc.pairs node = [])
    (h : Reaches doc doc.pairs node source) : source = node := by
  rcases h.cases_head with heq | ⟨next, ⟨pair, hpair, _⟩, _⟩
  · exact heq.symm
  · rw [hpairs] at hpair
    exact absurd hpair List.not_mem_nil

theorem keyed_of_pairs_eq_nil (hpairs : doc.pairs node = []) : Keyed doc doc.pairs node := by
  intro source hreaches pair hpair
  rw [eq_of_reaches_of_pairs_eq_nil hpairs hreaches, hpairs] at hpair
  exact absurd hpair List.not_mem_nil

/-- What has no pairs holds its items. -/
theorem Holds.mem_items {part : ι} (h : Holds doc node part) (hpairs : doc.pairs node = []) :
    part ∈ doc.items node := by
  cases h with
  | item hitem => exact hitem
  | value reached written plain =>
    rw [eq_of_reaches_of_pairs_eq_nil hpairs reached, hpairs] at written
    exact absurd written List.not_mem_nil

theorem pairs_of_not_isObject (h : doc.isObject node = false) : doc.pairs node = [] := by
  unfold Document.isObject at h
  unfold Document.pairs
  split at h
  · cases h
  · cases h
  · next hmapping =>
    split
    · next hnode => exact (hmapping _ hnode).elim
    · rfl

/-- Only lists and dicts hold anything. -/
theorem Holds.isObject {part : ι} (h : Holds doc node part) : doc.isObject node = true := by
  by_contra hobject
  rw [Bool.not_eq_true] at hobject
  have hitem := h.mem_items (pairs_of_not_isObject hobject)
  unfold Document.items at hitem
  split at hitem
  · next hnode =>
    rw [Document.isObject, hnode] at hobject
    cases hobject
  · exact absurd hitem List.not_mem_nil

/-! ## What is held, and what is in the document -/

theorem ValueOrSource.occurs (h : ValueOrSource doc node) : Occurs doc node := by
  cases h with
  | root => exact .root
  | part above hgives => exact .part above hgives

theorem ValueOrSource.reaches {source : ι} (h : ValueOrSource doc node)
    (hreaches : Reaches doc doc.pairs node source) : ValueOrSource doc source := by
  induction hreaches with
  | refl => exact h
  | tail _ hpulls ih => exact .part ih.occurs (.source hpulls)

/-- All that is held is a value of the document. -/
theorem valueOrSource_of_held (h : Held doc node) : ValueOrSource doc node := by
  induction h with
  | refl => exact .root
  | tail _ hholds ih =>
    cases hholds with
    | item hitem => exact .part ih.occurs (.item hitem)
    | value reached written plain => exact .part (ih.reaches reached).occurs (.value written plain)

/-- What has items merges nothing in, and is merged into nothing. -/
theorem eq_of_reaches_of_item {source part : ι} (h : Reaches doc doc.pairs node source)
    (hitem : part ∈ doc.items source) : source = node := by
  rcases h.cases_tail with heq | ⟨above, _, ⟨pair, _, _, hsource⟩⟩
  · exact heq
  · have hmapping : doc.isMapping source = true := (List.mem_filter.mp hsource).2
    unfold Document.isMapping at hmapping
    unfold Document.items at hitem
    split at hitem
    · next hnode =>
      rw [hnode] at hmapping
      cases hmapping
    · exact absurd hitem List.not_mem_nil

/-- A key that has a value has nothing in it, and neither has a merge key. -/
theorem leaf_of_key {key : ι} (h : doc.isMerge key = true ∨ ∃ value, doc.key key = some value) :
    doc.pairs key = [] ∧ doc.items key = [] := by
  unfold Document.isMerge Document.key at h
  unfold Document.pairs Document.items
  cases hnode : doc.node key with
  | scalar => exact ⟨rfl, rfl⟩
  | merge => exact ⟨rfl, rfl⟩
  | sequence items => simp [hnode] at h
  | mapping pairs => simp [hnode] at h

/-- Where all keys have a value, the nodes of a document are what is held, the mappings merged into
it, and its keys. -/
theorem Occurs.reached (h : Occurs doc node)
    (hkeyed : ∀ part, Held doc part → Keyed doc doc.pairs part) :
    (∃ part, Held doc part ∧ Reaches doc doc.pairs part node) ∨
      doc.pairs node = [] ∧ doc.items node = [] := by
  induction h with
  | root => exact .inl ⟨doc.root, .refl, .refl⟩
  | part _ hgives ih =>
    rcases ih with ⟨above, hheld, hreaches⟩ | ⟨hpairs, hitems⟩
    · cases hgives with
      | item hitem =>
        rw [eq_of_reaches_of_item hreaches hitem] at hitem
        exact .inl ⟨_, hheld.tail (.item hitem), .refl⟩
      | value hpair plain => exact .inl ⟨_, hheld.tail (.value hreaches hpair plain), .refl⟩
      | source hpulls => exact .inl ⟨above, hheld, hreaches.tail hpulls⟩
    · cases hgives with
      | item hitem =>
        rw [hitems] at hitem
        exact absurd hitem List.not_mem_nil
      | value hpair plain =>
        rw [hpairs] at hpair
        exact absurd hpair List.not_mem_nil
      | source hpulls =>
        obtain ⟨pair, hpair, _⟩ := hpulls
        rw [hpairs] at hpair
        exact absurd hpair List.not_mem_nil
  | @key node key value _ hpair ih =>
    rcases ih with ⟨above, hheld, hreaches⟩ | ⟨hpairs, _⟩
    · cases hmerge : doc.isMerge key with
      | true => exact .inr (leaf_of_key (.inl hmerge))
      | false => exact .inr (leaf_of_key (.inr (hkeyed above hheld node hreaches _ hpair hmerge)))
    · rw [hpairs] at hpair
      exact absurd hpair List.not_mem_nil

/-- A document is not ambiguous if what is held passed and its keys have values. -/
theorem not_ambiguous_of_passed [BEq κ]
    (h : ∀ part, Held doc part → Passed doc part ∧ Keyed doc doc.pairs part) :
    ¬ Ambiguous doc := by
  rintro ⟨node, hnode, hfaulty⟩
  rcases hnode.occurs.reached fun part hheld => (h part hheld).2 with
    ⟨part, hheld, hreaches⟩ | ⟨hpairs, _⟩
  · exact ((h part hheld).1.reaches hreaches).not_faulty hfaulty
  · exact (passed_of_pairs_eq_nil hpairs).not_faulty hfaulty

/-- Nothing that is held in a document that is not ambiguous is flawed. -/
theorem not_flawed_of_held [BEq κ] (hclear : ¬ Ambiguous doc) (hheld : Held doc node) :
    ¬ Flawed doc node := by
  rintro ⟨source, hreaches, hfaulty⟩
  exact hclear ⟨source, (valueOrSource_of_held hheld).reaches hreaches, hfaulty⟩

/-! ## Loads -/

section

variable [BEq κ]

variable (doc)

/-- A list or dict that is filled: its node passed, and the objects it holds have been begun. -/
structure Filled (constructed : Finset ι) (node : ι) : Prop where
  passed : Passed doc node
  keyed : Keyed doc doc.pairs node
  held : ∀ part, Holds doc node part → doc.isObject part = true → part ∈ constructed

/-- A strict load that has not raised so far. What has been begun is filled, unless it still waits,
or is being filled now. -/
structure Underway (now : List ι) (s : Loader ι κ) : Prop where
  scanning : Scanning doc ∅ s
  proper : ∀ node, Proper doc s.value node
  values : ∀ node ∈ s.constructed, Held doc node
  waiting : ∀ node ∈ s.generators, Held doc node
  filled : ∀ node ∈ s.constructed, node ∈ s.generators ∨ node ∈ now ∨ Filled doc s.constructed node

/-- Where a load stands once the objects of some nodes have been constructed. -/
structure Began (now : List ι) (parts : List ι) (s s' : Loader ι κ) : Prop
    extends Underway doc now s' where
  grown : s.constructed ⊆ s'.constructed
  begun : ∀ part ∈ parts, doc.isObject part = true → part ∈ s'.constructed

variable {doc} {now : List ι} {s s' s'' : Loader ι κ}

theorem Filled.mono {constructed constructed' : Finset ι} (h : Filled doc constructed node)
    (hsub : constructed ⊆ constructed') : Filled doc constructed' node :=
  ⟨h.passed, h.keyed, fun part hholds hobject => hsub (h.held part hholds hobject)⟩

theorem Began.of_grown (h : Underway doc now s') (hgrown : s.constructed ⊆ s'.constructed) :
    Began doc now [] s s' :=
  ⟨h, hgrown, fun _ hpart => absurd hpart List.not_mem_nil⟩

theorem Began.refl (h : Underway doc now s) : Began doc now [] s s :=
  .of_grown h (Finset.Subset.refl _)

theorem Began.cons {part : ι} {parts : List ι} (h : Began doc now [part] s s')
    (h' : Began doc now parts s' s'') : Began doc now (part :: parts) s s'' where
  toUnderway := h'.toUnderway
  grown := h.grown.trans h'.grown
  begun := List.forall_mem_cons.mpr
    ⟨fun hobject => h'.grown (h.begun part List.mem_cons_self hobject), h'.begun⟩

/-- Once it is filled, nothing is being filled. -/
theorem Underway.settle (h : Underway doc [node] s) (hfilled : Filled doc s.constructed node) :
    Underway doc [] s where
  scanning := h.scanning
  proper := h.proper
  values := h.values
  waiting := h.waiting
  filled other hother := by
    rcases h.filled other hother with hwaits | hnow | hother
    · exact .inl hwaits
    · rw [List.mem_singleton.mp hnow]
      exact .inr (.inr hfilled)
    · exact .inr (.inr hother)

/-- An object is filled when all that it holds was among the nodes. -/
theorem Began.filled_of_holds {parts : List ι} (h : Began doc now parts s s')
    (hpassed : Passed doc node) (hkeyed : Keyed doc doc.pairs node)
    (hparts : ∀ part, Holds doc node part → part ∈ parts) : Filled doc s'.constructed node :=
  ⟨hpassed, hkeyed, fun part hholds => h.begun part (hparts part hholds)⟩

/-- Flattening a mapping that was scanned rewrites scanned mappings, and makes them whole. -/
theorem Underway.flatten {value : Values ι} (h : Underway doc now s) (hmem : node ∈ s.scanned)
    (hcompleted : Completed doc node s.value value) : Underway doc now { s with value } where
  scanning :=
    { composed := fun other hother => by
        rcases hcompleted.others other with heq | ⟨hreaches, _⟩
        · exact heq.trans (h.scanning.composed other hother)
        · have hclosed : ∀ a b, a ∈ s.scanned → Pulls doc doc.pairs a b → b ∈ s.scanned :=
            fun a b ha hpulls => h.scanning.closed a ha (Finset.notMem_empty _) b hpulls
          exact absurd (mem_of_reaches hclosed hmem hreaches) hother
      passed := h.scanning.passed
      closed := h.scanning.closed }
  proper other := hcompleted.proper (h.proper other)
  values := h.values
  waiting := h.waiting
  filled := h.filled

/-- A scan leaves a load where it was, but for its marks. -/
theorem Underway.scan (h : Underway doc now s) (hscanned : Scanned doc ∅ s s') :
    Underway doc now s' := by
  have hscanning := hscanned.toScanning
  rw [hscanned.marked] at hscanning ⊢
  exact ⟨hscanning, h.proper, h.values, h.waiting, h.filled⟩

/-- The next list or dict that waits. -/
theorem Underway.next {rest : List ι} (h : Underway doc [] s)
    (hgenerators : s.generators = node :: rest) :
    Underway doc [node] { s with generators := rest } ∧ Held doc node := by
  have hwaiting := h.waiting
  rw [hgenerators, List.forall_mem_cons] at hwaiting
  refine ⟨⟨⟨h.scanning.composed, h.scanning.passed, h.scanning.closed⟩, h.proper, h.values,
    hwaiting.2, fun other hother => ?_⟩, hwaiting.1⟩
  rcases h.filled other hother with hwaits | hnow | hfilled
  · rw [hgenerators] at hwaits
    exact (List.mem_cons.mp hwaits).elim (fun heq => .inr (.inl (List.mem_singleton.mpr heq))) .inl
  · exact absurd hnow List.not_mem_nil
  · exact .inr (.inr hfilled)

/-- Once nothing waits, all that is held has been filled, so every mapping of it passed. -/
theorem Underway.passed (h : Underway doc [] s) (hgenerators : s.generators = [])
    (hroot : doc.isObject doc.root = true → doc.root ∈ s.constructed) {part : ι}
    (hheld : Held doc part) : Passed doc part ∧ Keyed doc doc.pairs part := by
  have hfilled : ∀ node ∈ s.constructed, Filled doc s.constructed node := by
    intro node hnode
    rcases h.filled node hnode with hwaits | hnow | hfilled
    · rw [hgenerators] at hwaits
      exact absurd hwaits List.not_mem_nil
    · exact absurd hnow List.not_mem_nil
    · exact hfilled
  have hbegun : doc.isObject part = true → part ∈ s.constructed := by
    induction hheld with
    | refl => exact hroot
    | tail _ hholds ih => exact (hfilled _ (ih hholds.isObject)).held _ hholds
  cases hobject : doc.isObject part with
  | true => exact ⟨(hfilled part (hbegun hobject)).passed, (hfilled part (hbegun hobject)).keyed⟩
  | false =>
    have hpairs := pairs_of_not_isObject hobject
    exact ⟨passed_of_pairs_eq_nil hpairs, keyed_of_pairs_eq_nil hpairs⟩

end

/-! ## What constructing begins -/

section

variable [DecidableEq ι]

/-- A pair of a dict: its key has a value, and leaves no trace. -/
theorem constructPairs_cons_eq_ok [BEq κ] {node : ι} {pair : ι × ι} {pairs : List (ι × ι)}
    {entries : Dict ι κ} {s : Loader ι κ} {result : Dict ι κ × Loader ι κ}
    (h : constructPairs doc node (pair :: pairs) entries s = .ok result) :
    ∃ key value, doc.key pair.1 = some key ∧ constructObject doc pair.2 s = .ok value ∧
      constructPairs doc node pairs (setItem key value.1 entries) value.2 = .ok result := by
  obtain ⟨⟨key, t⟩, hkey, hpair⟩ := bind_eq_ok.mp h
  cases key with
  | object => cases hpair
  | scalar key =>
    obtain ⟨hplain, rfl⟩ := constructObject_eq_scalar.mp hkey
    obtain ⟨value, hvalue, hrest⟩ := bind_eq_ok.mp hpair
    exact ⟨key, value, hplain, hvalue, hrest⟩

/-- A dict is only made of pairs whose keys have a value. -/
theorem key_of_constructPairs [BEq κ] {node : ι} {pairs : List (ι × ι)} {entries : Dict ι κ}
    {s : Loader ι κ} {result : Dict ι κ × Loader ι κ}
    (h : constructPairs doc node pairs entries s = .ok result) :
    ∀ pair ∈ pairs, ∃ key, doc.key pair.1 = some key := by
  induction pairs generalizing entries s with
  | nil => exact fun _ hpair => absurd hpair List.not_mem_nil
  | cons pair pairs ih =>
    obtain ⟨key, _, hkey, _, hrest⟩ := constructPairs_cons_eq_ok h
    exact List.forall_mem_cons.mpr ⟨⟨key, hkey⟩, ih hrest⟩

variable [BEq κ] {now : List ι} {s s' : Loader ι κ}

theorem Underway.start (h : Underway doc now s) (hnode : Held doc node) :
    Began doc now [node] s (s.start node) := by
  unfold Loader.start
  split
  · next hmem => exact ⟨h, Finset.Subset.refl _, by simpa using fun _ => hmem⟩
  · refine ⟨⟨⟨h.scanning.composed, h.scanning.passed, h.scanning.closed⟩, h.proper, ?_, ?_, ?_⟩,
      Finset.subset_insert _ _, by simp⟩
    · exact Finset.forall_mem_insert _ _ _ |>.mpr ⟨hnode, h.values⟩
    · exact List.forall_mem_append.mpr ⟨h.waiting, List.forall_mem_singleton.mpr hnode⟩
    · intro other hother
      show other ∈ s.generators ++ [node] ∨ _
      rw [List.mem_append, List.mem_singleton]
      rcases Finset.mem_insert.mp hother with rfl | hother
      · exact .inl (.inr rfl)
      · rcases h.filled other hother with hwaits | hnow | hfilled
        · exact .inl (.inl hwaits)
        · exact .inr (.inl hnow)
        · exact .inr (.inr (hfilled.mono (Finset.subset_insert _ _)))

/-- An object is constructed: a list or a dict is begun. -/
theorem constructObject_began (h : Underway doc now s) (hnode : Held doc node)
    {result : Datum ι κ × Loader ι κ} (hok : constructObject doc node s = .ok result) :
    Began doc now [node] s result.2 := by
  unfold constructObject at hok
  split at hok
  · next hscalar =>
    split at hok
    · cases hok
      refine ⟨h, Finset.Subset.refl _, ?_⟩
      simp [Document.isObject, hscalar]
    · cases hok
  · cases hok
  · cases hok
    exact h.start hnode

theorem constructSequence_began {items : List ι} (h : Underway doc now s)
    (hitems : ∀ item ∈ items, Held doc item) {result : List (Datum ι κ) × Loader ι κ}
    (hok : constructSequence doc items s = .ok result) : Began doc now items s result.2 := by
  induction items generalizing s result with
  | nil =>
    cases hok
    exact .refl h
  | cons item items ih =>
    rw [List.forall_mem_cons] at hitems
    obtain ⟨first, hfirst, hok⟩ := bind_eq_ok.mp hok
    obtain ⟨rest, hrest, hok⟩ := bind_eq_ok.mp hok
    cases hok
    have hbegan := constructObject_began h hitems.1 hfirst
    have hlater := ih hbegan.toUnderway hitems.2 hrest
    exact hbegan.cons hlater

theorem constructPairs_began {pairs : List (ι × ι)} {entries : Dict ι κ} (h : Underway doc now s)
    (hvalues : ∀ pair ∈ pairs, Held doc pair.2) {result : Dict ι κ × Loader ι κ}
    (hok : constructPairs doc node pairs entries s = .ok result) :
    Began doc now (pairs.map Prod.snd) s result.2 := by
  induction pairs generalizing s entries with
  | nil =>
    cases hok
    exact .refl h
  | cons pair pairs ih =>
    rw [List.forall_mem_cons] at hvalues
    obtain ⟨key, value, _, hvalue, hok⟩ := constructPairs_cons_eq_ok hok
    have hbegan := constructObject_began h hvalues.1 hvalue
    exact hbegan.cons (ih hbegan.toUnderway hvalues.2 hok)

theorem Underway.fill (h : Underway doc now s) (content : Content ι κ) :
    Underway doc now (s.fill node content) :=
  ⟨⟨h.scanning.composed, h.scanning.passed, h.scanning.closed⟩, h.proper, h.values, h.waiting,
    h.filled⟩

end

end MissionCompiler.Loading
