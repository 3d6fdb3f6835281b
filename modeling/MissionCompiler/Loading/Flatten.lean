import MissionCompiler.Lib.Reachable
import MissionCompiler.Loading.Ambiguity
import Mathlib.Algebra.BigOperators.Group.Finset.Basic
import Mathlib.Algebra.Order.BigOperators.Group.Finset
import Mathlib.Data.Fintype.Basic

/-!
# What flattening does

Mappings may merge each other in any way, cycles included: flattening one loses no pair but the
merge keys', and gathers in it every pair of the mappings it reaches (`Flattened`). It ends, since
each merge key is deleted before anything is done about it (`flattenMapping_finishes`). A mapping
that passed comes to its own pairs and those of all it merges in, and to no others (`Whole`), and so
does every mapping that is flattened on the way.
-/

namespace MissionCompiler.Loading

open Lib

variable {ι κ ε : Type} (doc : Document ι κ ε)

/-! ## Any mapping -/

/-- Values that were rewritten at some nodes: no merge is new, and no other pair is lost. -/
structure Rewritten (touched : ι → Prop) (value value' : Values ι) : Prop where
  others : ∀ node, ¬ touched node → value' node = value node
  fewer : ∀ node source, Pulls doc value' node source → Pulls doc value node source
  kept : ∀ node, ∀ pair ∈ value node, doc.isMerge pair.1 = false → pair ∈ value' node

/-- What flattening a mapping comes to. -/
structure Flattened (node : ι) (value value' : Values ι) : Prop
    extends Rewritten doc (Reaches doc value node) value value' where
  clean : ∀ pair ∈ value' node, doc.isMerge pair.1 = false
  gathered : ∀ source, Reaches doc value node source → ∀ pair ∈ value source,
    doc.isMerge pair.1 = false → pair ∈ value' node

/-- What flattening mappings and putting their pairs together comes to. -/
structure Spliced (sources : List ι) (pairs : List (ι × ι)) (value value' : Values ι) : Prop
    extends Rewritten doc (fun node => ∃ source ∈ sources, Reaches doc value source node) value
      value' where
  mappings : ∀ source ∈ sources, doc.isMapping source = true
  clean : ∀ pair ∈ pairs, doc.isMerge pair.1 = false
  gathered : ∀ source ∈ sources, ∀ node, Reaches doc value source node → ∀ pair ∈ value node,
    doc.isMerge pair.1 = false → pair ∈ pairs

variable {doc} {touched touched' : ι → Prop} {value value' value'' : Values ι}

theorem Rewritten.refl (touched : ι → Prop) (value : Values ι) :
    Rewritten doc touched value value where
  others _ _ := rfl
  fewer _ _ h := h
  kept _ _ h _ := h

/-- Nothing is reached by merge keys that was not. -/
theorem Rewritten.reaches (h : Rewritten doc touched value value') {node source : ι}
    (hreaches : Reaches doc value' node source) : Reaches doc value node source :=
  Relation.ReflTransGen.mono (fun _ _ => h.fewer _ _) _ _ hreaches

theorem Rewritten.trans (h : Rewritten doc touched value value')
    (h' : Rewritten doc touched' value' value'') :
    Rewritten doc (fun node => touched node ∨ touched' node) value value'' where
  others node hnot := by
    obtain ⟨hfirst, hsecond⟩ := not_or.mp hnot
    rw [h'.others node hsecond, h.others node hfirst]
  fewer node source hpulls := h.fewer node source (h'.fewer node source hpulls)
  kept node pair hpair hplain := h'.kept node pair (h.kept node pair hpair hplain) hplain

theorem Rewritten.mono (h : Rewritten doc touched value value')
    (hsub : ∀ node, touched node → touched' node) : Rewritten doc touched' value value' where
  others node hnot := h.others node fun htouched => hnot (hsub node htouched)
  fewer := h.fewer
  kept := h.kept

/-- What was reached is among the nodes that were rewritten, or is reached still. -/
theorem Rewritten.reaches_or (h : Rewritten doc touched value value')
    (hclosed : ∀ node source, touched node → Pulls doc value node source → touched source)
    {node source : ι} (hreaches : Reaches doc value node source) :
    touched source ∨ Reaches doc value' node source := by
  refine Lib.reaches_or hclosed (fun a b hnot hpulls => ?_) hreaches
  obtain ⟨pair, hpair, hrest⟩ := hpulls
  exact ⟨pair, (h.others a hnot).symm ▸ hpair, hrest⟩

/-! ## Merge keys -/

/-- Taking the first merge key leaves every other pair. -/
theorem takeMerge_eq_some {pairs rest : List (ι × ι)} {source : ι}
    (h : takeMerge doc pairs = some (source, rest)) :
    ∃ key, doc.isMerge key = true ∧ pairs.Perm ((key, source) :: rest) := by
  induction pairs generalizing rest with
  | nil => cases h
  | cons pair pairs ih =>
    unfold takeMerge at h
    split at h
    · next hmerge =>
      cases h
      exact ⟨pair.1, hmerge, .refl _⟩
    · obtain ⟨taken, htaken, heq⟩ := Option.map_eq_some_iff.mp h
      cases heq
      obtain ⟨key, hmerge, hperm⟩ := ih htaken
      exact ⟨key, hmerge, (hperm.cons pair).trans (.swap _ _ _)⟩

theorem takeMerge_eq_none {pairs : List (ι × ι)} :
    takeMerge doc pairs = none ↔ ∀ pair ∈ pairs, doc.isMerge pair.1 = false := by
  induction pairs with
  | nil => simp [takeMerge]
  | cons pair pairs ih =>
    rw [takeMerge, List.forall_mem_cons, ← ih]
    split
    · next hmerge => simp [hmerge]
    · next hmerge => simp [hmerge]

theorem merges_eq_zero {pairs : List (ι × ι)} :
    doc.merges pairs = 0 ↔ ∀ pair ∈ pairs, doc.isMerge pair.1 = false := by
  simp [Document.merges, List.countP_eq_zero]

theorem merges_append (pairs pairs' : List (ι × ι)) :
    doc.merges (pairs ++ pairs') = doc.merges pairs + doc.merges pairs' :=
  List.countP_append

theorem merges_of_takeMerge {pairs rest : List (ι × ι)} {source : ι}
    (h : takeMerge doc pairs = some (source, rest)) :
    doc.merges pairs = doc.merges rest + 1 := by
  obtain ⟨key, hkey, hperm⟩ := takeMerge_eq_some h
  rw [Document.merges, hperm.countP_eq, List.countP_cons, if_pos hkey]
  rfl

/-- The first of several mappings is flattened, and then the others. -/
theorem spliceSources_cons_eq_ok {flatten : ι → Values ι → Attempt ι κ ε (Values ι)}
    {source : ι} {sources : List ι} {pairs : List (ι × ι)}
    (h : spliceSources doc flatten (source :: sources) value = .ok (pairs, value')) :
    doc.isMapping source = true ∧ ∃ flat later, flatten source value = .ok flat ∧
      spliceSources doc flatten sources flat = .ok (later, value') ∧
      pairs = later ++ flat source := by
  unfold spliceSources at h
  split at h
  · next hmapping =>
    obtain ⟨flat, hflat, h⟩ := bind_eq_ok.mp h
    obtain ⟨⟨later, last⟩, hlater, h⟩ := bind_eq_ok.mp h
    cases h
    exact ⟨hmapping, flat, later, hflat, hlater, rfl⟩
  · cases h

/-- When all that a merge key names are mappings, all of them are sources. -/
theorem mergeSources_of_mappings {source : ι}
    (h : ∀ next ∈ doc.candidates source, doc.isMapping next = true) :
    mergeSources doc source = doc.candidates source :=
  List.filter_eq_self.mpr h

/-- Mappings that are flattened one after another, by a function that flattens one. -/
theorem spliced_of_flattened {flatten : ι → Values ι → Attempt ι κ ε (Values ι)}
    (hflatten : ∀ {source : ι} {before after : Values ι}, flatten source before = .ok after →
      Flattened doc source before after)
    {sources : List ι} {pairs : List (ι × ι)}
    (h : spliceSources doc flatten sources value = .ok (pairs, value')) :
    Spliced doc sources pairs value value' := by
  induction sources generalizing value pairs with
  | nil =>
    cases h
    refine ⟨(Rewritten.refl (fun _ => False) _).mono fun _ hnever => hnever.elim, ?_, ?_, ?_⟩
    · exact fun _ hsource => absurd hsource List.not_mem_nil
    · exact fun _ hpair => absurd hpair List.not_mem_nil
    · exact fun _ hsource => absurd hsource List.not_mem_nil
  | cons source sources ih =>
    obtain ⟨hmapping, flat, later, hflat, hlater, rfl⟩ := spliceSources_cons_eq_ok h
    have hfirst := hflatten hflat
    have hrest := ih hlater
    refine ⟨(hfirst.toRewritten.trans hrest.toRewritten).mono ?_,
      List.forall_mem_cons.mpr ⟨hmapping, hrest.mappings⟩, fun pair hpair => ?_,
      fun s hs n hreaches pair hpair hplain => ?_⟩
    · rintro n (hreaches | ⟨s, hs, hreaches⟩)
      · exact ⟨source, List.mem_cons_self, hreaches⟩
      · exact ⟨s, List.mem_cons_of_mem _ hs, hfirst.reaches hreaches⟩
    · rcases List.mem_append.mp hpair with hpair | hpair
      · exact hrest.clean pair hpair
      · exact hfirst.clean pair hpair
    · rcases List.mem_cons.mp hs with rfl | hs
      · exact List.mem_append_right _ (hfirst.gathered n hreaches pair hpair hplain)
      · rcases hfirst.reaches_or (fun _ _ hreached hpulls => hreached.tail hpulls) hreaches with
          hreaches | hreaches
        · exact List.mem_append_right _ (hfirst.gathered n hreaches pair hpair hplain)
        · exact List.mem_append_left _ (hrest.gathered s hs n hreaches pair
            (hfirst.kept n pair hpair hplain) hplain)

section

variable [DecidableEq ι] {node source : ι} {rest : List (ι × ι)}

/-- A mapping without merge keys stays as it is. -/
theorem flattenMapping_clean {fuel : Nat} {merge : List (ι × ι)}
    (h : ∀ pair ∈ value node, doc.isMerge pair.1 = false)
    (hok : flattenMapping doc fuel node merge value = .ok value') :
    value' = Function.update value node (merge ++ value node) := by
  cases fuel with
  | zero => cases hok
  | succ fuel =>
    rw [flattenMapping, takeMerge_eq_none.mpr h] at hok
    exact (Except.ok.inj hok).symm

/-- A merge key is deleted before anything is done about it. -/
theorem rewritten_of_takeMerge (h : takeMerge doc (value node) = some (source, rest)) :
    Rewritten doc (· = node) value (Function.update value node rest) := by
  obtain ⟨key, hkey, hperm⟩ := takeMerge_eq_some h
  have hsub : ∀ other, ∀ pair ∈ Function.update value node rest other, pair ∈ value other := by
    intro other pair hpair
    by_cases hother : other = node
    · subst hother
      rw [Function.update_self] at hpair
      exact hperm.mem_iff.mpr (List.mem_cons_of_mem _ hpair)
    · rwa [Function.update_of_ne hother] at hpair
  refine ⟨fun other hother => Function.update_of_ne hother _ _, fun other next hpulls => ?_,
    fun other pair hpair hplain => ?_⟩
  · obtain ⟨pair, hpair, hrest⟩ := hpulls
    exact ⟨pair, hsub other pair hpair, hrest⟩
  · by_cases hother : other = node
    · subst hother
      rw [Function.update_self]
      rcases List.mem_cons.mp (hperm.mem_iff.mp hpair) with rfl | hpair
      · exact absurd (hplain.symm.trans hkey) Bool.false_ne_true
      · exact hpair
    · rwa [Function.update_of_ne hother]

/-- What a mapping reaches it reaches by its first merge key, or without it. -/
theorem reaches_of_takeMerge (h : takeMerge doc (value node) = some (source, rest)) {other : ι}
    (hreaches : Reaches doc value node other) :
    (∃ first ∈ mergeSources doc source, Reaches doc (Function.update value node rest) first other) ∨
      Reaches doc (Function.update value node rest) node other := by
  obtain ⟨key, hkey, hperm⟩ := takeMerge_eq_some h
  have hpulls : ∀ a b, Pulls doc value a b → a = node ∧ b ∈ mergeSources doc source ∨
      Pulls doc (Function.update value node rest) a b := by
    rintro a b ⟨pair, hpair, hmerge, hb⟩
    by_cases ha : a = node
    · subst ha
      rcases List.mem_cons.mp (hperm.mem_iff.mp hpair) with rfl | hpair
      · exact .inl ⟨rfl, hb⟩
      · exact .inr ⟨pair, by rwa [Function.update_self], hmerge, hb⟩
    · exact .inr ⟨pair, by rwa [Function.update_of_ne ha], hmerge, hb⟩
  induction hreaches with
  | refl => exact .inr .refl
  | @tail b c _ hstep ih =>
    rcases hpulls b c hstep with ⟨_, hc⟩ | hstep
    · exact .inl ⟨c, hc, .refl⟩
    · rcases ih with ⟨first, hfirst, hreaches⟩ | hreaches
      · exact .inl ⟨first, hfirst, hreaches.tail hstep⟩
      · exact .inr (hreaches.tail hstep)

/-- Pairs without merge keys may be put before those of a mapping. -/
theorem Rewritten.prepend (h : Rewritten doc touched value value') (hnode : touched node)
    {pairs : List (ι × ι)} (hclean : ∀ pair ∈ pairs, doc.isMerge pair.1 = false) :
    Rewritten doc touched value (Function.update value' node (pairs ++ value' node)) where
  others other hnot := by
    have hother : other ≠ node := fun heq => hnot (heq ▸ hnode)
    rw [Function.update_of_ne hother]
    exact h.others other hnot
  fewer other next hpulls := by
    obtain ⟨pair, hpair, hmerge, hnext⟩ := hpulls
    refine h.fewer other next ⟨pair, ?_, hmerge, hnext⟩
    by_cases hother : other = node
    · subst hother
      rw [Function.update_self] at hpair
      refine (List.mem_append.mp hpair).resolve_left fun hpair => ?_
      exact Bool.false_ne_true ((hclean pair hpair).symm.trans hmerge)
    · rwa [Function.update_of_ne hother] at hpair
  kept other pair hpair hplain := by
    have hpair' := h.kept other pair hpair hplain
    by_cases hother : other = node
    · subst hother
      rw [Function.update_self]
      exact List.mem_append_right _ hpair'
    · rwa [Function.update_of_ne hother]

/-- What was merged before is put before what is merged from here on. -/
theorem flattenMapping_onto (fuel : Nat) (node : ι) (merge : List (ι × ι)) (value : Values ι) :
    flattenMapping doc fuel node merge value = (flattenMapping doc fuel node [] value).map
      fun value' => Function.update value' node (merge ++ value' node) := by
  induction fuel generalizing merge value with
  | zero => rfl
  | succ fuel ih =>
    unfold flattenMapping
    cases htake : takeMerge doc (value node) with
    | none =>
      simp only [List.nil_append, Function.update_eq_self]
      rfl
    | some taken =>
      simp only
      cases hsplice : spliceSources doc (fun source => flattenMapping doc fuel source [])
          (doc.candidates taken.1) (Function.update value node taken.2) with
      | error e => rfl
      | ok spliced =>
        show flattenMapping doc fuel node (merge ++ spliced.1) spliced.2 =
          (flattenMapping doc fuel node ([] ++ spliced.1) spliced.2).map _
        rw [ih, ih ([] ++ spliced.1)]
        cases flattenMapping doc fuel node [] spliced.2 with
        | error e => rfl
        | ok flat =>
          simp only [Except.map, Function.update_self, Function.update_idem, List.nil_append,
            List.append_assoc]

/-- One merge key of a mapping, and what flattening does from there on. -/
theorem flattenMapping_succ_eq_ok {fuel : Nat}
    (h : flattenMapping doc (fuel + 1) node [] value = .ok value') :
    takeMerge doc (value node) = none ∧ value' = value ∨
      ∃ source rest spliced between flat, takeMerge doc (value node) = some (source, rest) ∧
        spliceSources doc (fun source => flattenMapping doc fuel source []) (doc.candidates source)
          (Function.update value node rest) = .ok (spliced, between) ∧
        flattenMapping doc fuel node [] between = .ok flat ∧
        value' = Function.update flat node (spliced ++ flat node) := by
  unfold flattenMapping at h
  split at h
  · next htake =>
    rw [List.nil_append, Function.update_eq_self] at h
    exact .inl ⟨htake, (Except.ok.inj h).symm⟩
  · next source rest htake =>
    obtain ⟨⟨spliced, between⟩, hsplice, h⟩ := bind_eq_ok.mp h
    replace h : flattenMapping doc fuel node spliced between = .ok value' := h
    rw [flattenMapping_onto] at h
    cases hflat : flattenMapping doc fuel node [] between with
    | error e =>
      rw [hflat] at h
      cases h
    | ok flat =>
      rw [hflat] at h
      exact .inr ⟨source, rest, spliced, between, flat, htake, hsplice, hflat,
        (Except.ok.inj h).symm⟩

/-- What flattening does, by the merge keys that are deleted one after another. -/
theorem flattenMapping_spec {fuel : Nat}
    (h : flattenMapping doc fuel node [] value = .ok value') : Flattened doc node value value' := by
  induction fuel generalizing node value value' with
  | zero => cases h
  | succ fuel ih =>
    rcases flattenMapping_succ_eq_ok h with ⟨htake, rfl⟩ |
      ⟨source, rest, spliced, between, flat, htake, hsplice, hflat, rfl⟩
    · have hclean := takeMerge_eq_none.mp htake
      refine ⟨Rewritten.refl _ _, hclean, fun source hreaches pair hpair _ => ?_⟩
      rcases hreaches.cases_head with rfl | ⟨next, ⟨merge, hmerge, hkey, _⟩, _⟩
      · exact hpair
      · exact absurd ((hclean merge hmerge).symm.trans hkey) Bool.false_ne_true
    · have hdeleted := rewritten_of_takeMerge htake
      have hspliced := spliced_of_flattened ih hsplice
      have hrest := ih hflat
      have hsources := mergeSources_of_mappings hspliced.mappings
      have hfirst : ∀ next ∈ doc.candidates source, Reaches doc value node next := by
        intro next hnext
        obtain ⟨key, hkey, hperm⟩ := takeMerge_eq_some htake
        rw [← hsources] at hnext
        exact .single ⟨_, hperm.mem_iff.mpr List.mem_cons_self, hkey, hnext⟩
      have hrewritten : Rewritten doc (Reaches doc value node) value flat := by
        refine ((hdeleted.trans hspliced.toRewritten).trans hrest.toRewritten).mono ?_
        rintro n ((rfl | ⟨next, hnext, hreaches⟩) | hreaches)
        · exact .refl
        · exact (hfirst next hnext).trans (hdeleted.reaches hreaches)
        · exact hdeleted.reaches (hspliced.reaches hreaches)
      refine ⟨hrewritten.prepend .refl hspliced.clean, fun pair hpair => ?_,
        fun n hreaches pair hpair hplain => ?_⟩
      · rw [Function.update_self] at hpair
        rcases List.mem_append.mp hpair with hpair | hpair
        · exact hspliced.clean pair hpair
        · exact hrest.clean pair hpair
      · rw [Function.update_self]
        have hpair₁ := hdeleted.kept n pair hpair hplain
        rcases reaches_of_takeMerge htake hreaches with ⟨next, hnext, hreaches⟩ | hreaches
        · rw [hsources] at hnext
          exact List.mem_append_left _ (hspliced.gathered next hnext n hreaches pair hpair₁ hplain)
        · rcases hspliced.reaches_or (fun a b ⟨next, hnext, hreached⟩ hpulls =>
              ⟨next, hnext, hreached.tail hpulls⟩) hreaches with ⟨next, hnext, hreaches⟩ | hreaches
          · exact List.mem_append_left _
              (hspliced.gathered next hnext n hreaches pair hpair₁ hplain)
          · exact List.mem_append_right _ (hrest.gathered n hreaches pair
              (hspliced.kept n pair hpair₁ hplain) hplain)

end

/-! ## Mappings that passed -/

variable (doc)

/-- The pairs a mapping comes to: its own and those of all it merges in, without the merge keys. -/
def Whole (node : ι) (pairs : List (ι × ι)) : Prop :=
  ∀ pair, pair ∈ pairs ↔ doc.isMerge pair.1 = false ∧
    ∃ source, Reaches doc doc.pairs node source ∧ pair ∈ doc.pairs source

/-- A mapping is as it was composed, or whole. -/
def Proper (value : Values ι) (node : ι) : Prop :=
  value node = doc.pairs node ∨ Whole doc node (value node)

/-- What flattening a mapping that passed comes to. -/
structure Completed (node : ι) (value value' : Values ι) : Prop where
  whole : Whole doc node (value' node)
  others : ∀ other, value' other = value other ∨
    Reaches doc doc.pairs node other ∧ Whole doc other (value' other)

variable {doc} {node source : ι} {rest : List (ι × ι)}

theorem Completed.proper (h : Completed doc node value value') {other : ι}
    (hproper : Proper doc value other) : Proper doc value' other := by
  rcases h.others other with heq | ⟨_, hwhole⟩
  · unfold Proper
    rw [heq]
    exact hproper
  · exact .inr hwhole

/-- Mappings that passed are flattened one after another. -/
theorem spliced_of_completed [BEq κ] {flatten : ι → Values ι → Attempt ι κ ε (Values ι)}
    (hflatten : ∀ {source : ι} {before after : Values ι}, Passed doc source →
      (∀ n, Reaches doc doc.pairs source n → Proper doc before n) →
      flatten source before = .ok after → Completed doc source before after)
    {sources : List ι} {pairs : List (ι × ι)} (hpassed : ∀ source ∈ sources, Passed doc source)
    (hproper : ∀ source ∈ sources, ∀ n, Reaches doc doc.pairs source n → Proper doc value n)
    (h : spliceSources doc flatten sources value = .ok (pairs, value')) :
    (∀ pair, pair ∈ pairs ↔ doc.isMerge pair.1 = false ∧ ∃ source ∈ sources,
      ∃ n, Reaches doc doc.pairs source n ∧ pair ∈ doc.pairs n) ∧
    ∀ n, value' n = value n ∨
      (∃ source ∈ sources, Reaches doc doc.pairs source n) ∧ Whole doc n (value' n) := by
  induction sources generalizing value pairs with
  | nil =>
    cases h
    exact ⟨fun pair => by simp, fun n => .inl rfl⟩
  | cons source sources ih =>
    obtain ⟨_, flat, later, hflat, hlater, rfl⟩ := spliceSources_cons_eq_ok h
    rw [List.forall_mem_cons] at hpassed hproper
    have hfirst := hflatten hpassed.1 hproper.1 hflat
    obtain ⟨hpairs, hothers⟩ :=
      ih hpassed.2 (fun s hs n hreaches => hfirst.proper (hproper.2 s hs n hreaches)) hlater
    refine ⟨fun pair => ?_, fun n => ?_⟩
    · rw [List.mem_append, hpairs, hfirst.whole, ← and_or_left, List.exists_mem_cons_iff, or_comm]
    · rcases hothers n with heq | ⟨⟨s, hs, hreaches⟩, hwhole⟩
      · rw [heq]
        exact (hfirst.others n).imp_right fun h => ⟨⟨source, List.mem_cons_self, h.1⟩, h.2⟩
      · exact .inr ⟨⟨s, List.mem_cons_of_mem _ hs, hreaches⟩, hwhole⟩

/-- A mapping without merge keys is whole as it is. -/
theorem whole_of_clean (hclean : ∀ pair ∈ doc.pairs node, doc.isMerge pair.1 = false) :
    Whole doc node (doc.pairs node) := by
  intro pair
  refine ⟨fun hpair => ⟨hclean pair hpair, node, .refl, hpair⟩, ?_⟩
  rintro ⟨_, n, hreaches, hpair⟩
  rcases hreaches.cases_head with rfl | ⟨next, ⟨merge, hmerge, hkey, _⟩, _⟩
  · exact hpair
  · exact absurd ((hclean merge hmerge).symm.trans hkey) Bool.false_ne_true

/-- A mapping with one merge key is whole with what the sources gather before its other pairs. -/
theorem whole_of_spliced {spliced : List (ι × ι)}
    (htake : takeMerge doc (doc.pairs node) = some (source, rest))
    (hrest : ∀ pair ∈ rest, doc.isMerge pair.1 = false)
    (hspliced : ∀ pair, pair ∈ spliced ↔ doc.isMerge pair.1 = false ∧
      ∃ next ∈ mergeSources doc source, ∃ n, Reaches doc doc.pairs next n ∧ pair ∈ doc.pairs n) :
    Whole doc node (spliced ++ rest) := by
  obtain ⟨key, hkey, hperm⟩ := takeMerge_eq_some htake
  intro pair
  rw [List.mem_append, hspliced]
  constructor
  · rintro (⟨hplain, next, hnext, n, hreaches, hpair⟩ | hpair)
    · have hpulls : Pulls doc doc.pairs node next :=
        ⟨_, hperm.mem_iff.mpr List.mem_cons_self, hkey, hnext⟩
      exact ⟨hplain, n, .head hpulls hreaches, hpair⟩
    · exact ⟨hrest pair hpair, node, .refl, hperm.mem_iff.mpr (List.mem_cons_of_mem _ hpair)⟩
  · rintro ⟨hplain, n, hreaches, hpair⟩
    rcases hreaches.cases_head with rfl | ⟨next, ⟨merge, hmerge, hmergeKey, hnext⟩, hreaches⟩
    · rcases List.mem_cons.mp (hperm.mem_iff.mp hpair) with rfl | hpair
      · exact absurd (hplain.symm.trans hkey) Bool.false_ne_true
      · exact .inr hpair
    · rcases List.mem_cons.mp (hperm.mem_iff.mp hmerge) with rfl | hmerge
      · exact .inl ⟨hplain, next, hnext, n, hreaches, hpair⟩
      · exact absurd ((hrest merge hmerge).symm.trans hmergeKey) Bool.false_ne_true

section

variable [DecidableEq ι] [BEq κ]

/-- Flattening a mapping that passed makes it whole. -/
theorem flattenMapping_completed {fuel : Nat} (hpassed : Passed doc node)
    (hproper : ∀ n, Reaches doc doc.pairs node n → Proper doc value n)
    (h : flattenMapping doc fuel node [] value = .ok value') :
    Completed doc node value value' := by
  induction fuel generalizing node value value' with
  | zero => cases h
  | succ fuel ih =>
    rcases flattenMapping_succ_eq_ok h with ⟨htake, rfl⟩ |
      ⟨source, rest, spliced, between, flat, htake, hsplice, hflat, rfl⟩
    · refine ⟨?_, fun other => .inl rfl⟩
      rcases hproper node .refl with heq | hwhole
      · have hclean := takeMerge_eq_none.mp htake
        rw [heq] at hclean ⊢
        exact whole_of_clean hclean
      · exact hwhole
    · obtain ⟨key, hkey, hperm⟩ := takeMerge_eq_some htake
      have hcomposed : value node = doc.pairs node := by
        refine (hproper node .refl).resolve_right fun hwhole => ?_
        have hplain := ((hwhole _).mp (hperm.mem_iff.mpr List.mem_cons_self)).1
        exact Bool.false_ne_true (hplain.symm.trans hkey)
      rw [hcomposed] at htake hperm
      -- the merge key is the only one, so the mapping is done once its sources are
      have hrest : ∀ pair ∈ rest, doc.isMerge pair.1 = false := by
        cases hpassed with
        | intro _ single _ =>
          have hcount := merges_of_takeMerge htake
          exact merges_eq_zero.mp (by omega)
      have hsources :=
        mergeSources_of_mappings (spliced_of_flattened flattenMapping_spec hsplice).mappings
      have hpulls : ∀ next ∈ doc.candidates source, Pulls doc doc.pairs node next :=
        fun next hnext => ⟨_, hperm.mem_iff.mpr List.mem_cons_self, hkey, hsources ▸ hnext⟩
      have hapart : ∀ next ∈ doc.candidates source, ∀ n, Reaches doc doc.pairs next n →
          n ≠ node := by
        rintro next hnext n hreaches rfl
        exact hpassed.acyclic (.head' (hpulls next hnext) hreaches)
      have hsame : ∀ next ∈ doc.candidates source, ∀ n, Reaches doc doc.pairs next n →
          Proper doc (Function.update value node rest) n := by
        intro next hnext n hreaches
        rw [Proper, Function.update_of_ne (hapart next hnext n hreaches)]
        exact hproper n (.head (hpulls next hnext) hreaches)
      obtain ⟨hspliced, hothers⟩ := spliced_of_completed ih
        (fun next hnext => hpassed.reaches (.single (hpulls next hnext))) hsame hsplice
      have hbetween : between node = rest := by
        rcases hothers node with heq | ⟨⟨next, hnext, hreaches⟩, _⟩
        · rw [heq, Function.update_self]
        · exact absurd rfl (hapart next hnext node hreaches)
      have hflat' := flattenMapping_clean (hbetween ▸ hrest) hflat
      rw [List.nil_append, Function.update_eq_self] at hflat'
      have hwhole : Whole doc node (spliced ++ rest) :=
        whole_of_spliced htake hrest (hsources ▸ hspliced)
      rw [hflat', hbetween]
      refine ⟨by rwa [Function.update_self], fun other => ?_⟩
      by_cases hother : other = node
      · rw [hother, Function.update_self]
        exact .inr ⟨.refl, hwhole⟩
      · rw [Function.update_of_ne hother]
        rcases hothers other with heq | ⟨⟨next, hnext, hreaches⟩, hwhole⟩
        · rw [heq, Function.update_of_ne hother]
          exact .inl rfl
        · exact .inr ⟨.head (hpulls next hnext) hreaches, hwhole⟩

end

end MissionCompiler.Loading
