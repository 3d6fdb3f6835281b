import MissionCompiler.Loading.Strict

/-!
# What a load holds

Whatever keys a document repeats, a dict that a loader fills has each of them once.
-/

namespace MissionCompiler.Loading

open Lib

variable {ι κ ε : Type} {doc : Document ι κ ε} [BEq κ]

/-- No key of a dict is equal to one before it. -/
def KeysOnce (entries : Dict ι κ) : Prop := entries.Pairwise fun e e' => (e.1 == e'.1) = false

/-- Every dict among contents has its keys once. -/
def DictsKeyed (content : ι → Option (Content ι κ)) : Prop :=
  ∀ node entries, content node = some (.dict entries) → KeysOnce entries

/-! ## One dict -/

section

variable {key : κ} {value : Datum ι κ} {entries : Dict ι κ}

/-- The keys of a dict are those it had, and the one that was put there. -/
theorem mem_setItem {e : κ × Datum ι κ} (h : e ∈ setItem key value entries) :
    e.1 = key ∨ ∃ e' ∈ entries, e'.1 = e.1 := by
  induction entries with
  | nil => exact .inl (congrArg Prod.fst (List.mem_singleton.mp h))
  | cons entry rest ih =>
    unfold setItem at h
    split at h
    · rcases List.mem_cons.mp h with rfl | hrest
      · exact .inr ⟨entry, List.mem_cons_self, rfl⟩
      · exact .inr ⟨e, List.mem_cons_of_mem _ hrest, rfl⟩
    · rcases List.mem_cons.mp h with rfl | hrest
      · exact .inr ⟨_, List.mem_cons_self, rfl⟩
      · exact (ih hrest).imp_right fun ⟨e', he', heq⟩ => ⟨e', List.mem_cons_of_mem _ he', heq⟩

/-- A key that is there is not put there again. -/
theorem KeysOnce.setItem (h : KeysOnce entries) : KeysOnce (setItem key value entries) := by
  induction entries with
  | nil => exact List.pairwise_singleton _ _
  | cons entry rest ih =>
    obtain ⟨hentry, hrest⟩ := List.pairwise_cons.mp h
    unfold Loading.setItem
    split
    · exact List.pairwise_cons.mpr ⟨hentry, hrest⟩
    · next hne =>
      refine List.pairwise_cons.mpr ⟨fun e he => ?_, ih hrest⟩
      rcases mem_setItem he with heq | ⟨e', he', heq⟩
      · rw [heq]
        exact Bool.eq_false_iff.mpr hne
      · rw [← heq]
        exact hentry e' he'

end

/-! ## A load -/

section

variable [DecidableEq ι] {node : ι} {s : Loader ι κ}

omit [BEq κ] in
theorem Loader.content_start (node : ι) (s : Loader ι κ) : (s.start node).content = s.content := by
  unfold start
  split <;> rfl

omit [BEq κ] in
/-- Beginning lists and dicts fills none. -/
theorem content_kept (content : ι → Option (Content ι κ)) (node : ι) (s : Loader ι κ)
    (h : s.content = content) : (s.start node).content = content :=
  (s.content_start node).trans h

/-- Making a dict fills no other. -/
theorem constructPairs_content {pairs : List (ι × ι)} {entries : Dict ι κ}
    {result : Dict ι κ × Loader ι κ} (h : constructPairs doc node pairs entries s = .ok result) :
    result.2.content = s.content :=
  (constructPairs_keeps (content_kept s.content) rfl).of_eq_ok h

/-- A dict that is made pair by pair has its keys once. -/
theorem constructPairs_keysOnce {pairs : List (ι × ι)} {entries : Dict ι κ}
    {result : Dict ι κ × Loader ι κ} (hentries : KeysOnce entries)
    (h : constructPairs doc node pairs entries s = .ok result) : KeysOnce result.1 := by
  induction pairs generalizing entries s with
  | nil =>
    cases h
    exact hentries
  | cons pair pairs ih =>
    obtain ⟨_, _, _, _, hrest⟩ := constructPairs_cons_eq_ok h
    exact ih hentries.setItem hrest

/-- The safe loader makes a dict with its keys once, and fills no other. -/
theorem safeConstructMapping_content {fuel : Nat} {result : Dict ι κ × Loader ι κ}
    (h : safeConstructMapping doc fuel node s = .ok result) :
    KeysOnce result.1 ∧ result.2.content = s.content := by
  obtain ⟨value, -, hpairs⟩ := bind_eq_ok.mp h
  have hcontent := constructPairs_content hpairs
  exact ⟨constructPairs_keysOnce .nil hpairs, hcontent⟩

/-- The strict loader makes a dict with its keys once, and its scan fills none. -/
theorem strictConstructMapping_content [Fintype ι] {fuel : Nat} (hfuel : doc.enough ≤ fuel)
    {result : Dict ι κ × Loader ι κ} (h : strictConstructMapping doc fuel node s = .ok result) :
    KeysOnce result.1 ∧ result.2.content = s.content := by
  obtain ⟨t, hrefuse, hsafe⟩ := bind_eq_ok.mp h
  have hcard : Fintype.card ι < fuel + (∅ : Finset ι).card := by
    unfold Document.enough at hfuel
    omega
  have hcontent : t.content = s.content :=
    (refuseRepeatedKeys_keeps (content_kept s.content) (fun _ _ ht => ht) hcard rfl).of_eq_ok
      hrefuse
  rw [← hcontent]
  exact safeConstructMapping_content hsafe

theorem DictsKeyed.fill_list {items : List (Datum ι κ)} (h : DictsKeyed s.content) :
    DictsKeyed (s.fill node (.list items)).content := by
  intro other entries hother
  unfold Loader.fill at hother
  by_cases heq : other = node
  · subst heq
    simp at hother
  · exact h other entries (by simpa [heq] using hother)

/-- A dict with its keys once may be filled in. -/
theorem DictsKeyed.fill_dict {entries : Dict ι κ} (h : DictsKeyed s.content)
    (hentries : KeysOnce entries) : DictsKeyed (s.fill node (.dict entries)).content := by
  intro other entries' hother
  unfold Loader.fill at hother
  by_cases heq : other = node
  · subst heq
    obtain rfl : entries = entries' := by simpa using hother
    exact hentries
  · exact h other entries' (by simpa [heq] using hother)

variable {constructMapping : ι → Loader ι κ → Attempt ι κ ε (Dict ι κ × Loader ι κ)}
  (hconstruct : ∀ node s result, constructMapping node s = .ok result →
    KeysOnce result.1 ∧ result.2.content = s.content)

include hconstruct

/-- A round fills one list or dict. -/
theorem resume_keyed {s' : Loader ι κ} (hs : DictsKeyed s.content)
    (h : resume doc constructMapping node s = .ok s') : DictsKeyed s'.content := by
  unfold resume at h
  split at h
  · next items _ =>
    obtain ⟨result, hresult, h⟩ := bind_eq_ok.mp h
    cases h
    have hkept : result.2.content = s.content :=
      (constructSequence_keeps (content_kept s.content) rfl).of_eq_ok hresult
    exact DictsKeyed.fill_list (hkept ▸ hs)
  · obtain ⟨result, hresult, h⟩ := bind_eq_ok.mp h
    cases h
    obtain ⟨hentries, hkept⟩ := hconstruct _ _ _ hresult
    exact DictsKeyed.fill_dict (hkept ▸ hs) hentries
  · cases h
    exact hs

/-- However many rounds there are, every dict that is filled has its keys once. -/
theorem resumeAll_keyed {rounds : Nat} {s' : Loader ι κ} (hs : DictsKeyed s.content)
    (h : resumeAll doc constructMapping rounds s = .ok s') : DictsKeyed s'.content := by
  induction rounds generalizing s with
  | zero => cases h
  | succ rounds ih =>
    unfold resumeAll at h
    split at h
    · cases h
      exact hs
    · next node rest _ =>
      obtain ⟨t, hresume, hrest⟩ := bind_eq_ok.mp h
      have hnext : DictsKeyed { s with generators := rest }.content := hs
      exact ih (resume_keyed hconstruct hnext hresume) hrest

/-- At first nothing is filled. -/
theorem constructDocument_keyed {fuel : Nat} {loaded : Loaded ι κ}
    (h : constructDocument doc constructMapping fuel = .ok loaded) : DictsKeyed loaded.content := by
  obtain ⟨⟨root, s⟩, hroot, h⟩ := bind_eq_ok.mp h
  obtain ⟨t, hrest, h⟩ := bind_eq_ok.mp h
  cases h
  have hnone : s.content = fun _ => none :=
    (constructObject_keeps (content_kept fun _ => none) doc.root rfl).of_eq_ok hroot
  refine resumeAll_keyed hconstruct ?_ hrest
  intro node entries hnode
  rw [hnone] at hnode
  cases hnode

omit hconstruct

/-- The strict loader fills every dict with distinct keys. -/
theorem strictLoad_keyed [Fintype ι] {fuel : Nat} (hfuel : doc.enough ≤ fuel)
    {loaded : Loaded ι κ} (h : strictLoad doc fuel = .ok loaded) : DictsKeyed loaded.content :=
  constructDocument_keyed (fun _ _ _ => strictConstructMapping_content hfuel) h

end

end MissionCompiler.Loading
