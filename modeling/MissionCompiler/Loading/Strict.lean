import MissionCompiler.Loading.Termination
import MissionCompiler.Loading.Underway

/-!
# What the strict loader refuses

It ends on every document, cycles included. It raises on an ambiguous one; any other it loads when
the safe loader does, to the same value, and when that one raises it raises as well
(`strictLoad_refuses_ambiguous`). Which exception that is may differ: the keys of a mapping are
constructed by the scan, before any of its values.
-/

namespace MissionCompiler.Loading

open Lib

variable {ι κ ε : Type} {doc : Document ι κ ε} [DecidableEq ι]

/-! ## The marks of a scan -/

section

variable (scanned : Finset ι) (s : Loader ι κ)

theorem start_marked (node : ι) :
    (s.marked scanned).start node = (s.start node).marked scanned := by
  unfold Loader.start Loader.marked
  split <;> rfl

/-- What is constructed does not depend on what is marked as scanned. -/
theorem constructObject_marked (node : ι) :
    constructObject doc node (s.marked scanned) =
      (constructObject doc node s).map (Prod.map id (Loader.marked scanned)) := by
  unfold constructObject
  split
  · cases doc.construct node <;> rfl
  · rfl
  · rw [start_marked]
    rfl

theorem constructSequence_marked (items : List ι) :
    constructSequence doc items (s.marked scanned) =
      (constructSequence doc items s).map (Prod.map id (Loader.marked scanned)) := by
  induction items generalizing s with
  | nil => rfl
  | cons item items ih =>
    unfold constructSequence
    rw [constructObject_marked scanned s]
    cases constructObject doc item s with
    | error e => rfl
    | ok first =>
      show (constructSequence doc items (first.2.marked scanned) >>= _) =
        Except.map _ (constructSequence doc items first.2 >>= _)
      rw [ih]
      cases constructSequence doc items first.2 <;> rfl

variable [BEq κ]

theorem constructPairs_marked (node : ι) (pairs : List (ι × ι)) (entries : Dict ι κ) :
    constructPairs doc node pairs entries (s.marked scanned) =
      (constructPairs doc node pairs entries s).map (Prod.map id (Loader.marked scanned)) := by
  induction pairs generalizing s entries with
  | nil => rfl
  | cons pair pairs ih =>
    unfold constructPairs
    rw [constructObject_marked]
    cases constructObject doc pair.1 s with
    | error e => rfl
    | ok first =>
      obtain ⟨key, t⟩ := first
      cases key with
      | object => rfl
      | scalar key =>
        show (constructObject doc pair.2 (t.marked scanned) >>= _) =
          Except.map _ (constructObject doc pair.2 t >>= _)
        rw [constructObject_marked]
        cases constructObject doc pair.2 t with
        | error e => rfl
        | ok second => exact ih _ _

theorem safeConstructMapping_marked (fuel : Nat) (node : ι) :
    safeConstructMapping doc fuel node (s.marked scanned) =
      (safeConstructMapping doc fuel node s).map (Prod.map id (Loader.marked scanned)) := by
  unfold safeConstructMapping
  show (flattenMapping doc fuel node [] s.value >>= _) = _
  cases flattenMapping doc fuel node [] s.value with
  | error e => rfl
  | ok value => exact constructPairs_marked scanned { s with value } node (value node) []

end

/-! ## A mapping -/

/-- A dict that is made has no key without a value, nor has what was merged into it. -/
theorem keyed_of_safeConstructMapping [BEq κ] {fuel : Nat} {node : ι} {s : Loader ι κ}
    {result : Dict ι κ × Loader ι κ} (h : safeConstructMapping doc fuel node s = .ok result) :
    Keyed doc s.value node := by
  obtain ⟨value, hflat, hpairs⟩ := bind_eq_ok.mp h
  intro source hreaches pair hpair hplain
  exact key_of_constructPairs hpairs pair
    ((flattenMapping_spec hflat).gathered source hreaches pair hpair hplain)

section

variable [Fintype ι] [BEq κ] {fuel : Nat} {node : ι} {s : Loader ι κ}
  {result : Dict ι κ × Loader ι κ}

/-- A scan ends, and rewrites nothing. -/
theorem refuseRepeatedKeys_value (hfuel : doc.enough ≤ fuel) :
    Ends (fun t => t.value = s.value) (· ≠ .unfinished)
      (refuseRepeatedKeys doc fuel ∅ node s) := by
  have hcard : Fintype.card ι < fuel + (∅ : Finset ι).card := by
    unfold Document.enough at hfuel
    omega
  refine refuseRepeatedKeys_keeps (fun other t ht => ?_) (fun _ _ ht => ht) hcard rfl
  rw [← ht]
  unfold Loader.start
  split <;> rfl

/-- The strict loader makes the dict of a mapping that passed its scan, as the safe one does. -/
theorem strictConstructMapping_eq_ok (hfuel : doc.enough ≤ fuel) (hscanning : Scanning doc ∅ s)
    (h : strictConstructMapping doc fuel node s = .ok result) :
    ∃ t, Scanned doc ∅ s t ∧ node ∈ t.scanned ∧
      safeConstructMapping doc fuel node t = .ok result := by
  obtain ⟨t, hrefuse, hsafe⟩ := bind_eq_ok.mp h
  have hkeyed : Keyed doc s.value node := by
    rw [← (refuseRepeatedKeys_value hfuel).of_eq_ok hrefuse]
    exact keyed_of_safeConstructMapping hsafe
  obtain ⟨hscanned, hmem, _⟩ :=
    (refuseRepeatedKeys_outermost fuel hkeyed hscanning).of_eq_ok hrefuse
  exact ⟨t, hscanned, hmem, hsafe⟩

/-- The dict of a mapping that is not flawed is the same, whichever of the loaders makes it. -/
theorem strictConstructMapping_iff (hfuel : doc.enough ≤ fuel) (hscanning : Scanning doc ∅ s)
    (hflawless : ¬ Flawed doc node) {scanned : Finset ι} :
    safeConstructMapping doc fuel node (s.marked scanned) = .ok result ↔
      ∃ t, strictConstructMapping doc fuel node s = .ok (result.1, t) ∧
        t.marked scanned = result.2 := by
  have hagain : ∀ t, Scanned doc ∅ s t → safeConstructMapping doc fuel node (s.marked scanned) =
      (safeConstructMapping doc fuel node t).map (Prod.map id (Loader.marked scanned)) := by
    intro t hscanned
    rw [← safeConstructMapping_marked, hscanned.marked]
    rfl
  constructor
  · intro h
    have hkeyed : Keyed doc s.value node :=
      keyed_of_safeConstructMapping (s := s.marked scanned) h
    have hscan := refuseRepeatedKeys_outermost fuel hkeyed hscanning
    cases hrefuse : refuseRepeatedKeys doc fuel ∅ node s with
    | error e =>
      rcases hscan.of_eq_error hrefuse with heq | hflawed
      · exact absurd heq ((refuseRepeatedKeys_value hfuel).of_eq_error hrefuse)
      · exact absurd hflawed hflawless
    | ok t =>
      have hstrict : strictConstructMapping doc fuel node s =
          safeConstructMapping doc fuel node t := by
        unfold strictConstructMapping
        rw [hrefuse]
        rfl
      rw [hagain t (hscan.of_eq_ok hrefuse).1] at h
      rw [hstrict]
      cases hsafe : safeConstructMapping doc fuel node t with
      | error e =>
        rw [hsafe] at h
        cases h
      | ok made =>
        rw [hsafe] at h
        cases h
        exact ⟨made.2, rfl, rfl⟩
  · rintro ⟨t, hstrict, hmarked⟩
    obtain ⟨u, hscanned, _, hsafe⟩ := strictConstructMapping_eq_ok hfuel hscanning hstrict
    rw [hagain u hscanned, hsafe]
    show Except.ok (result.1, t.marked scanned) = _
    rw [hmarked]

end

/-! ## A step of a load -/

section

variable {constructMapping : ι → Loader ι κ → Attempt ι κ ε (Dict ι κ × Loader ι κ)}
  {rounds : Nat} {node : ι} {s : Loader ι κ}

theorem resumeAll_nil (h : s.generators = []) :
    resumeAll doc constructMapping (rounds + 1) s = .ok s := by
  rw [resumeAll, h]

theorem resumeAll_cons {rest : List ι} (h : s.generators = node :: rest) :
    resumeAll doc constructMapping (rounds + 1) s =
      resume doc constructMapping node { s with generators := rest } >>=
        resumeAll doc constructMapping rounds := by
  rw [resumeAll, h]

end

section

variable [BEq κ] [Fintype ι] {fuel : Nat} {node : ι} {s s' : Loader ι κ}

/-- The dict of a mapping that waits is filled. -/
theorem strictConstructMapping_began (hfuel : doc.enough ≤ fuel) (h : Underway doc [node] s)
    (hheld : Held doc node) (hitems : doc.items node = []) {result : Dict ι κ × Loader ι κ}
    (hok : strictConstructMapping doc fuel node s = .ok result) : Began doc [] [] s result.2 := by
  obtain ⟨t, hscanned, hmem, hsafe⟩ := strictConstructMapping_eq_ok hfuel h.scanning hok
  obtain ⟨value, hflat, hpairs⟩ := bind_eq_ok.mp hsafe
  have hscan := h.scan hscanned
  have hpassed : Passed doc node := hscanned.passed node hmem (Finset.notMem_empty _)
  have hcompleted := flattenMapping_completed hpassed (fun other _ => hscan.proper other) hflat
  have hvalues : ∀ pair ∈ value node, Held doc pair.2 := by
    intro pair hpair
    obtain ⟨hplain, source, hreaches, hwritten⟩ := (hcompleted.whole pair).mp hpair
    exact hheld.tail (.value hreaches hwritten hplain)
  have hkeyed : Keyed doc doc.pairs node := fun source hreaches pair hpair hplain =>
    key_of_constructPairs hpairs pair
      ((hcompleted.whole pair).mpr ⟨hplain, source, hreaches, hpair⟩)
  have hbegan := constructPairs_began (hscan.flatten hmem hcompleted) hvalues hpairs
  have hsame : t.constructed = s.constructed := by
    rw [hscanned.marked]
    rfl
  refine .of_grown (hbegan.settle (hbegan.filled_of_holds hpassed hkeyed fun part hholds => ?_))
    (hsame ▸ hbegan.grown)
  cases hholds with
  | item hitem =>
    rw [hitems] at hitem
    exact absurd hitem List.not_mem_nil
  | @value source key reached written plain =>
    exact List.mem_map.mpr
      ⟨(key, part), (hcompleted.whole _).mpr ⟨plain, source, reached, written⟩, rfl⟩

/-- A list or dict that waits is filled. -/
theorem resume_began (hfuel : doc.enough ≤ fuel) (h : Underway doc [node] s)
    (hheld : Held doc node)
    (hok : resume doc (strictConstructMapping doc fuel) node s = .ok s') :
    Began doc [] [] s s' := by
  unfold resume at hok
  split at hok
  · next items hnode =>
    obtain ⟨result, hresult, hok⟩ := bind_eq_ok.mp hok
    cases hok
    have hitems : doc.items node = items := by rw [Document.items, hnode]
    have hpairs : doc.pairs node = [] := by rw [Document.pairs, hnode]
    have hbegan := constructSequence_began h
      (fun item hitem => hheld.tail (.item (hitems ▸ hitem))) hresult
    have hfilled := hbegan.filled_of_holds (passed_of_pairs_eq_nil hpairs)
      (keyed_of_pairs_eq_nil hpairs) fun part hholds => hitems ▸ hholds.mem_items hpairs
    exact .of_grown ((hbegan.settle hfilled).fill _) hbegan.grown
  · next hnode =>
    obtain ⟨result, hresult, hok⟩ := bind_eq_ok.mp hok
    cases hok
    have hitems : doc.items node = [] := by rw [Document.items, hnode]
    have hbegan := strictConstructMapping_began hfuel h hheld hitems hresult
    exact .of_grown (hbegan.fill _) hbegan.grown
  · next hsequence hmapping =>
    cases hok
    have hobject : doc.isObject node = false := by
      unfold Document.isObject
      split
      · next hnode => exact (hsequence _ hnode).elim
      · next hnode => exact (hmapping _ hnode).elim
      · rfl
    have hpairs := pairs_of_not_isObject hobject
    refine .refl (h.settle ⟨passed_of_pairs_eq_nil hpairs, keyed_of_pairs_eq_nil hpairs, ?_⟩)
    exact fun part hholds => absurd hholds.isObject (Bool.eq_false_iff.mp hobject)

/-- A strict load that does not raise goes on until nothing waits. -/
theorem resumeAll_began (hfuel : doc.enough ≤ fuel) {rounds : Nat} (h : Underway doc [] s)
    (hok : resumeAll doc (strictConstructMapping doc fuel) rounds s = .ok s') :
    Began doc [] [] s s' ∧ s'.generators = [] := by
  induction rounds generalizing s with
  | zero => cases hok
  | succ rounds ih =>
    cases hgenerators : s.generators with
    | nil =>
      rw [resumeAll_nil hgenerators] at hok
      cases hok
      exact ⟨.refl h, hgenerators⟩
    | cons node rest =>
      rw [resumeAll_cons hgenerators] at hok
      obtain ⟨t, ht, hok⟩ := bind_eq_ok.mp hok
      obtain ⟨hnow, hheld⟩ := h.next hgenerators
      have hfirst := resume_began hfuel hnow hheld ht
      obtain ⟨hlater, hdone⟩ := ih hfirst.toUnderway hok
      exact ⟨.of_grown hlater.toUnderway (hfirst.grown.trans hlater.grown), hdone⟩

/-! ## Both loaders -/

/-- A list or dict that is not flawed is filled in the same way by both loaders. -/
theorem resume_iff (hfuel : doc.enough ≤ fuel) (hscanning : Scanning doc ∅ s)
    (hflawless : ¬ Flawed doc node) {scanned : Finset ι} :
    resume doc (safeConstructMapping doc fuel) node (s.marked scanned) = .ok s' ↔
      ∃ t, resume doc (strictConstructMapping doc fuel) node s = .ok t ∧ t.marked scanned = s' := by
  unfold resume
  split
  · rw [constructSequence_marked]
    cases constructSequence doc _ s with
    | error e =>
      constructor
      · intro h
        cases h
      · rintro ⟨t, ht, _⟩
        cases ht
    | ok result =>
      constructor
      · intro h
        exact ⟨_, rfl, Except.ok.inj h⟩
      · rintro ⟨t, ht, rfl⟩
        cases ht
        rfl
  · constructor
    · intro h
      obtain ⟨result, hresult, h⟩ := bind_eq_ok.mp h
      obtain ⟨t, ht, hmarked⟩ :=
        (strictConstructMapping_iff hfuel hscanning hflawless).mp hresult
      refine ⟨_, bind_eq_ok.mpr ⟨_, ht, rfl⟩, ?_⟩
      rw [← Except.ok.inj h, ← hmarked]
      rfl
    · rintro ⟨t, h, rfl⟩
      obtain ⟨result, hresult, h⟩ := bind_eq_ok.mp h
      cases h
      exact bind_eq_ok.mpr ⟨(result.1, result.2.marked scanned),
        (strictConstructMapping_iff hfuel hscanning hflawless).mpr ⟨result.2, hresult, rfl⟩, rfl⟩
  · constructor
    · intro h
      exact ⟨s, rfl, Except.ok.inj h⟩
    · rintro ⟨t, ht, rfl⟩
      cases ht
      rfl

/-- Without a flawed mapping, both loaders go through the same steps to the same end. -/
theorem resumeAll_iff (hfuel : doc.enough ≤ fuel) (hclear : ¬ Ambiguous doc) (rounds : Nat)
    (h : Underway doc [] s) (scanned : Finset ι) (last : Loader ι κ) :
    resumeAll doc (safeConstructMapping doc fuel) rounds (s.marked scanned) = .ok last ↔
      ∃ t, resumeAll doc (strictConstructMapping doc fuel) rounds s = .ok t ∧
        t.marked scanned = last := by
  induction rounds generalizing s with
  | zero => simp [resumeAll]
  | succ rounds ih =>
    have hmarked : (s.marked scanned).generators = s.generators := rfl
    cases hgenerators : s.generators with
    | nil =>
      rw [resumeAll_nil hgenerators, resumeAll_nil (hmarked.trans hgenerators)]
      simp
    | cons node rest =>
      rw [resumeAll_cons hgenerators, resumeAll_cons (hmarked.trans hgenerators)]
      obtain ⟨hnow, hheld⟩ := h.next hgenerators
      have hflawless := not_flawed_of_held hclear hheld
      constructor
      · intro h
        obtain ⟨u, hu, h⟩ := bind_eq_ok.mp h
        obtain ⟨t, ht, rfl⟩ := (resume_iff hfuel hnow.scanning hflawless).mp hu
        obtain ⟨v, hv, heq⟩ := (ih (resume_began hfuel hnow hheld ht).toUnderway).mp h
        exact ⟨v, bind_eq_ok.mpr ⟨t, ht, hv⟩, heq⟩
      · rintro ⟨v, h, heq⟩
        obtain ⟨t, ht, hlast⟩ := bind_eq_ok.mp h
        exact bind_eq_ok.mpr ⟨t.marked scanned,
          (resume_iff hfuel hnow.scanning hflawless).mpr ⟨t, ht, rfl⟩,
          (ih (resume_began hfuel hnow hheld ht).toUnderway).mpr ⟨v, hlast, heq⟩⟩

omit [Fintype ι] in
/-- A load starts with its root begun, and nothing marked. -/
theorem constructObject_root {result : Datum ι κ × Loader ι κ}
    (h : constructObject doc doc.root ⟨doc.pairs, ∅, [], fun _ => none, ∅⟩ = .ok result) :
    Began doc [] [doc.root] ⟨doc.pairs, ∅, [], fun _ => none, ∅⟩ result.2 ∧
      result.2.marked ∅ = result.2 := by
  constructor
  · refine constructObject_began ?_ .refl h
    exact ⟨⟨fun _ _ => rfl, fun _ h => absurd h (Finset.notMem_empty _),
        fun _ h => absurd h (Finset.notMem_empty _)⟩, fun _ => .inl rfl,
      fun _ h => absurd h (Finset.notMem_empty _), fun _ h => absurd h List.not_mem_nil,
      fun _ h => absurd h (Finset.notMem_empty _)⟩
  · have hmarked := h.symm.trans
      (constructObject_marked ∅ ⟨doc.pairs, ∅, [], fun _ => none, ∅⟩ doc.root)
    rw [h] at hmarked
    exact (congrArg Prod.snd (Except.ok.inj hmarked)).symm

/-- What the strict loader loads is not ambiguous. -/
theorem not_ambiguous_of_strictLoad (hfuel : doc.enough ≤ fuel) {loaded : Loaded ι κ}
    (h : strictLoad doc fuel = .ok loaded) : ¬ Ambiguous doc := by
  obtain ⟨root, hroot, h⟩ := bind_eq_ok.mp h
  obtain ⟨last, hlast, _⟩ := bind_eq_ok.mp h
  obtain ⟨hbegan, _⟩ := constructObject_root hroot
  obtain ⟨hlater, hgenerators⟩ := resumeAll_began hfuel hbegan.toUnderway hlast
  have hbegun : doc.isObject doc.root = true → doc.root ∈ last.constructed :=
    fun hobject => hlater.grown (hbegan.begun doc.root List.mem_cons_self hobject)
  exact not_ambiguous_of_passed fun _ hheld => hlater.passed hgenerators hbegun hheld

/-- A document that is not ambiguous is loaded by both loaders, to the same value, or by neither. -/
theorem strictLoad_iff (hfuel : doc.enough ≤ fuel) (hclear : ¬ Ambiguous doc)
    {loaded : Loaded ι κ} :
    strictLoad doc fuel = .ok loaded ↔ safeLoad doc fuel = .ok loaded := by
  have hsame : ∀ root, constructObject doc doc.root ⟨doc.pairs, ∅, [], fun _ => none, ∅⟩ =
      .ok root → ∀ last, resumeAll doc (safeConstructMapping doc fuel) fuel root.2 = .ok last ↔
        ∃ t, resumeAll doc (strictConstructMapping doc fuel) fuel root.2 = .ok t ∧
          t.marked ∅ = last := by
    intro root hroot last
    obtain ⟨hbegan, hmarked⟩ := constructObject_root hroot
    have hiff := resumeAll_iff hfuel hclear fuel hbegan.toUnderway ∅ last
    rwa [hmarked] at hiff
  constructor
  · intro h
    obtain ⟨root, hroot, h⟩ := bind_eq_ok.mp h
    obtain ⟨last, hlast, h⟩ := bind_eq_ok.mp h
    cases h
    have hsafe := (hsame root hroot _).mpr ⟨last, hlast, rfl⟩
    exact bind_eq_ok.mpr ⟨root, hroot, bind_eq_ok.mpr ⟨_, hsafe, rfl⟩⟩
  · intro h
    obtain ⟨root, hroot, h⟩ := bind_eq_ok.mp h
    obtain ⟨last, hlast, h⟩ := bind_eq_ok.mp h
    cases h
    obtain ⟨t, ht, rfl⟩ := (hsame root hroot last).mp hlast
    exact bind_eq_ok.mpr ⟨root, hroot, bind_eq_ok.mpr ⟨t, ht, rfl⟩⟩

end

/-- The strict loader ends on every document. It raises on the ambiguous ones, and of the others it
loads those that the safe loader loads, to the same value, and no more. -/
theorem strictLoad_refuses_ambiguous [Fintype ι] [BEq κ] (doc : Document ι κ ε) (extra : Nat) :
    strictLoad doc (doc.enough + extra) ≠ .error .unfinished ∧
    safeLoad doc (doc.enough + extra) ≠ .error .unfinished ∧
    (Ambiguous doc → ∃ e, strictLoad doc (doc.enough + extra) = .error e) ∧
    (¬ Ambiguous doc → ∀ loaded, strictLoad doc (doc.enough + extra) = .ok loaded ↔
      safeLoad doc (doc.enough + extra) = .ok loaded) := by
  have hfuel : doc.enough ≤ doc.enough + extra := Nat.le_add_right _ _
  refine ⟨strictLoad_finishes hfuel, safeLoad_finishes hfuel, fun hambiguous => ?_,
    fun hclear loaded => strictLoad_iff hfuel hclear⟩
  cases hload : strictLoad doc (doc.enough + extra) with
  | error e => exact ⟨e, rfl⟩
  | ok loaded => exact absurd hambiguous (not_ambiguous_of_strictLoad hfuel hload)

/-- `{a: 2026-13-01, 0b_: 1}`. Neither the value of the first pair nor the key of the second can be
constructed. -/
def twoFaults : Document (Fin 5) String String where
  root := 0
  node
    | 0 => .mapping [(1, 2), (3, 4)]
    | _ => .scalar
  construct
    | 1 => .ok "a"
    | 2 => .error "month must be in 1..12"
    | 3 => .error "invalid literal for int() with base 2: ''"
    | _ => .ok "1"

/-- Nothing in it is ambiguous, and the loaders raise different exceptions. -/
theorem twoFaults_exceptions : ¬ Ambiguous twoFaults ∧
    strictLoad twoFaults twoFaults.enough ≠ safeLoad twoFaults twoFaults.enough := by
  constructor
  · have hdistinct : ∀ node, DistinctKeys twoFaults node := by
      unfold DistinctKeys
      decide
    have hmerges : ∀ node, twoFaults.merges (twoFaults.pairs node) ≤ 1 := by decide
    have hplain : ∀ node, twoFaults.isMerge node = false := by decide
    have hpassed : ∀ node, Passed twoFaults node := by
      refine fun node => .intro (hdistinct node) (hmerges node) ?_
      rintro source ⟨pair, _, hmerge, _⟩
      exact absurd ((hplain pair.1).symm.trans hmerge) Bool.false_ne_true
    rintro ⟨node, _, hfaulty⟩
    exact (hpassed node).not_faulty hfaulty
  · have henough : twoFaults.enough = 6 := by decide
    have hstrict : strictLoad twoFaults 6 =
        .error (.scalar "invalid literal for int() with base 2: ''") := rfl
    have hsafe : safeLoad twoFaults 6 = .error (.scalar "month must be in 1..12") := rfl
    rw [henough, hstrict, hsafe]
    simp

end MissionCompiler.Loading
