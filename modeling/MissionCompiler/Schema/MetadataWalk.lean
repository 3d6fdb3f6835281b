import MissionCompiler.Schema.Metadata

/-!
# The metadata walk and its specification

What one round of the walk does, and from it what the whole walk accepts: the values whose
unfolding is a tree of JSON values no deeper and no larger than the bounds. Each round uses up a
visit or shortens the stack, so the walk ends; each round keeps the path set the set of the nodes
above the next place.
-/

namespace MissionCompiler.Schema

open Lib

/-! ## What a round does -/

section

variable {ι : Type}

/-- The objects that reach JSON as what they are. -/
inductive Obj.IsJson : Obj ι → Prop
  | none : IsJson .none
  | bool : IsJson .bool
  | int : IsJson .int
  | float (text : String) : IsJson (.float true text)
  | str : IsJson .str
  | date : IsJson .date
  | datetime : IsJson .datetime
  | list (items : List ι) : IsJson (.list items)
  | dict (entries : List (DictKey × ι)) : IsJson (.dict entries)

/-- A dict is keyed by strings. -/
def Obj.StringKeys (o : Obj ι) : Prop :=
  ∀ entries, o = .dict entries → ∀ e ∈ entries, ∃ s, e.1 = .str s

theorem checkBounds_eq_ok {nodes depth : Nat} {place : List Subscript} :
    checkBounds nodes depth place = .ok () ↔
      nodes ≤ maxMetadataNodes ∧ depth ≤ maxMetadataDepth := by
  unfold checkBounds
  split
  · next h => exact iff_of_false (fun h' => nomatch h') fun h' => absurd h'.1 (Nat.not_le.mpr h)
  · next hnodes =>
    split
    · next h => exact iff_of_false (fun h' => nomatch h') fun h' => absurd h'.2 (Nat.not_le.mpr h)
    · next hdepth => exact iff_of_true rfl ⟨Nat.not_lt.mp hnodes, Nat.not_lt.mp hdepth⟩

theorem checkObj_eq_ok {place : List Subscript} {o : Obj ι} :
    checkObj place o = .ok () ↔ o.IsJson := by
  constructor
  · intro h
    cases o with
    | float finite text =>
      cases finite with
      | true => exact .float text
      | false => cases h
    | binary => cases h
    | set => cases h
    | other typeName => cases h
    | _ => constructor
  · intro h
    cases h <;> rfl

theorem checkKeys_eq_ok {place : List Subscript} {entries : List (DictKey × ι)} :
    checkKeys place entries = .ok () ↔ ∀ e ∈ entries, ∃ s, e.1 = .str s := by
  induction entries with
  | nil => exact iff_of_true rfl fun e he => absurd he List.not_mem_nil
  | cons e rest ih =>
    obtain ⟨key, value⟩ := e
    rw [List.forall_mem_cons, ← ih]
    cases key with
    | str s => exact ⟨fun h => ⟨⟨s, rfl⟩, h⟩, fun h => h.2⟩
    | bytes _ _ | other _ _ =>
      constructor
      · intro h
        cases h
      · intro ⟨⟨s, hs⟩, _⟩
        cases hs

theorem checkContainer_eq_ok {place : List Subscript} {o : Obj ι} :
    checkContainer place o = .ok () ↔ o.StringKeys := by
  cases o with
  | dict entries =>
    rw [checkContainer, checkKeys_eq_ok]
    constructor
    · intro h entries' heq
      cases heq
      exact h
    · intro h
      exact h entries rfl
  | _ =>
    apply iff_of_true rfl
    intro entries heq
    cases heq

/-- What is no container holds nothing. -/
theorem Obj.pairs_of_not_container {o : Obj ι} (h : o.isContainer = false) : o.pairs = [] := by
  cases o with
  | list items => cases h
  | dict entries => cases h
  | _ => rfl

variable [DecidableEq ι] {heap : Heap ι}

/-- The entry that takes a container off the path. -/
def StackEntry.leave (e : StackEntry ι) : StackEntry ι := { e with leaving := true }

/-- The checks an entry passes when it is visited. -/
structure Passes (heap : Heap ι) (e : StackEntry ι) (nodes : Nat) : Prop where
  nodes : nodes + 1 ≤ maxMetadataNodes
  depth : e.depth ≤ maxMetadataDepth
  value : (heap.obj e.node).IsJson

/-- A visit that ends well: of an object that holds nothing, or of a container that is not being
walked. -/
theorem visit_eq_ok {e : StackEntry ι} {rest : List (StackEntry ι)} {onPath : Finset ι}
    {nodes : Nat} {walk' : Walk ι} :
    visit heap e rest onPath nodes = .ok walk' ↔ Passes heap e nodes ∧
      ((heap.obj e.node).isContainer = false ∧ walk' = ⟨rest, onPath, nodes + 1⟩ ∨
        (heap.obj e.node).isContainer = true ∧ e.node ∉ onPath ∧ (heap.obj e.node).StringKeys ∧
          walk' = ⟨pushed e.place e.depth (heap.obj e.node).pairs ++ e.leave :: rest,
            insert e.node onPath, nodes + 1⟩) := by
  constructor
  · intro h
    obtain ⟨_, hbounds, h⟩ := bind_eq_ok.mp h
    obtain ⟨_, hobj, h⟩ := bind_eq_ok.mp h
    obtain ⟨hnodes, hdepth⟩ := checkBounds_eq_ok.mp hbounds
    refine ⟨⟨hnodes, hdepth, checkObj_eq_ok.mp hobj⟩, ?_⟩
    unfold descend at h
    split at h
    · next hcontainer =>
      unfold enter at h
      split at h
      · cases h
      · next hfresh =>
        obtain ⟨_, hkeys, h⟩ := bind_eq_ok.mp h
        exact .inr ⟨hcontainer, hfresh, checkContainer_eq_ok.mp hkeys, (Except.ok.inj h).symm⟩
    · next hcontainer =>
      exact .inl ⟨Bool.eq_false_iff.mpr hcontainer, (Except.ok.inj h).symm⟩
  · intro ⟨hpasses, hcases⟩
    apply bind_eq_ok.mpr
    refine ⟨(), checkBounds_eq_ok.mpr ⟨hpasses.nodes, hpasses.depth⟩, bind_eq_ok.mpr
      ⟨(), checkObj_eq_ok.mpr hpasses.value, ?_⟩⟩
    unfold descend
    rcases hcases with ⟨hcontainer, rfl⟩ | ⟨hcontainer, hfresh, hkeys, rfl⟩
    · rw [hcontainer]
      rfl
    · rw [hcontainer, if_pos rfl, enter, if_neg hfresh]
      exact bind_eq_ok.mpr ⟨(), checkContainer_eq_ok.mpr hkeys, rfl⟩

/-- A round that goes on: it leaves a container, or visits an object. -/
theorem next_cases {walk walk' : Walk ι} (h : next heap walk = .ok (some walk')) :
    ∃ e rest, walk.stack = e :: rest ∧
      (e.leaving = true ∧ walk' = ⟨rest, walk.onPath.erase e.node, walk.nodes⟩ ∨
        e.leaving = false ∧ visit heap e rest walk.onPath walk.nodes = .ok walk') := by
  unfold next at h
  split at h
  · cases h
  · next e rest hstack =>
    refine ⟨e, rest, hstack, ?_⟩
    split at h
    · next hleaving => exact .inl ⟨hleaving, (Option.some.inj (Except.ok.inj h)).symm⟩
    · next hleaving =>
      cases hvisit : visit heap e rest walk.onPath walk.nodes with
      | error refusal =>
        rw [hvisit] at h
        cases h
      | ok walk'' =>
        rw [hvisit] at h
        cases h
        exact .inr ⟨Bool.eq_false_iff.mpr hleaving, rfl⟩

theorem next_eq_none {walk : Walk ι} (h : next heap walk = .ok none) : walk.stack = [] := by
  unfold next at h
  split at h
  · assumption
  · split at h
    · cases h
    · next e rest _ _ =>
      cases hvisit : visit heap e rest walk.onPath walk.nodes with
      | error refusal =>
        rw [hvisit] at h
        cases h
      | ok walk' =>
        rw [hvisit] at h
        cases h

theorem next_eq_error {walk : Walk ι} {refusal : MetadataRefusal}
    (h : next heap walk = .error refusal) : ∃ e rest, walk.stack = e :: rest ∧
      e.leaving = false ∧ visit heap e rest walk.onPath walk.nodes = .error refusal := by
  unfold next at h
  split at h
  · cases h
  · next e rest hstack =>
    split at h
    · cases h
    · next hleaving =>
      refine ⟨e, rest, hstack, Bool.eq_false_iff.mpr hleaving, ?_⟩
      cases hvisit : visit heap e rest walk.onPath walk.nodes with
      | error refusal' =>
        rw [hvisit] at h
        exact congrArg _ (Except.error.inj h)
      | ok walk' =>
        rw [hvisit] at h
        cases h

/-- A round uses up one of the objects the walk may visit, or shortens the stack. -/
theorem next_decreases {walk walk' : Walk ι} (h : next heap walk = .ok (some walk')) :
    Prod.Lex (· < ·) (· < ·) (maxMetadataNodes - walk'.nodes, walk'.stack.length)
      (maxMetadataNodes - walk.nodes, walk.stack.length) := by
  obtain ⟨e, rest, hstack, ⟨_, rfl⟩ | ⟨_, hvisit⟩⟩ := next_cases h
  · rw [hstack]
    exact .right _ (Nat.lt_succ_self _)
  · obtain ⟨hpasses, hcases⟩ := visit_eq_ok.mp hvisit
    have hnodes : walk'.nodes = walk.nodes + 1 := by
      rcases hcases with ⟨_, rfl⟩ | ⟨_, _, _, rfl⟩ <;> rfl
    have hbound := hpasses.nodes
    apply Prod.Lex.left
    rw [hnodes]
    omega

/-! ## The whole walk -/

/-- The loop from some round on. -/
def walkFrom (heap : Heap ι) (walk : Walk ι) : Except MetadataRefusal Unit :=
  match _ : next heap walk with
  | .error refusal => .error refusal
  | .ok none => .ok ()
  | .ok (some walk') => walkFrom heap walk'
termination_by (maxMetadataNodes - walk.nodes, walk.stack.length)
decreasing_by exact next_decreases ‹_›

/-- `_serialisable_metadata`, which returns the value it was given. -/
def serialisableMetadata (heap : Heap ι) (root : ι) : Except MetadataRefusal ι := do
  walkFrom heap (.start root)
  return root

/-! ## The specification -/

/-- What a container holds, by its subscripts. -/
def Heap.edges (heap : Heap ι) (n : ι) : List (Subscript × ι) := (heap.obj n).pairs

/-- A value the policy engines can be handed as JSON: a finite tree of JSON values, within the two
bounds. A node is counted once for each of its places. -/
structure Serialisable (heap : Heap ι) (root : ι) : Prop where
  acyclic : ∀ n, Relation.ReflTransGen (Child heap.edges) root n →
    ¬ Relation.TransGen (Child heap.edges) n n
  value : ∀ n, Relation.ReflTransGen (Child heap.edges) root n → (heap.obj n).IsJson
  keys : ∀ n, Relation.ReflTransGen (Child heap.edges) root n → (heap.obj n).StringKeys
  depth : ∀ path ∈ unfolding heap.edges root, path.length ≤ maxMetadataDepth
  size : (unfolding heap.edges root).encard ≤ maxMetadataNodes

omit [DecidableEq ι] in
theorem Heap.nodup_edges (heap : Heap ι) (n : ι) : ((heap.edges n).map Prod.fst).Nodup := by
  unfold Heap.edges
  cases hobj : heap.obj n with
  | dict entries =>
    have hnodup := heap.keys_nodup n entries hobj
    rw [Obj.pairs, List.map_map]
    have hkeys : entries.map (Prod.fst ∘ fun e => (Subscript.key e.1, e.2)) =
        (entries.map Prod.fst).map Subscript.key := by
      rw [List.map_map]
      rfl
    rw [hkeys]
    exact hnodup.map fun a b h => Subscript.key.inj h
  | list items =>
    rw [Obj.pairs, List.map_map]
    have hkeys : items.zipIdx.map (Prod.fst ∘ fun e => (Subscript.index e.2, e.1)) =
        (List.range items.length).map Subscript.index := by
      rw [List.range_eq_range', ← List.zipIdx_map_snd 0 items, List.map_map]
      rfl
    rw [hkeys]
    exact List.nodup_range.map fun a b h => Subscript.index.inj h
  | _ => exact List.nodup_nil

/-- What is still to be visited below an entry: nothing, once it is left. -/
noncomputable def StackEntry.weight (heap : Heap ι) (e : StackEntry ι) : ℕ∞ :=
  if e.leaving then 0 else (unfolding heap.edges e.node).encard

/-- The places still to be visited. -/
noncomputable def pending (heap : Heap ι) (stack : List (StackEntry ι)) : ℕ∞ :=
  (stack.map (StackEntry.weight heap)).sum

omit [DecidableEq ι] in
theorem pending_append (stack stack' : List (StackEntry ι)) :
    pending heap (stack ++ stack') = pending heap stack + pending heap stack' := by
  rw [pending, List.map_append, List.sum_append]
  rfl

omit [DecidableEq ι] in
/-- A visited object leaves its place and passes on the places below it. -/
theorem pending_pushed (heap : Heap ι) (place : List Subscript) (depth : Nat) (n : ι) :
    pending heap (pushed place depth (heap.edges n)) + 1 = (unfolding heap.edges n).encard := by
  rw [encard_unfolding (heap.nodup_edges n), pending, pushed, List.map_reverse, List.map_map,
    List.sum_reverse]
  rfl

/-! ## What is accepted -/

/-- An object that may stand at a depth. -/
structure Fit (heap : Heap ι) (n : ι) (depth : Nat) : Prop where
  value : (heap.obj n).IsJson
  keys : (heap.obj n).StringKeys
  depth : depth ≤ maxMetadataDepth

/-- Everything below the entries that are still to be visited is fit for its depth. -/
def AllFit (heap : Heap ι) (stack : List (StackEntry ι)) : Prop :=
  ∀ e ∈ stack, e.leaving = false → ∀ path n, At heap.edges e.node path n →
    Fit heap n (e.depth + path.length)

omit [DecidableEq ι] in
theorem mem_pushed {place : List Subscript} {depth : Nat} {pairs : List (Subscript × ι)}
    {e : StackEntry ι} : e ∈ pushed place depth pairs ↔
      ∃ k m, (k, m) ∈ pairs ∧ e = ⟨m, place ++ [k], depth + 1, false⟩ := by
  rw [pushed, List.mem_reverse, List.mem_map]
  constructor
  · intro ⟨pair, hpair, heq⟩
    exact ⟨pair.1, pair.2, hpair, heq.symm⟩
  · intro ⟨k, m, hpair, heq⟩
    exact ⟨(k, m), hpair, heq.symm⟩

omit [DecidableEq ι] in
/-- An entry and what it pushes: what is below the one is the object itself and what is below the
others. -/
theorem allFit_cons {e : StackEntry ι} {rest : List (StackEntry ι)} (he : e.leaving = false) :
    AllFit heap (e :: rest) ↔ Fit heap e.node e.depth ∧
      AllFit heap (pushed e.place e.depth (heap.edges e.node)) ∧ AllFit heap rest := by
  constructor
  · intro h
    refine ⟨h e List.mem_cons_self he [] e.node (.here _), ?_, fun e' he' => ?_⟩
    · intro child hchild _ path n hat
      obtain ⟨k, m, hedge, rfl⟩ := mem_pushed.mp hchild
      have hfit := h e List.mem_cons_self he (k :: path) n (.down hedge hat)
      rw [List.length_cons] at hfit
      rw [Nat.add_assoc, Nat.add_comm 1]
      exact hfit
    · exact h e' (List.mem_cons_of_mem e he')
  · intro ⟨hself, hchildren, hrest⟩ e' he' hvisit path n hat
    rcases List.mem_cons.mp he' with rfl | he'
    · cases path with
      | nil =>
        rw [At.nil_iff.mp hat]
        exact hself
      | cons k path =>
        obtain ⟨m, hedge, hat⟩ := At.cons_iff.mp hat
        have hfit := hchildren _ (mem_pushed.mpr ⟨k, m, hedge, rfl⟩) rfl path n hat
        rw [Nat.add_assoc, Nat.add_comm 1] at hfit
        exact hfit
    · exact hrest e' he' hvisit path n hat

omit [DecidableEq ι] in
theorem allFit_append {stack stack' : List (StackEntry ι)} :
    AllFit heap (stack ++ stack') ↔ AllFit heap stack ∧ AllFit heap stack' := by
  constructor
  · intro h
    exact ⟨fun e he => h e (List.mem_append_left _ he),
      fun e he => h e (List.mem_append_right _ he)⟩
  · intro ⟨h, h'⟩ e he
    exact (List.mem_append.mp he).elim (h e) (h' e)

omit [DecidableEq ι] in
theorem allFit_leaving {e : StackEntry ι} {rest : List (StackEntry ι)} (he : e.leaving = true) :
    AllFit heap (e :: rest) ↔ AllFit heap rest := by
  constructor
  · intro h e' he'
    exact h e' (List.mem_cons_of_mem e he')
  · intro h e' he' hvisit
    rcases List.mem_cons.mp he' with rfl | he'
    · rw [he] at hvisit
      cases hvisit
    · exact h e' he' hvisit

/-- A visit that ends well: the object passed every check, and what it holds is on the stack. -/
theorem visited_stack {e : StackEntry ι} {rest : List (StackEntry ι)} {onPath : Finset ι}
    {nodes : Nat} {walk' : Walk ι} (h : visit heap e rest onPath nodes = .ok walk') :
    nodes + 1 ≤ maxMetadataNodes ∧ walk'.nodes = nodes + 1 ∧ Fit heap e.node e.depth ∧
      ∃ tail, walk'.stack = pushed e.place e.depth (heap.edges e.node) ++ tail ∧
        (tail = rest ∨ tail = e.leave :: rest) := by
  obtain ⟨hpasses, ⟨hcontainer, rfl⟩ | ⟨_, _, hkeys, rfl⟩⟩ := visit_eq_ok.mp h
  · refine ⟨hpasses.nodes, rfl, ⟨hpasses.value, ?_, hpasses.depth⟩, rest, ?_, .inl rfl⟩
    · intro entries hobj
      rw [hobj] at hcontainer
      cases hcontainer
    · rw [Heap.edges, Obj.pairs_of_not_container hcontainer]
      rfl
  · exact ⟨hpasses.nodes, rfl, ⟨hpasses.value, hkeys, hpasses.depth⟩, _, rfl, .inr rfl⟩

omit [DecidableEq ι] in
theorem pending_leaving {e : StackEntry ι} {rest : List (StackEntry ι)} (he : e.leaving = true) :
    pending heap (e :: rest) = pending heap rest := by
  rw [pending, List.map_cons, List.sum_cons, StackEntry.weight, if_pos he, zero_add]
  rfl

omit [DecidableEq ι] in
theorem pending_visiting {e : StackEntry ι} {rest : List (StackEntry ι)} (he : e.leaving = false) :
    pending heap (e :: rest) = (unfolding heap.edges e.node).encard + pending heap rest := by
  rw [pending, List.map_cons, List.sum_cons, StackEntry.weight, he]
  rfl

/-- What a round does to the two things the specification bounds: what is fit stays fit, both
ways, and the visits made and to be made are as many as before. -/
theorem next_spec {walk walk' : Walk ι} (h : next heap walk = .ok (some walk')) :
    (AllFit heap walk'.stack ↔ AllFit heap walk.stack) ∧
      walk'.nodes + pending heap walk'.stack = walk.nodes + pending heap walk.stack ∧
      (walk.nodes ≤ maxMetadataNodes → walk'.nodes ≤ maxMetadataNodes) := by
  obtain ⟨e, rest, hstack, ⟨hleaving, rfl⟩ | ⟨hvisiting, hvisit⟩⟩ := next_cases h
  · rw [hstack, pending_leaving hleaving]
    exact ⟨(allFit_leaving hleaving).symm, rfl, id⟩
  · obtain ⟨hnodes, hnodes', hfit, tail, hstack', htail⟩ := visited_stack hvisit
    have htailFit : AllFit heap tail ↔ AllFit heap rest := by
      rcases htail with rfl | rfl
      · exact Iff.rfl
      · exact allFit_leaving rfl
    have htailPending : pending heap tail = pending heap rest := by
      rcases htail with rfl | rfl
      · rfl
      · exact pending_leaving rfl
    rw [hstack', hstack, hnodes', allFit_append, allFit_cons hvisiting, pending_append,
      pending_visiting hvisiting, ← pending_pushed heap e.place e.depth, htailFit, htailPending]
    refine ⟨⟨fun h => ⟨hfit, h⟩, fun h => h.2⟩, ?_, fun _ => hnodes⟩
    rw [Nat.cast_add, Nat.cast_one]
    ac_rfl

/-- A walk that ends well found everything fit, and made no more visits than it may. -/
theorem walkFrom_accepts {walk : Walk ι} (h : walkFrom heap walk = .ok ())
    (hnodes : walk.nodes ≤ maxMetadataNodes) :
    AllFit heap walk.stack ∧ walk.nodes + pending heap walk.stack ≤ maxMetadataNodes := by
  induction walk using walkFrom.induct heap with
  | case1 walk refusal hnext =>
    rw [walkFrom, hnext] at h
    cases h
  | case2 walk hnext =>
    rw [next_eq_none hnext]
    refine ⟨fun e he => absurd he List.not_mem_nil, ?_⟩
    rw [pending, List.map_nil, List.sum_nil, add_zero]
    exact_mod_cast hnodes
  | case3 walk walk' hnext ih =>
    obtain ⟨hfit, hcount, hbound⟩ := next_spec hnext
    rw [walkFrom, hnext] at h
    rw [← hfit, ← hcount]
    exact ih h (hbound hnodes)

/-! ## The path -/

/-- A stack with the containers it is in, the nearest first: each entry is at a place below the
root whose nodes above are the containers of the entries that take them off below it. -/
inductive Open (heap : Heap ι) (root : ι) : List (StackEntry ι) → List ι → Prop
  | nil : Open heap root [] []
  | visit {place : List Subscript} {above : List ι} {n : ι} {stack : List (StackEntry ι)}
    (occurs : Occurs heap.edges root place above n) (rest : Open heap root stack above) :
    Open heap root (⟨n, place, place.length, false⟩ :: stack) above
  | leave {place : List Subscript} {above : List ι} {n : ι} {stack : List (StackEntry ι)}
    (occurs : Occurs heap.edges root place above n) (rest : Open heap root stack above) :
    Open heap root (⟨n, place, place.length, true⟩ :: stack) (n :: above)

/-- The path set holds the containers the stack is in. -/
def OnPath (heap : Heap ι) (root : ι) (walk : Walk ι) : Prop :=
  ∃ above, Open heap root walk.stack above ∧ above.Nodup ∧ ∀ n, n ∈ walk.onPath ↔ n ∈ above

omit [DecidableEq ι] in
theorem Open.append {root : ι} {above : List ι} {stack entries : List (StackEntry ι)}
    (h : Open heap root stack above) (hentries : ∀ e ∈ entries, e.leaving = false ∧
      e.depth = e.place.length ∧ Occurs heap.edges root e.place above e.node) :
    Open heap root (entries ++ stack) above := by
  induction entries with
  | nil => exact h
  | cons e entries ih =>
    obtain ⟨hleaving, hdepth, hoccurs⟩ := hentries e List.mem_cons_self
    have hrest := ih fun e' he' => hentries e' (List.mem_cons_of_mem e he')
    obtain ⟨n, place, depth, leaving⟩ := e
    obtain rfl : leaving = false := hleaving
    obtain rfl : depth = place.length := hdepth
    exact .visit hoccurs hrest

omit [DecidableEq ι] in
theorem onPath_start (heap : Heap ι) (root : ι) : OnPath heap root (.start root) :=
  ⟨[], .visit .root .nil, List.nodup_nil, fun n => by simp [Walk.start]⟩

/-- A round keeps the path set the set of the containers the stack is in. -/
theorem OnPath.next {root : ι} {walk walk' : Walk ι} (hpath : OnPath heap root walk)
    (h : next heap walk = .ok (some walk')) : OnPath heap root walk' := by
  obtain ⟨above, hopen, hnodup, hmem⟩ := hpath
  obtain ⟨e, rest, hstack, ⟨hleaving, rfl⟩ | ⟨hvisiting, hvisit⟩⟩ := next_cases h
  · rw [hstack] at hopen
    cases hopen with
    | visit occurs hrest => cases hleaving
    | @leave place above n _ occurs hrest =>
      obtain ⟨hfresh, hnodup⟩ := List.nodup_cons.mp hnodup
      refine ⟨above, hrest, hnodup, fun m => ?_⟩
      rw [Finset.mem_erase, hmem, List.mem_cons]
      constructor
      · intro ⟨hne, hor⟩
        exact hor.resolve_left hne
      · intro hm
        refine ⟨fun heq => hfresh ?_, .inr hm⟩
        obtain rfl : m = n := heq
        exact hm
  · rw [hstack] at hopen
    cases hopen with
    | leave occurs hrest => cases hvisiting
    | @visit place _ n _ occurs hrest =>
      obtain ⟨_, ⟨_, rfl⟩ | ⟨_, hfresh, _, rfl⟩⟩ := visit_eq_ok.mp hvisit
      · exact ⟨above, hrest, hnodup, hmem⟩
      · have hfresh : n ∉ above := fun hn => hfresh ((hmem n).mpr hn)
        refine ⟨n :: above, ?_, List.nodup_cons.mpr ⟨hfresh, hnodup⟩, fun m => ?_⟩
        · apply Open.append (Open.leave occurs hrest)
          intro child hchild
          obtain ⟨k, m, hedge, rfl⟩ := mem_pushed.mp hchild
          refine ⟨rfl, ?_, .child occurs hedge⟩
          rw [List.length_append]
          rfl
        · rw [Finset.mem_insert, hmem, List.mem_cons]

/-- The moments of a walk. -/
def Reached (heap : Heap ι) (root : ι) : Walk ι → Prop :=
  Relation.ReflTransGen (fun walk walk' => Schema.next heap walk = .ok (some walk')) (.start root)

theorem Reached.onPath {root : ι} {walk : Walk ι} (h : Reached heap root walk) :
    OnPath heap root walk := by
  induction h with
  | refl => exact onPath_start heap root
  | tail _ hnext ih => exact ih.next hnext

omit [DecidableEq ι] in
/-- What is about to be visited is at a place of the unfolding, and the path set is the set of the
nodes above it. -/
theorem OnPath.visiting {root : ι} {walk : Walk ι} (h : OnPath heap root walk)
    {e : StackEntry ι} {rest : List (StackEntry ι)} (hstack : walk.stack = e :: rest)
    (hvisiting : e.leaving = false) : ∃ above, Occurs heap.edges root e.place above e.node ∧
      ∀ n, n ∈ walk.onPath ↔ n ∈ above := by
  obtain ⟨above, hopen, _, hmem⟩ := h
  rw [hstack] at hopen
  cases hopen with
  | leave occurs hrest => cases hvisiting
  | visit occurs hrest => exact ⟨above, occurs, hmem⟩

/-! ## What is refused -/

omit [DecidableEq ι] in
theorem not_containsItself_of_checkContainer {o : Obj ι} {place place' : List Subscript} :
    checkContainer place o ≠ .error (.containsItself place') := by
  cases o with
  | dict entries =>
    show checkKeys place entries ≠ _
    induction entries with
    | nil =>
      intro h
      cases h
    | cons e rest ih =>
      obtain ⟨key, value⟩ := e
      cases key with
      | str s => exact ih
      | bytes _ _ | other _ _ =>
        intro h
        cases h
  | _ =>
    intro h
    cases h

/-- A visit is only refused as a cycle on the path. -/
theorem mem_onPath_of_containsItself {e : StackEntry ι} {rest : List (StackEntry ι)}
    {onPath : Finset ι} {nodes : Nat} {place : List Subscript}
    (h : visit heap e rest onPath nodes = .error (.containsItself place)) : e.node ∈ onPath := by
  rcases bind_eq_error.mp h with h | ⟨_, _, h⟩
  · unfold checkBounds at h
    split at h
    · cases h
    · split at h <;> cases h
  · rcases bind_eq_error.mp h with h | ⟨_, _, h⟩
    · unfold checkObj at h
      split at h <;> cases h
    · unfold descend at h
      split at h
      · unfold enter at h
        split at h
        · assumption
        · rcases bind_eq_error.mp h with h | ⟨_, _, h⟩
          · exact absurd h not_containsItself_of_checkContainer
          · cases h
      · cases h

/-- A visit of a fit object that is not below itself ends well, as long as there are visits
left. -/
theorem visit_total {root : ι} {walk : Walk ι} {e : StackEntry ι} {rest : List (StackEntry ι)}
    (hpath : OnPath heap root walk) (hstack : walk.stack = e :: rest)
    (hvisiting : e.leaving = false)
    (hfit : AllFit heap walk.stack)
    (hsize : walk.nodes + pending heap walk.stack ≤ maxMetadataNodes)
    (hacyclic : ∀ n, Relation.ReflTransGen (Child heap.edges) root n →
      ¬ Relation.TransGen (Child heap.edges) n n) :
    ∃ walk', visit heap e rest walk.onPath walk.nodes = .ok walk' := by
  obtain ⟨above, hoccurs, hmem⟩ := hpath.visiting hstack hvisiting
  rw [hstack] at hfit hsize
  have hself := ((allFit_cons hvisiting).mp hfit).1
  have hnodes : walk.nodes + 1 ≤ maxMetadataNodes := by
    rw [pending_visiting hvisiting, ← pending_pushed heap e.place e.depth] at hsize
    have hone : ((walk.nodes + 1 : ℕ) : ℕ∞) ≤ maxMetadataNodes := by
      refine le_trans ?_ hsize
      rw [Nat.cast_add, Nat.cast_one]
      gcongr
      exact le_trans le_add_self le_self_add
    exact_mod_cast hone
  have hfresh : e.node ∉ walk.onPath := by
    intro hon
    have hcycle := hoccurs.descends e.node ((hmem e.node).mp hon)
    exact hacyclic e.node (reaches_iff_at.mpr ⟨_, hoccurs.at⟩) hcycle
  have hpasses : Passes heap e walk.nodes := ⟨hnodes, hself.depth, hself.value⟩
  cases hcontainer : (heap.obj e.node).isContainer with
  | false => exact ⟨_, visit_eq_ok.mpr ⟨hpasses, .inl ⟨hcontainer, rfl⟩⟩⟩
  | true => exact ⟨_, visit_eq_ok.mpr ⟨hpasses, .inr ⟨hcontainer, hfresh, hself.keys, rfl⟩⟩⟩

/-- A walk of what is fit, free of cycles and not too large ends well. -/
theorem walkFrom_total {root : ι} {walk : Walk ι} (hpath : OnPath heap root walk)
    (hfit : AllFit heap walk.stack)
    (hsize : walk.nodes + pending heap walk.stack ≤ maxMetadataNodes)
    (hacyclic : ∀ n, Relation.ReflTransGen (Child heap.edges) root n →
      ¬ Relation.TransGen (Child heap.edges) n n) : walkFrom heap walk = .ok () := by
  induction walk using walkFrom.induct heap with
  | case1 walk refusal hnext =>
    obtain ⟨e, rest, hstack, hvisiting, hrefused⟩ := next_eq_error hnext
    obtain ⟨walk', hvisit⟩ := visit_total hpath hstack hvisiting hfit hsize hacyclic
    rw [hrefused] at hvisit
    cases hvisit
  | case2 walk hnext => rw [walkFrom, hnext]
  | case3 walk walk' hnext ih =>
    obtain ⟨hfit', hcount, _⟩ := next_spec hnext
    rw [walkFrom, hnext]
    exact ih (hpath.next hnext) (hfit'.mpr hfit) (hcount ▸ hsize)

/-- A walk that is refused as a cycle met one. -/
theorem cycle_of_containsItself {root : ι} {walk : Walk ι} {place : List Subscript}
    (hpath : OnPath heap root walk) (h : walkFrom heap walk = .error (.containsItself place)) :
    ∃ n, Relation.ReflTransGen (Child heap.edges) root n ∧
      Relation.TransGen (Child heap.edges) n n := by
  induction walk using walkFrom.induct heap with
  | case1 walk refusal hnext =>
    rw [walkFrom, hnext] at h
    obtain rfl := Except.error.inj h
    obtain ⟨e, rest, hstack, hvisiting, hrefused⟩ := next_eq_error hnext
    obtain ⟨above, hoccurs, hmem⟩ := hpath.visiting hstack hvisiting
    refine ⟨e.node, reaches_iff_at.mpr ⟨_, hoccurs.at⟩, hoccurs.descends e.node ?_⟩
    exact (hmem e.node).mp (mem_onPath_of_containsItself hrefused)
  | case2 walk hnext =>
    rw [walkFrom, hnext] at h
    cases h
  | case3 walk walk' hnext ih =>
    rw [walkFrom, hnext] at h
    exact ih (hpath.next hnext) h

/-! ## The specification of the walk -/

omit [DecidableEq ι] in
/-- Everything below a value is fit exactly when its values and keys are, and it is not too deep. -/
theorem allFit_start_iff {root : ι} : AllFit heap (Walk.start root).stack ↔
    (∀ n, Relation.ReflTransGen (Child heap.edges) root n →
      (heap.obj n).IsJson ∧ (heap.obj n).StringKeys) ∧
        ∀ path ∈ unfolding heap.edges root, path.length ≤ maxMetadataDepth := by
  constructor
  · intro h
    have hfit := h _ List.mem_cons_self rfl
    refine ⟨fun n hreaches => ?_, fun path hpath => ?_⟩
    · obtain ⟨path, hat⟩ := reaches_iff_at.mp hreaches
      exact ⟨(hfit path n hat).value, (hfit path n hat).keys⟩
    · obtain ⟨n, hat⟩ := hpath
      have hdepth := (hfit path n hat).depth
      rwa [Nat.zero_add] at hdepth
  · intro ⟨hobjects, hdepth⟩ e he _ path n hat
    obtain rfl := List.mem_singleton.mp he
    obtain ⟨hvalue, hkeys⟩ := hobjects n (reaches_iff_at.mpr ⟨path, hat⟩)
    refine ⟨hvalue, hkeys, ?_⟩
    rw [Nat.zero_add]
    exact hdepth path ⟨n, hat⟩

omit [DecidableEq ι] in
theorem pending_start (root : ι) : pending heap (Walk.start root).stack =
    (unfolding heap.edges root).encard := by
  rw [Walk.start, pending_visiting rfl, pending, List.map_nil, List.sum_nil, add_zero]

theorem serialisableMetadata_eq_ok {root : ι} :
    serialisableMetadata heap root = .ok root ↔ Serialisable heap root := by
  have hwalk : serialisableMetadata heap root = .ok root ↔
      walkFrom heap (.start root) = .ok () := by
    rw [serialisableMetadata, bind_eq_ok]
    constructor
    · intro ⟨_, h, _⟩
      exact h
    · intro h
      exact ⟨(), h, rfl⟩
  have hnone : ((Walk.start root).nodes : ℕ∞) = 0 := rfl
  rw [hwalk]
  constructor
  · intro h
    obtain ⟨hfit, hsize⟩ := walkFrom_accepts h (Nat.zero_le _)
    obtain ⟨hobjects, hdepth⟩ := allFit_start_iff.mp hfit
    rw [hnone, zero_add, pending_start] at hsize
    exact ⟨fun n hreaches => acyclic_of_bounded hdepth hreaches, fun n hn => (hobjects n hn).1,
      fun n hn => (hobjects n hn).2, hdepth, hsize⟩
  · intro h
    apply walkFrom_total (onPath_start heap root) _ _ h.acyclic
    · exact allFit_start_iff.mpr ⟨fun n hn => ⟨h.value n hn, h.keys n hn⟩, h.depth⟩
    · rw [hnone, zero_add, pending_start]
      exact h.size

/-- No run of the walk goes on for ever. -/
theorem next_terminates (run : ℕ → Walk ι) :
    ∃ i, next heap (run i) ≠ .ok (some (run (i + 1))) := by
  by_contra hforever
  push Not at hforever
  have hwf : WellFounded (Prod.Lex (· < ·) (· < ·) : ℕ × ℕ → ℕ × ℕ → Prop) :=
    WellFounded.prod_lex Nat.lt_wfRel.wf Nat.lt_wfRel.wf
  exact (wellFounded_iff_isEmpty_descending_chain.mp hwf).false
    ⟨fun i => (maxMetadataNodes - (run i).nodes, (run i).stack.length),
      fun i => next_decreases (hforever i)⟩

/-- The walk ends; it accepts the serialisable values and no others; whatever it visits, the path
set holds the nodes above it; and it refuses no value as a cycle that is none. -/
theorem serialisableMetadata_spec (heap : Heap ι) (root : ι) :
    (∀ run : ℕ → Walk ι, ∃ i, next heap (run i) ≠ .ok (some (run (i + 1)))) ∧
      (serialisableMetadata heap root = .ok root ↔ Serialisable heap root) ∧
      (∀ walk, Reached heap root walk → ∀ e rest, walk.stack = e :: rest → e.leaving = false →
        ∃ above, Occurs heap.edges root e.place above e.node ∧
          ∀ n, n ∈ walk.onPath ↔ n ∈ above) ∧
      ∀ place, serialisableMetadata heap root = .error (.containsItself place) →
        ∃ n, Relation.ReflTransGen (Child heap.edges) root n ∧
          Relation.TransGen (Child heap.edges) n n := by
  refine ⟨next_terminates, serialisableMetadata_eq_ok, fun walk hreached e rest hstack hvisiting =>
    hreached.onPath.visiting hstack hvisiting, fun place h => ?_⟩
  rcases bind_eq_error.mp h with h | ⟨_, _, h⟩
  · exact cycle_of_containsItself (onPath_start heap root) h
  · cases h

end

end MissionCompiler.Schema
