import Mathlib.Data.List.Nodup
import Mathlib.Logic.Function.Basic
import MissionCompiler.Lib.Session

/-!
# Clients of a lock

Processes that share a state, each beside a part of its own. A client works on its own part, asks
for the lock, works on both, and lets the lock go. However the steps of the clients interleave, the
shared state becomes what they make of it one after another, in the order in which they took the
lock (`Serialized`). Where nothing can lock, a client may go on without it.
-/

namespace Lib

/-! ## Processes -/

/-- A process ends with a result, or changes the state and goes on by what it saw of it. -/
inductive Proc (α ρ : Type) where
  | done (r : ρ)
  | step (act : α → α) (next : α → Proc α ρ)

namespace Proc

variable {α β ρ : Type}

/-- A process with nobody beside it. -/
def runAlone : Proc α ρ → α → ρ × α
  | done r, a => (r, a)
  | step act next, a => (next a).runAlone (act a)

/-- One process after another. -/
def bind : Proc α ρ → (ρ → Proc α β) → Proc α β
  | done r, f => f r
  | step act next, f => step act fun a => (next a).bind f

theorem bind_done (p : Proc α ρ) : p.bind done = p := by
  induction p with
  | done r => rfl
  | step act next ih => exact congrArg (step act) (funext ih)

theorem runAlone_bind (p : Proc α ρ) (f : ρ → Proc α β) (a : α) :
    (p.bind f).runAlone a = (f (p.runAlone a).1).runAlone (p.runAlone a).2 := by
  induction p generalizing a with
  | done r => rfl
  | step act next ih => exact ih a (act a)

/-! A session, carried out in steps. -/

section

variable {ν ε γ : Type} {view : α → ν}

/-- A process on the view of a state that comes, alone, to what a session does. -/
def CarriesOut (view : α → ν) (p : Proc ν (Except ε ρ)) (x : Session α ε ρ) : Prop :=
  ∀ s, p.runAlone (view s) = ((x s).1, view (x s).2)

/-- One session after another. -/
def andThen (p : Proc ν (Except ε ρ)) (q : ρ → Proc ν (Except ε γ)) : Proc ν (Except ε γ) :=
  p.bind fun
    | .ok a => q a
    | .error r => done (.error r)

theorem CarriesOut.andThen {p : Proc ν (Except ε ρ)} {x : Session α ε ρ}
    {q : ρ → Proc ν (Except ε γ)} {f : ρ → Session α ε γ} (hp : CarriesOut view p x)
    (hq : ∀ a, CarriesOut view (q a) (f a)) : CarriesOut view (p.andThen q) (x >>= f) := by
  intro s
  rw [Proc.andThen, runAlone_bind, hp s, Session.bind_apply]
  cases x s with
  | mk result t =>
    cases result with
    | ok a => exact hq a t
    | error r => rfl

open Classical in
/-- A session as a single step. -/
noncomputable def atOnce (view : α → ν) (x : Session α ε ρ) (unseen : Except ε ρ) :
    Proc ν (Except ε ρ) :=
  .step (fun v => if h : ∃ s, view s = v then view (x h.choose).2 else v)
    (fun v => .done (if h : ∃ s, view s = v then (x h.choose).1 else unseen))

theorem carriesOut_atOnce {x : Session α ε ρ}
    (hx : Session.Respects (fun s t => view s = view t) x) (unseen : Except ε ρ) :
    CarriesOut view (atOnce view x unseen) x := by
  intro s
  have h : ∃ t, view t = view s := ⟨s, rfl⟩
  obtain ⟨hresult, hview⟩ := hx _ _ h.choose_spec
  simp only [atOnce, runAlone, dif_pos h]
  exact Prod.ext hresult hview

end

end Proc

/-! ## Clients -/

/-- A client: what it does before it asks for the lock, under the lock, without one that it could
not take, and where nothing can lock. -/
structure Client (σ π κ ρ : Type) where
  before : Proc π (Except ρ κ)
  inside : κ → Proc (σ × π) ρ
  refused : ρ
  unlocked : κ → Proc (σ × π) ρ

inductive Phase (σ π κ ρ : Type) where
  | before (p : Proc π (Except ρ κ))
  | inside (p : Proc (σ × π) ρ)
  | after (r : ρ)

/-- The shared state, the holder of the lock, and where each client is. Kept for the record: what a
client last saw of the shared state, and the order in which clients went in. -/
structure System (ι σ π κ ρ : Type) where
  shared : σ
  holder : Option ι
  phase : ι → Phase σ π κ ρ
  own : ι → π
  seen : ι → σ
  order : List ι

variable {ι σ π κ ρ : Type}

/-- A client by itself, from some shared state on. -/
def Client.alone (client : Client σ π κ ρ) (own : π) (shared : σ) : ρ × σ :=
  match client.before.runAlone own with
  | (.error r, _) => (r, shared)
  | (.ok k, own) => (((client.inside k).runAlone (shared, own)).1,
      ((client.inside k).runAlone (shared, own)).2.1)

variable (clients : ι → Client σ π κ ρ)

/-- The clients one after another. -/
def serial (own : ι → π) (order : List ι) (shared : σ) : σ :=
  order.foldl (fun shared i => ((clients i).alone (own i) shared).2) shared

theorem serial_append_singleton (own : ι → π) (order : List ι) (i : ι) (shared : σ) :
    serial clients own (order ++ [i]) shared =
      ((clients i).alone (own i) (serial clients own order shared)).2 := by
  rw [serial, List.foldl_append]
  rfl

/-! ## Steps -/

section

variable [DecidableEq ι] (lockable : Bool)

/-- A step of a client. A client may be refused at any time: it waited too long, or it cannot open
the lock. -/
inductive Step (i : ι) : System ι σ π κ ρ → System ι σ π κ ρ → Prop
  | work {s : System ι σ π κ ρ} {act : π → π} {next : π → Proc π (Except ρ κ)}
      (here : s.phase i = .before (.step act next)) :
      Step i s { s with
        phase := Function.update s.phase i (.before (next (s.own i)))
        own := Function.update s.own i (act (s.own i)) }
  | stop {s : System ι σ π κ ρ} {r : ρ} (here : s.phase i = .before (.done (.error r))) :
      Step i s { s with phase := Function.update s.phase i (.after r) }
  | take {s : System ι σ π κ ρ} {k : κ} (here : s.phase i = .before (.done (.ok k)))
      (locks : lockable = true) (free : s.holder = none) :
      Step i s { s with
        holder := some i
        phase := Function.update s.phase i (.inside ((clients i).inside k))
        seen := Function.update s.seen i s.shared
        order := s.order ++ [i] }
  | refuse {s : System ι σ π κ ρ} {k : κ} (here : s.phase i = .before (.done (.ok k))) :
      Step i s { s with phase := Function.update s.phase i (.after (clients i).refused) }
  | skip {s : System ι σ π κ ρ} {k : κ} (here : s.phase i = .before (.done (.ok k)))
      (unlockable : lockable = false) :
      Step i s { s with
        phase := Function.update s.phase i (.inside ((clients i).unlocked k))
        seen := Function.update s.seen i s.shared
        order := s.order ++ [i] }
  | act {s : System ι σ π κ ρ} {act : σ × π → σ × π} {next : σ × π → Proc (σ × π) ρ}
      (here : s.phase i = .inside (.step act next)) :
      Step i s { s with
        shared := (act (s.shared, s.own i)).1
        phase := Function.update s.phase i (.inside (next (s.shared, s.own i)))
        own := Function.update s.own i (act (s.shared, s.own i)).2
        seen := Function.update s.seen i (act (s.shared, s.own i)).1 }
  | leave {s : System ι σ π κ ρ} {r : ρ} (here : s.phase i = .inside (.done r)) :
      Step i s { s with
        holder := if s.holder = some i then none else s.holder
        phase := Function.update s.phase i (.after r) }

/-- The clients before any step. -/
def System.start (own : ι → π) (shared : σ) : System ι σ π κ ρ where
  shared := shared
  holder := none
  phase i := .before (clients i).before
  own := own
  seen _ := shared
  order := []

/-- What a step did to the shared state, beside what its client last saw of it. -/
structure Change (ι σ : Type) where
  actor : ι
  saw : σ
  old : σ
  new : σ

/-- An interleaving of steps, with what each of them did to the shared state. -/
inductive Interleaving (s : System ι σ π κ ρ) :
    List (Change ι σ) → System ι σ π κ ρ → Prop
  | nil : Interleaving s [] s
  | snoc {changes : List (Change ι σ)} {t u : System ι σ π κ ρ} {i : ι}
      (steps : Interleaving s changes t) (step : Step clients lockable i t u) :
      Interleaving s (changes ++ [⟨i, t.seen i, t.shared, u.shared⟩]) u

end

/-- The first change of a client. -/
def FirstChange (changes : List (Change ι σ)) (c : Change ι σ) : Prop :=
  ∃ before after, changes = before ++ c :: after ∧ c.old ≠ c.new ∧
    ∀ b ∈ before, b.actor = c.actor → b.old = b.new

section

variable {clients} [DecidableEq ι] {lockable : Bool} {s t : System ι σ π κ ρ} {i : ι}

theorem Step.order_append (step : Step clients lockable i s t) :
    ∃ more, t.order = s.order ++ more := by
  cases step with
  | take here locks free => exact ⟨[i], rfl⟩
  | skip here unlockable => exact ⟨[i], rfl⟩
  | _ => exact ⟨[], (List.append_nil _).symm⟩

theorem Interleaving.mem_of_inside {own : ι → π} {shared : σ} {changes : List (Change ι σ)}
    (h : Interleaving clients lockable (System.start clients own shared) changes t)
    {p : Proc (σ × π) ρ} (here : t.phase i = .inside p) : i ∈ t.order := by
  induction h generalizing i p with
  | nil => cases here
  | @snoc changes s t j steps step ih =>
    by_cases hne : i = j
    · subst hne
      cases step with
      | take _ locks free => exact List.mem_append_right _ (List.mem_singleton_self i)
      | skip _ unlockable => exact List.mem_append_right _ (List.mem_singleton_self i)
      | act inside => exact ih inside
      | _ =>
        simp only [Function.update_self] at here
        cases here
    · obtain ⟨more, horder⟩ := step.order_append
      rw [horder]
      refine List.mem_append_left _ (ih (p := p) ?_)
      cases step <;> simpa only [Function.update_of_ne hne] using here

/-- A client that never went in changed nothing. -/
theorem Interleaving.outside {own : ι → π} {shared : σ} {changes : List (Change ι σ)}
    (h : Interleaving clients lockable (System.start clients own shared) changes t) :
    ∀ c ∈ changes, c.actor ∉ t.order → c.old = c.new := by
  induction h with
  | nil =>
    intro c hc
    exact absurd hc List.not_mem_nil
  | snoc steps step ih =>
    intro c hc hout
    obtain ⟨more, horder⟩ := step.order_append
    rw [horder] at hout
    have hbefore := fun hmem => hout (List.mem_append_left more hmem)
    rcases List.mem_append.mp hc with hc | hc
    · exact ih c hc hbefore
    · obtain rfl := List.mem_singleton.mp hc
      cases step with
      | act inside => exact absurd (steps.mem_of_inside inside) hbefore
      | _ => rfl

end

/-! ## Under a lock -/

section

variable (own₀ : ι → π) (shared₀ : σ)

/-- Where a client is, in terms of its run by itself at its turn. -/
def Client.Consistent (s : System ι σ π κ ρ) (i : ι) : Prop :=
  match s.phase i with
  | .before p => i ∉ s.order ∧ p.runAlone (s.own i) = (clients i).before.runAlone (own₀ i)
  | .inside p => s.holder = some i ∧ s.seen i = s.shared ∧ ∃ earlier, s.order = earlier ++ [i] ∧
      ((p.runAlone (s.shared, s.own i)).1, (p.runAlone (s.shared, s.own i)).2.1) =
        (clients i).alone (own₀ i) (serial clients own₀ earlier shared₀)
  | .after r => (∃ earlier later, s.order = earlier ++ i :: later ∧
      r = ((clients i).alone (own₀ i) (serial clients own₀ earlier shared₀)).1) ∨
    i ∉ s.order ∧ (r = (clients i).refused ∨ ((clients i).before.runAlone (own₀ i)).1 = .error r)

/-- The clients so far did what they do one after another. -/
structure Serialized (s : System ι σ π κ ρ) : Prop where
  client : ∀ i, Client.Consistent clients own₀ shared₀ s i
  holds : ∀ i, s.holder = some i → ∃ p, s.phase i = .inside p
  free : s.holder = none → s.shared = serial clients own₀ s.order shared₀

/-- The holder of the lock that has changed nothing yet has the shared state as it took it. -/
def Untouched (changes : List (Change ι σ)) (s : System ι σ π κ ρ) : Prop :=
  ∀ i, s.holder = some i → (∃ c ∈ changes, c.actor = i ∧ c.old ≠ c.new) ∨
    ∃ earlier, s.order = earlier ++ [i] ∧ s.shared = serial clients own₀ earlier shared₀

/-- A client that does nothing without the lock, where nothing can lock. -/
def Client.Idle (s : System ι σ π κ ρ) (i : ι) : Prop :=
  match s.phase i with
  | .before p => p.runAlone (s.own i) = (clients i).before.runAlone (own₀ i)
  | .inside p => p = .done (clients i).refused
  | .after r => r = (clients i).refused ∨ ((clients i).before.runAlone (own₀ i)).1 = .error r

variable {clients own₀ shared₀} {s t : System ι σ π κ ρ} {i j : ι}

theorem Client.Consistent.of_before {p : Proc π (Except ρ κ)}
    (h : Client.Consistent clients own₀ shared₀ s i) (here : s.phase i = .before p) :
    i ∉ s.order ∧ p.runAlone (s.own i) = (clients i).before.runAlone (own₀ i) := by
  unfold Client.Consistent at h
  rw [here] at h
  exact h

theorem Client.Consistent.of_inside {p : Proc (σ × π) ρ}
    (h : Client.Consistent clients own₀ shared₀ s i) (here : s.phase i = .inside p) :
    s.holder = some i ∧ s.seen i = s.shared ∧ ∃ earlier, s.order = earlier ++ [i] ∧
      ((p.runAlone (s.shared, s.own i)).1, (p.runAlone (s.shared, s.own i)).2.1) =
        (clients i).alone (own₀ i) (serial clients own₀ earlier shared₀) := by
  unfold Client.Consistent at h
  rw [here] at h
  exact h

/-- A client that is not under the lock is not concerned by those that are, nor by who takes the
lock after it. -/
theorem Client.Consistent.transfer (h : Client.Consistent clients own₀ shared₀ s j)
    (outside : ∀ p, s.phase j ≠ .inside p) (hphase : t.phase j = s.phase j)
    (hown : t.own j = s.own j) {more : List ι} (horder : t.order = s.order ++ more)
    (hmore : j ∉ more) : Client.Consistent clients own₀ shared₀ t j := by
  unfold Client.Consistent at h ⊢
  rw [hphase]
  cases hj : s.phase j with
  | before p =>
    rw [hj] at h
    rw [horder, hown]
    exact ⟨fun hmem => (List.mem_append.mp hmem).elim h.1 hmore, h.2⟩
  | inside p => exact absurd hj (outside p)
  | after r =>
    rw [hj] at h
    rcases h with ⟨earlier, later, heq, hresult⟩ | ⟨hout, hresult⟩
    · refine .inl ⟨earlier, later ++ more, ?_, hresult⟩
      rw [horder, heq, List.append_assoc]
      rfl
    · refine .inr ⟨fun hmem => ?_, hresult⟩
      rw [horder] at hmem
      exact (List.mem_append.mp hmem).elim hout hmore

/-- A step of another client outside the lock concerns nobody. -/
theorem Client.Consistent.congr (h : Client.Consistent clients own₀ shared₀ s j)
    (hphase : t.phase j = s.phase j) (hown : t.own j = s.own j) (hseen : t.seen j = s.seen j)
    (hshared : t.shared = s.shared) (hholder : t.holder = s.holder) (horder : t.order = s.order) :
    Client.Consistent clients own₀ shared₀ t j := by
  unfold Client.Consistent at h ⊢
  rw [hphase, hown, hseen, hshared, hholder, horder]
  exact h

section

variable [DecidableEq ι]

omit [DecidableEq ι] in
theorem Serialized.start :
    Serialized clients own₀ shared₀ (System.start clients own₀ shared₀) := by
  refine ⟨fun i => ?_, fun i hi => ?_, fun _ => rfl⟩
  · exact ⟨List.not_mem_nil, rfl⟩
  · cases hi

omit [DecidableEq ι] in
/-- The lock is free where nobody is under it, and a client that holds it is the only one. -/
theorem Serialized.outside (h : Serialized clients own₀ shared₀ s)
    (hholder : s.holder = none ∨ s.holder = some i) (hne : j ≠ i) (p : Proc (σ × π) ρ) :
    s.phase j ≠ .inside p := by
  intro hj
  have hholds := ((h.client j).of_inside hj).1
  rcases hholder with hnone | hsome
  · rw [hnone] at hholds
    cases hholds
  · rw [hsome] at hholds
    exact hne (Option.some.inj hholds).symm

/-- A step outside the lock. -/
theorem Serialized.aside (h : Serialized clients own₀ shared₀ s) (next : Phase σ π κ ρ) (own : π)
    (outside : ∀ p, s.phase i ≠ .inside p)
    (hi : Client.Consistent clients own₀ shared₀ { s with
      phase := Function.update s.phase i next
      own := Function.update s.own i own } i) :
    Serialized clients own₀ shared₀ { s with
      phase := Function.update s.phase i next
      own := Function.update s.own i own } := by
  refine ⟨fun j => ?_, fun j hj => ?_, h.free⟩
  · by_cases hne : j = i
    · rw [hne]
      exact hi
    · exact (h.client j).congr (Function.update_of_ne hne _ _) (Function.update_of_ne hne _ _) rfl
        rfl rfl rfl
  · obtain ⟨p, hp⟩ := h.holds j hj
    have hne : j ≠ i := by
      intro heq
      rw [heq] at hp
      exact outside p hp
    exact ⟨p, (Function.update_of_ne hne _ _).trans hp⟩

theorem Serialized.ends (h : Serialized clients own₀ shared₀ s) {r : ρ}
    (outside : ∀ p, s.phase i ≠ .inside p) (hout : i ∉ s.order)
    (hresult : r = (clients i).refused ∨ ((clients i).before.runAlone (own₀ i)).1 = .error r) :
    Serialized clients own₀ shared₀ { s with phase := Function.update s.phase i (.after r) } := by
  have haside := h.aside (.after r) (s.own i) outside (by
    unfold Client.Consistent
    simp only [Function.update_self]
    exact .inr ⟨hout, hresult⟩)
  rwa [Function.update_eq_self] at haside

/-- What one step keeps. -/
theorem Serialized.step (h : Serialized clients own₀ shared₀ s)
    (step : Step clients true i s t) : Serialized clients own₀ shared₀ t := by
  cases step with
  | @work act next here =>
    obtain ⟨hout, halone⟩ := (h.client i).of_before here
    apply h.aside
    · intro p hp
      rw [here] at hp
      cases hp
    · unfold Client.Consistent
      simp only [Function.update_self]
      exact ⟨hout, halone⟩
  | @stop r here =>
    obtain ⟨hout, halone⟩ := (h.client i).of_before here
    apply h.ends
    · intro p hp
      rw [here] at hp
      cases hp
    · exact hout
    · right
      rw [← halone]
      rfl
  | @take k here _ free =>
    obtain ⟨hout, halone⟩ := (h.client i).of_before here
    refine ⟨fun j => ?_, fun j hj => ?_, fun hnone => by cases hnone⟩
    · by_cases hne : j = i
      · subst hne
        unfold Client.Consistent
        simp only [Function.update_self]
        refine ⟨trivial, trivial, s.order, rfl, ?_⟩
        rw [Client.alone, ← halone, ← h.free free]
        rfl
      · refine (h.client j).transfer (h.outside (.inl free) hne) (Function.update_of_ne hne _ _) rfl
          rfl ?_
        simpa using hne
    · obtain rfl := Option.some.inj hj
      exact ⟨_, Function.update_self _ _ _⟩
  | @refuse k here =>
    obtain ⟨hout, _⟩ := (h.client i).of_before here
    apply h.ends
    · intro p hp
      rw [here] at hp
      cases hp
    · exact hout
    · exact .inl rfl
  | skip here unlockable => cases unlockable
  | @act act next here =>
    obtain ⟨hholder, _, earlier, horder, halone⟩ := (h.client i).of_inside here
    refine ⟨fun j => ?_, fun j hj => ?_, fun hnone => ?_⟩
    · by_cases hne : j = i
      · subst hne
        unfold Client.Consistent
        simp only [Function.update_self]
        exact ⟨hholder, trivial, earlier, horder, halone⟩
      · exact (h.client j).transfer (h.outside (.inr hholder) hne) (Function.update_of_ne hne _ _)
          (Function.update_of_ne hne _ _) (List.append_nil _).symm List.not_mem_nil
    · obtain rfl := Option.some.inj (hholder.symm.trans hj)
      exact ⟨_, Function.update_self _ _ _⟩
    · cases hholder.symm.trans hnone
  | @leave r here =>
    obtain ⟨hholder, _, earlier, horder, halone⟩ := (h.client i).of_inside here
    refine ⟨fun j => ?_, fun j hj => ?_, fun _ => ?_⟩
    · by_cases hne : j = i
      · subst hne
        unfold Client.Consistent
        simp only [Function.update_self]
        exact .inl ⟨earlier, [], horder, congrArg Prod.fst halone⟩
      · exact (h.client j).transfer (h.outside (.inr hholder) hne) (Function.update_of_ne hne _ _)
          rfl (List.append_nil _).symm List.not_mem_nil
    · simp only [hholder, if_true] at hj
      cases hj
    · show s.shared = serial clients own₀ s.order shared₀
      rw [horder, serial_append_singleton, ← halone]
      rfl

/-- What every interleaving of steps keeps. -/
theorem Interleaving.serialized {changes : List (Change ι σ)}
    (h : Interleaving clients true (System.start clients own₀ shared₀) changes t) :
    Serialized clients own₀ shared₀ t := by
  induction h with
  | nil => exact .start
  | snoc _ step ih => exact ih.step step

/-- A client takes the lock once. -/
theorem Interleaving.nodup {changes : List (Change ι σ)}
    (h : Interleaving clients true (System.start clients own₀ shared₀) changes t) :
    t.order.Nodup := by
  induction h with
  | nil => exact List.nodup_nil
  | snoc steps step ih =>
    cases step with
    | @take k here locks free =>
      have hout := ((steps.serialized.client _).of_before here).1
      refine List.nodup_append.mpr ⟨ih, List.pairwise_singleton _ _, fun j hj l hl => ?_⟩
      rw [List.mem_singleton.mp hl]
      intro heq
      exact hout (heq ▸ hj)
    | skip here unlockable => cases unlockable
    | _ => exact ih

theorem Interleaving.turn_unique {changes : List (Change ι σ)}
    (h : Interleaving clients true (System.start clients own₀ shared₀) changes t)
    {earlier later earlier' later' : List ι} (horder : t.order = earlier ++ i :: later)
    (horder' : t.order = earlier' ++ i :: later') : earlier = earlier' := by
  have hnodup := h.nodup
  rw [horder, List.nodup_middle, List.nodup_cons, List.mem_append, not_or] at hnodup
  obtain ⟨⟨hearlier, hlater⟩, _⟩ := hnodup
  exact ((List.append_cons_inj_of_notMem hearlier hlater).mp (horder.symm.trans horder')).1

/-- Who changes the shared state last saw what is there. -/
theorem Serialized.seen (h : Serialized clients own₀ shared₀ s) (step : Step clients true i s t) :
    s.shared = t.shared ∨ s.seen i = s.shared := by
  cases step with
  | act here => exact .inr ((h.client i).of_inside here).2.1
  | skip here unlockable => cases unlockable
  | _ => exact .inl rfl

/-- A client that changed something did it to what it last saw. -/
theorem Interleaving.changes_seen {changes : List (Change ι σ)}
    (h : Interleaving clients true (System.start clients own₀ shared₀) changes t) :
    ∀ c ∈ changes, c.old = c.new ∨ c.saw = c.old := by
  induction h with
  | nil =>
    intro c hc
    exact absurd hc List.not_mem_nil
  | snoc steps step ih =>
    intro c hc
    rcases List.mem_append.mp hc with hc | hc
    · exact ih c hc
    · rw [List.mem_singleton.mp hc]
      exact steps.serialized.seen step

theorem Serialized.untouched {changes : List (Change ι σ)}
    (h : Serialized clients own₀ shared₀ s)
    (huntouched : Untouched clients own₀ shared₀ changes s) (step : Step clients true i s t) :
    Untouched clients own₀ shared₀ (changes ++ [⟨i, s.seen i, s.shared, t.shared⟩]) t := by
  have hsame : t.holder = s.holder → t.order = s.order → s.shared = t.shared →
      Untouched clients own₀ shared₀ (changes ++ [⟨i, s.seen i, s.shared, t.shared⟩]) t := by
    intro hholder horder hshared j hj
    rw [horder, ← hshared]
    refine (huntouched j (hholder ▸ hj)).imp_left fun ⟨c, hc, hactor⟩ => ?_
    exact ⟨c, List.mem_append_left _ hc, hactor⟩
  cases step with
  | work here => exact hsame rfl rfl rfl
  | stop here => exact hsame rfl rfl rfl
  | refuse here => exact hsame rfl rfl rfl
  | skip here unlockable => cases unlockable
  | take here locks free =>
    intro j hj
    obtain rfl := Option.some.inj hj
    exact .inr ⟨s.order, rfl, h.free free⟩
  | @act act next here =>
    by_cases hshared : s.shared = (act (s.shared, s.own i)).1
    · exact hsame rfl rfl hshared
    · intro j hj
      obtain ⟨hholder, _⟩ := (h.client i).of_inside here
      obtain rfl := Option.some.inj (hholder.symm.trans hj)
      exact .inl ⟨_, List.mem_append_right _ (List.mem_singleton_self _), rfl, hshared⟩
  | leave here =>
    intro j hj
    simp only [((h.client i).of_inside here).1, if_true] at hj
    cases hj

theorem Interleaving.untouched {changes : List (Change ι σ)}
    (h : Interleaving clients true (System.start clients own₀ shared₀) changes t) :
    Untouched clients own₀ shared₀ changes t := by
  induction h with
  | nil =>
    intro i hi
    cases hi
  | snoc steps step ih => exact steps.serialized.untouched ih step

/-- The first change of a client is to the shared state as it took the lock. -/
theorem Interleaving.first_change {changes : List (Change ι σ)}
    (h : Interleaving clients true (System.start clients own₀ shared₀) changes t)
    {c : Change ι σ} (hfirst : FirstChange changes c) :
    ∃ earlier later, t.order = earlier ++ c.actor :: later ∧
      c.old = serial clients own₀ earlier shared₀ := by
  obtain ⟨before, after, hchanges, hchange, hbefore⟩ := hfirst
  induction h generalizing after with
  | nil => cases before <;> cases hchanges
  | @snoc changes s u i steps step ih =>
    obtain ⟨more, horder⟩ := step.order_append
    rcases List.eq_nil_or_concat after with rfl | ⟨after, last, rfl⟩
    · obtain ⟨rfl, hc⟩ := List.append_inj' hchanges rfl
      obtain rfl := (List.cons.inj hc).1
      have hholder : s.holder = some i := by
        cases step with
        | act here => exact ((steps.serialized.client i).of_inside here).1
        | skip here unlockable => cases unlockable
        | _ => exact absurd rfl hchange
      rcases steps.untouched i hholder with ⟨b, hb, hactor, hne⟩ | ⟨earlier, horder', hshared⟩
      · exact absurd (hbefore b hb hactor) hne
      · refine ⟨earlier, more, ?_, hshared⟩
        rw [horder, horder', List.append_assoc]
        rfl
    · rw [List.concat_eq_append, ← List.cons_append, ← List.append_assoc] at hchanges
      obtain ⟨rfl, _⟩ := List.append_inj' hchanges rfl
      obtain ⟨earlier, later, horder', hold⟩ := ih after rfl
      refine ⟨earlier, later ++ more, ?_, hold⟩
      rw [horder, horder', List.append_assoc]
      rfl

/-! ## Runs of one client -/

/-- Nothing but one client, its part and the shared state. -/
structure System.OnlyMoved (s t : System ι σ π κ ρ) (i : ι) : Prop where
  phase : ∀ j, j ≠ i → t.phase j = s.phase j
  own : ∀ j, j ≠ i → t.own j = s.own j
  holder : t.holder = s.holder
  order : t.order = s.order

omit [DecidableEq ι] in
theorem System.OnlyMoved.trans {u : System ι σ π κ ρ} (h : s.OnlyMoved t i)
    (h' : t.OnlyMoved u i) : s.OnlyMoved u i where
  phase j hj := (h'.phase j hj).trans (h.phase j hj)
  own j hj := (h'.own j hj).trans (h.own j hj)
  holder := h'.holder.trans h.holder
  order := h'.order.trans h.order

variable {lockable : Bool} {changes : List (Change ι σ)} {s₀ : System ι σ π κ ρ}

/-- A client can come to the end of what it does before the lock. -/
theorem Interleaving.prepare {p : Proc π (Except ρ κ)}
    (h : Interleaving clients lockable s₀ changes s) (here : s.phase i = .before p) :
    ∃ changes t, Interleaving clients lockable s₀ changes t ∧ s.OnlyMoved t i ∧
      t.phase i = .before (.done (p.runAlone (s.own i)).1) ∧
      t.own i = (p.runAlone (s.own i)).2 ∧ t.shared = s.shared := by
  induction p generalizing changes s with
  | done result =>
    exact ⟨changes, s, h, ⟨fun _ _ => rfl, fun _ _ => rfl, rfl, rfl⟩, here, rfl, rfl⟩
  | step act next ih =>
    obtain ⟨changes, t, hsteps, honly, hphase, hown, hshared⟩ :=
      ih (s.own i) (h.snoc (.work here)) (Function.update_self _ _ _)
    simp only [Function.update_self] at hphase hown
    refine ⟨changes, t, hsteps, System.OnlyMoved.trans ?_ honly, hphase, hown, hshared⟩
    exact ⟨fun j hj => Function.update_of_ne hj _ _, fun j hj => Function.update_of_ne hj _ _,
      rfl, rfl⟩

/-- A client that has gone in can do a part of its work by itself. -/
theorem Interleaving.perform {β : Type} {p : Proc (σ × π) β} {f : β → Proc (σ × π) ρ}
    (h : Interleaving clients lockable s₀ changes s) (here : s.phase i = .inside (p.bind f)) :
    ∃ changes t, Interleaving clients lockable s₀ changes t ∧ s.OnlyMoved t i ∧
      t.phase i = .inside (f (p.runAlone (s.shared, s.own i)).1) ∧
      (t.shared, t.own i) = (p.runAlone (s.shared, s.own i)).2 := by
  induction p generalizing changes s with
  | done result =>
    exact ⟨changes, s, h, ⟨fun _ _ => rfl, fun _ _ => rfl, rfl, rfl⟩, here, rfl⟩
  | step act next ih =>
    obtain ⟨changes, t, hsteps, honly, hphase, hmoved⟩ :=
      ih (s.shared, s.own i) (h.snoc (.act here)) (Function.update_self _ _ _)
    simp only [Function.update_self] at hphase hmoved
    refine ⟨changes, t, hsteps, System.OnlyMoved.trans ?_ honly, hphase, hmoved⟩
    exact ⟨fun j hj => Function.update_of_ne hj _ _, fun j hj => Function.update_of_ne hj _ _,
      rfl, rfl⟩

/-- A client that has gone in can come to its end, and leave. -/
theorem Interleaving.finish {p : Proc (σ × π) ρ}
    (h : Interleaving clients lockable s₀ changes s) (here : s.phase i = .inside p) :
    ∃ changes t, Interleaving clients lockable s₀ changes t ∧
      t.phase i = .after (p.runAlone (s.shared, s.own i)).1 ∧
      t.shared = (p.runAlone (s.shared, s.own i)).2.1 ∧
      (∀ j, j ≠ i → t.phase j = s.phase j ∧ t.own j = s.own j) ∧
      t.holder = (if s.holder = some i then none else s.holder) ∧ t.order = s.order := by
  rw [← p.bind_done] at here
  obtain ⟨changes, t, hsteps, honly, hphase, hmoved⟩ := h.perform here
  refine ⟨_, _, hsteps.snoc (.leave hphase), Function.update_self _ _ _,
    congrArg Prod.fst hmoved, fun j hj => ⟨?_, honly.own j hj⟩, ?_, honly.order⟩
  · exact (Function.update_of_ne hj _ _).trans (honly.phase j hj)
  · rw [← honly.holder]

section

variable {α ε γ β : Type} {clients : ι → Client σ π κ (Except ε γ)} {view : α → σ × π}
  {s s₀ : System ι σ π κ (Except ε γ)} {a b : α}

/-- A client that has gone in can carry out the first of two sessions. -/
theorem Interleaving.perform_session {p : Proc (σ × π) (Except ε β)}
    {q : β → Proc (σ × π) (Except ε γ)} {x : Session α ε β} {result : β}
    (h : Interleaving clients lockable s₀ changes s) (here : s.phase i = .inside (p.andThen q))
    (hp : p.CarriesOut view x) (hview : (s.shared, s.own i) = view a)
    (hx : x a = (.ok result, b)) :
    ∃ changes t, Interleaving clients lockable s₀ changes t ∧ s.OnlyMoved t i ∧
      t.phase i = .inside (q result) ∧ (t.shared, t.own i) = view b := by
  obtain ⟨changes, t, hsteps, honly, hphase, hmoved⟩ := h.perform here
  rw [hview, hp a, hx] at hphase hmoved
  exact ⟨changes, t, hsteps, honly, hphase, hmoved⟩

/-- A client that has gone in can carry out its session. -/
theorem Interleaving.finish_session {p : Proc (σ × π) (Except ε γ)} {x : Session α ε γ}
    (h : Interleaving clients lockable s₀ changes s) (here : s.phase i = .inside p)
    (hp : p.CarriesOut view x) (hview : (s.shared, s.own i) = view a) :
    ∃ changes t, Interleaving clients lockable s₀ changes t ∧ t.phase i = .after (x a).1 ∧
      t.shared = (view (x a).2).1 ∧
      (∀ j, j ≠ i → t.phase j = s.phase j ∧ t.own j = s.own j) := by
  obtain ⟨changes, t, hsteps, hphase, hshared, hothers, _⟩ := h.finish here
  rw [hview, hp a] at hphase hshared
  exact ⟨changes, t, hsteps, hphase, hshared, hothers⟩

end

/-- Where nothing can lock, a client can go in without the lock. -/
theorem Interleaving.go_on {p : Proc π (Except ρ κ)} {k : κ} {own : π}
    (h : Interleaving clients false s₀ changes s) (here : s.phase i = .before p)
    (hasks : p.runAlone (s.own i) = (.ok k, own)) :
    ∃ changes t, Interleaving clients false s₀ changes t ∧
      t.phase i = .inside ((clients i).unlocked k) ∧ t.own i = own ∧ t.shared = s.shared ∧
      ∀ j, j ≠ i → t.phase j = s.phase j ∧ t.own j = s.own j := by
  obtain ⟨changes, t, hsteps, honly, hphase, hown, hshared⟩ := h.prepare here
  rw [hasks] at hphase hown
  refine ⟨_, _, hsteps.snoc (.skip hphase rfl), Function.update_self _ _ _, hown, hshared,
    fun j hj => ⟨?_, honly.own j hj⟩⟩
  exact (Function.update_of_ne hj _ _).trans (honly.phase j hj)

/-- A client that asks for the lock while it is free can take its turn. -/
theorem Interleaving.turn {p : Proc π (Except ρ κ)} {k : κ}
    (h : Interleaving clients true s₀ changes s) (here : s.phase i = .before p)
    (hasks : (p.runAlone (s.own i)).1 = .ok k) (free : s.holder = none) :
    ∃ changes t r, Interleaving clients true s₀ changes t ∧ t.phase i = .after r ∧
      t.holder = none ∧ t.order = s.order ++ [i] ∧ ∀ j, j ≠ i → t.phase j = s.phase j := by
  obtain ⟨changes, t, hsteps, honly, hphase, _⟩ := h.prepare here
  rw [hasks] at hphase
  have htaken := hsteps.snoc (.take hphase rfl (honly.holder.trans free))
  obtain ⟨changes, u, hsteps', hafter, _, hothers, hholder, horder⟩ :=
    htaken.finish (i := i) (Function.update_self _ _ _)
  refine ⟨changes, u, _, hsteps', hafter, hholder.trans (if_pos rfl), ?_, fun j hj => ?_⟩
  · rw [horder, honly.order]
  · rw [(hothers j hj).1, ← honly.phase j hj]
    exact Function.update_of_ne hj _ _

/-- Clients that ask for the lock can take it in any order. -/
theorem exists_interleaving {order : List ι} (hnodup : order.Nodup)
    (hasks : ∀ i ∈ order, ∃ k, ((clients i).before.runAlone (own₀ i)).1 = .ok k) :
    ∃ changes t, Interleaving clients true (System.start clients own₀ shared₀) changes t ∧
      t.holder = none ∧ t.order = order ∧ (∀ i ∈ order, ∃ r, t.phase i = .after r) ∧
      ∀ i, i ∉ order → ∃ p, t.phase i = .before p := by
  induction order using List.reverseRecOn with
  | nil =>
    refine ⟨[], _, .nil, rfl, rfl, fun i hi => ?_, fun i _ => ⟨_, rfl⟩⟩
    exact absurd hi List.not_mem_nil
  | append_singleton order i ih =>
    obtain ⟨hdistinct, _, hlast⟩ := List.nodup_append.mp hnodup
    have hi : i ∉ order := fun hi => hlast i hi i (List.mem_singleton_self i) rfl
    obtain ⟨changes, t, hsteps, free, horder, hafter, hbefore⟩ :=
      ih hdistinct fun j hj => hasks j (List.mem_append_left _ hj)
    obtain ⟨p, here⟩ := hbefore i hi
    obtain ⟨k, hk⟩ := hasks i (List.mem_append_right _ (List.mem_singleton_self i))
    rw [← ((hsteps.serialized.client i).of_before here).2] at hk
    obtain ⟨changes, u, r, hsteps', hdone, free', horder', hothers⟩ := hsteps.turn here hk free
    refine ⟨changes, u, hsteps', free', by rw [horder', horder], fun j hj => ?_, fun j hj => ?_⟩
    · rcases List.mem_append.mp hj with hj | hj
      · obtain ⟨r, hr⟩ := hafter j hj
        have hne : j ≠ i := fun heq => hi (heq ▸ hj)
        exact ⟨r, (hothers j hne).trans hr⟩
      · rw [List.mem_singleton.mp hj]
        exact ⟨r, hdone⟩
    · rw [List.mem_append, List.mem_singleton, not_or] at hj
      obtain ⟨p, hp⟩ := hbefore j hj.1
      exact ⟨p, (hothers j hj.2).trans hp⟩

/-! ## Where nothing can lock -/

theorem Client.Idle.step (h : Client.Idle clients own₀ s i)
    (hgate : ∀ k, (clients i).unlocked k = .done (clients i).refused)
    (step : Step clients false j s t) :
    Client.Idle clients own₀ t i ∧ (j = i → s.shared = t.shared) := by
  unfold Client.Idle at h ⊢
  by_cases hne : j = i
  · subst hne
    cases step with
    | work here =>
      simp only [here, Function.update_self] at h ⊢
      exact ⟨h, fun _ => trivial⟩
    | stop here =>
      simp only [here, Function.update_self] at h ⊢
      refine ⟨.inr ?_, fun _ => trivial⟩
      rw [← h]
      rfl
    | take here locks free => cases locks
    | refuse here =>
      simp only [Function.update_self]
      exact ⟨.inl trivial, fun _ => trivial⟩
    | skip here unlockable =>
      simp only [Function.update_self]
      exact ⟨hgate _, fun _ => trivial⟩
    | act here =>
      rw [here] at h
      cases h
    | leave here =>
      rw [here] at h
      simp only [Function.update_self]
      exact ⟨.inl (Proc.done.inj h), fun _ => trivial⟩
  · refine ⟨?_, fun heq => absurd heq hne⟩
    cases step <;> simpa only [Function.update_of_ne (Ne.symm hne)] using h

/-- Where nothing can lock, a client that does nothing without the lock changes nothing. -/
theorem Interleaving.idle {changes : List (Change ι σ)}
    (h : Interleaving clients false (System.start clients own₀ shared₀) changes t)
    (hgate : ∀ k, (clients i).unlocked k = .done (clients i).refused) :
    Client.Idle clients own₀ t i ∧ ∀ c ∈ changes, c.actor = i → c.old = c.new := by
  induction h with
  | nil =>
    refine ⟨rfl, fun c hc => ?_⟩
    exact absurd hc List.not_mem_nil
  | snoc steps step ih =>
    obtain ⟨hidle, hchanges⟩ := ih
    obtain ⟨hidle', hsame⟩ := hidle.step hgate step
    refine ⟨hidle', fun c hc hactor => ?_⟩
    rcases List.mem_append.mp hc with hc | hc
    · exact hchanges c hc hactor
    · rw [List.mem_singleton.mp hc] at hactor ⊢
      exact hsame hactor

end

end

end Lib
