import MissionCompiler.Publish.Publish

/-!
# A publication is all or nothing

One call of the loop keeps `Progress`, which says of every output name where its content is: it
was published, it was displaced into the backup, or it is as it was. The two loops of the
rollback then either bring a name back or list it, whichever calls fail.
-/

namespace MissionCompiler.Publish

open Lib

variable {α : Type}

/-! ## The loop over the staged files -/

/-- Where everything is, part-way through a publication that began with `initial`. -/
structure Progress (initial : FileSystem Path α) (s : Publishing α) : Prop where
  displaced_nodup : s.displaced.Nodup
  landed : ∀ n ∈ s.published, s.fs.at? (.out, n) = initial.at? (.staging, n)
  gone : ∀ n ∈ s.displaced, n ∉ s.published → s.fs.at? (.out, n) = none
  same : ∀ n, n ∉ s.published → n ∉ s.displaced → s.fs.at? (.out, n) = initial.at? (.out, n)
  kept : ∀ n ∈ s.displaced, s.fs.at? (.backup, n) = initial.at? (.out, n)
  there : ∀ n ∈ s.displaced, (initial.at? (.out, n)).isSome = true
  fresh : ∀ n ∈ s.published, n ∉ s.displaced → initial.at? (.out, n) = none
  staged : ∀ n, n ∉ s.published → s.fs.at? (.staging, n) = initial.at? (.staging, n)

theorem Progress.start (initial : FileSystem Path α) : Progress initial ⟨initial, [], []⟩ where
  displaced_nodup := List.nodup_nil
  landed := fun _ hn => absurd hn List.not_mem_nil
  gone := fun _ hn => absurd hn List.not_mem_nil
  same := fun _ _ _ => rfl
  kept := fun _ hn => absurd hn List.not_mem_nil
  there := fun _ hn => absurd hn List.not_mem_nil
  fresh := fun _ hn => absurd hn List.not_mem_nil
  staged := fun _ _ => rfl

variable {initial : FileSystem Path α} {faults : Nat → Bool} {name : String}

/-- A failed call changes nothing that the invariant speaks of. -/
theorem Progress.failed {s : Publishing α} (h : Progress initial s) :
    Progress initial { s with fs := s.fs.failed } :=
  ⟨h.displaced_nodup, h.landed, h.gone, h.same, h.kept, h.there, h.fresh, h.staged⟩

/-- After a target was displaced, nothing stands in the way of the staged file. -/
theorem Progress.displace {s s' : Publishing α} {ok : Bool} (h : Progress initial s)
    (hpublished : name ∉ s.published) (hdisplaced : name ∉ s.displaced)
    (hstep : displace faults name s = (ok, s')) :
    Progress initial s' ∧ s'.published = s.published ∧
      (∀ n, n ≠ name → (n ∈ s'.displaced ↔ n ∈ s.displaced)) ∧
      (ok = true → name ∈ s'.displaced ∨ initial.at? (.out, name) = none) := by
  unfold Publish.displace at hstep
  split at hstep
  · next hexists =>
    rw [h.same name hpublished hdisplaced] at hexists
    rcases s.fs.replace_cases faults (Place.out, name) (.backup, name) with ⟨hcall, _⟩ |
      ⟨a, fs', hcall, hsrc, _, hdst, hgone, hother⟩
    · rw [hcall] at hstep
      obtain ⟨rfl, rfl⟩ := Prod.mk.inj hstep
      exact ⟨h.failed, rfl, fun _ _ => Iff.rfl, fun hok => Bool.noConfusion hok⟩
    · rw [hcall] at hstep
      obtain ⟨rfl, rfl⟩ := Prod.mk.inj hstep
      have hout : ∀ n, n ≠ name → fs'.at? (.out, n) = s.fs.at? (.out, n) := fun n hn =>
        hother _ (by simpa using hn) (by simp)
      have hmem : ∀ n, n ≠ name → (n ∈ s.displaced ++ [name] ↔ n ∈ s.displaced) := fun n hn => by
        simp [hn]
      refine ⟨⟨?_, ?_, ?_, ?_, ?_, ?_, ?_, ?_⟩, rfl, hmem, fun _ =>
        .inl (List.mem_append_right _ List.mem_cons_self)⟩
      · apply List.nodup_append.mpr
        refine ⟨h.displaced_nodup, List.nodup_singleton _, fun n hn m hm => ?_⟩
        rw [List.mem_singleton.mp hm]
        intro heq
        exact hdisplaced (heq ▸ hn)
      · intro n hn
        rw [hout n fun heq => hpublished (heq ▸ hn)]
        exact h.landed n hn
      · intro n hn hnot
        by_cases hname : n = name
        · rw [hname]
          exact hgone (by simp)
        · rw [hout n hname]
          exact h.gone n ((hmem n hname).mp hn) hnot
      · intro n hnot hnot'
        have hname : n ≠ name := fun heq =>
          hnot' (List.mem_append_right _ (heq ▸ List.mem_cons_self))
        rw [hout n hname]
        exact h.same n hnot fun hn => hnot' (List.mem_append_left _ hn)
      · intro n hn
        by_cases hname : n = name
        · rw [hname, hdst, ← hsrc]
          exact h.same name hpublished hdisplaced
        · rw [hother _ (by simp) (by simpa using hname)]
          exact h.kept n ((hmem n hname).mp hn)
      · intro n hn
        by_cases hname : n = name
        · rw [hname]
          exact hexists
        · exact h.there n ((hmem n hname).mp hn)
      · intro n hn hnot
        exact h.fresh n hn fun hn' => hnot (List.mem_append_left _ hn')
      · intro n hn
        rw [hother _ (by simp) (by simp)]
        exact h.staged n hn
  · next hnone =>
    obtain ⟨rfl, rfl⟩ := Prod.mk.inj hstep
    refine ⟨h, rfl, fun _ _ => Iff.rfl, fun _ => .inr ?_⟩
    rw [← h.same name hpublished hdisplaced]
    simpa using hnone

/-- A staged file lands at a target that is not in its way. -/
theorem Progress.land {s s' : Publishing α} {ok : Bool} (h : Progress initial s)
    (hpublished : name ∉ s.published)
    (hfree : name ∈ s.displaced ∨ initial.at? (.out, name) = none)
    (hstep : land faults name s = (ok, s')) :
    Progress initial s' ∧ s'.displaced = s.displaced ∧
      (ok = true → s'.published = s.published ++ [name]) := by
  unfold Publish.land at hstep
  rcases s.fs.replace_cases faults (Place.staging, name) (.out, name) with ⟨hcall, _⟩ |
    ⟨a, fs', hcall, hsrc, _, hdst, hgone, hother⟩
  · rw [hcall] at hstep
    obtain ⟨rfl, rfl⟩ := Prod.mk.inj hstep
    exact ⟨h.failed, rfl, fun hok => Bool.noConfusion hok⟩
  · rw [hcall] at hstep
    obtain ⟨rfl, rfl⟩ := Prod.mk.inj hstep
    have hout : ∀ n, n ≠ name → fs'.at? (.out, n) = s.fs.at? (.out, n) := fun n hn =>
      hother _ (by simp) (by simpa using hn)
    have hnot : ∀ n, n ∉ s.published ++ [name] → n ∉ s.published ∧ n ≠ name := fun n hn => by
      simpa using hn
    refine ⟨⟨h.displaced_nodup, ?_, ?_, ?_, ?_, h.there, ?_, ?_⟩, rfl, fun _ => rfl⟩
    · intro n hn
      by_cases hname : n = name
      · rw [hname, hdst, ← hsrc]
        exact h.staged name hpublished
      · rw [hout n hname]
        exact h.landed n (by simpa [hname] using hn)
    · intro n hn hn'
      obtain ⟨hn', hname⟩ := hnot n hn'
      rw [hout n hname]
      exact h.gone n hn hn'
    · intro n hn hn'
      obtain ⟨hn, hname⟩ := hnot n hn
      rw [hout n hname]
      exact h.same n hn hn'
    · intro n hn
      rw [hother _ (by simp) (by simp)]
      exact h.kept n hn
    · intro n hn hn'
      by_cases hname : n = name
      · rw [hname] at hn' ⊢
        exact hfree.resolve_left hn'
      · exact h.fresh n (by simpa [hname] using hn) hn'
    · intro n hn
      obtain ⟨hn, hname⟩ := hnot n hn
      rw [hother _ (by simpa using hname) (by simp)]
      exact h.staged n hn

/-- The loop keeps the invariant, and has published everything when no call failed. -/
theorem Progress.publishLoop {names : List String} {s s' : Publishing α} {ok : Bool}
    (h : Progress initial s) (hnames : (s.published ++ names).Nodup)
    (hdisplaced : ∀ n ∈ s.displaced, n ∈ s.published)
    (hloop : publishLoop faults names s = (ok, s')) :
    Progress initial s' ∧ (ok = true → s'.published = s.published ++ names ∧
      ∀ n ∈ s'.displaced, n ∈ s'.published) := by
  induction names generalizing s with
  | nil =>
    obtain ⟨rfl, rfl⟩ := Prod.mk.inj hloop
    exact ⟨h, fun _ => ⟨(List.append_nil _).symm, hdisplaced⟩⟩
  | cons name names ih =>
    have hname : name ∉ s.published := fun hn =>
      (List.nodup_append.mp hnames).2.2 name hn name List.mem_cons_self rfl
    rw [Publish.publishLoop] at hloop
    cases hdisplace : Publish.displace faults name s with
    | mk ok₁ s₁ =>
      obtain ⟨h₁, hpublished₁, hmem₁, hfree⟩ :=
        h.displace hname (fun hn => hname (hdisplaced name hn)) hdisplace
      rw [hdisplace] at hloop
      cases ok₁ with
      | false =>
        obtain ⟨rfl, rfl⟩ := Prod.mk.inj hloop
        exact ⟨h₁, fun hok => Bool.noConfusion hok⟩
      | true =>
        cases hland : Publish.land faults name s₁ with
        | mk ok₂ s₂ =>
          rw [← hpublished₁] at hname
          obtain ⟨h₂, hdisplaced₂, hpublished₂⟩ := h₁.land hname (hfree rfl) hland
          simp only [hland] at hloop
          cases ok₂ with
          | false =>
            obtain ⟨rfl, rfl⟩ := Prod.mk.inj hloop
            exact ⟨h₂, fun hok => Bool.noConfusion hok⟩
          | true =>
            have hpublished := hpublished₂ rfl
            rw [hpublished₁] at hpublished
            obtain ⟨h', hall⟩ := ih h₂ (by rw [hpublished, List.append_assoc]; exact hnames)
              (fun n hn => by
                rw [hpublished]
                rw [hdisplaced₂] at hn
                by_cases heq : n = name
                · exact List.mem_append_right _ (heq ▸ List.mem_cons_self)
                · exact List.mem_append_left _ (hdisplaced n ((hmem₁ n heq).mp hn))) hloop
            refine ⟨h', fun hok => ?_⟩
            obtain ⟨heq, hsub⟩ := hall hok
            rw [hpublished, List.append_assoc] at heq
            exact ⟨heq, hsub⟩

/-! ## The rollback -/

/-- After the first loop of the rollback a published name is free or listed, and nothing else
has changed. -/
theorem unpublish_spec {names : List String} {fs fs' : FileSystem Path α}
    {unremoved unremoved' : List String}
    (h : unpublish faults names fs unremoved = (fs', unremoved')) :
    (∀ n ∈ unremoved, n ∈ unremoved') ∧
      (∀ n ∈ names, n ∈ unremoved' ∨ fs'.at? (.out, n) = none) ∧
      ∀ p : Path, (∀ n ∈ names, p ≠ (.out, n)) → fs'.at? p = fs.at? p := by
  induction names generalizing fs unremoved with
  | nil =>
    obtain ⟨rfl, rfl⟩ := Prod.mk.inj h
    exact ⟨fun _ hn => hn, fun n hn => absurd hn List.not_mem_nil, fun _ _ => rfl⟩
  | cons name names ih =>
    rw [unpublish] at h
    rcases fs.unlink_cases faults (Place.out, name) with ⟨hcall, _⟩ |
      ⟨fs₁, hcall, _, hgone, hother⟩
    · rw [hcall] at h
      obtain ⟨hsub, hnames, hrest⟩ := ih h
      refine ⟨fun n hn => hsub n (List.mem_append_left _ hn), fun n hn => ?_, fun p hp => ?_⟩
      · rcases List.mem_cons.mp hn with rfl | hn
        · exact .inl (hsub n (List.mem_append_right _ List.mem_cons_self))
        · exact hnames n hn
      · exact hrest p fun n hn => hp n (List.mem_cons_of_mem _ hn)
    · rw [hcall] at h
      obtain ⟨hsub, hnames, hrest⟩ := ih h
      refine ⟨hsub, fun n hn => ?_, fun p hp => ?_⟩
      · by_cases hmem : n ∈ names
        · exact hnames n hmem
        · rcases List.mem_cons.mp hn with rfl | hn
          · have hne : ∀ m ∈ names, ((.out, n) : Path) ≠ (.out, m) := fun m hm heq => by
              rw [(Prod.mk.inj heq).2] at hmem
              exact hmem hm
            right
            rw [hrest _ hne]
            exact hgone
          · exact absurd hn hmem
      · rw [hrest p fun n hn => hp n (List.mem_cons_of_mem _ hn)]
        exact hother p (hp name List.mem_cons_self)

/-- After the second loop of the rollback a displaced name has its file back, or is listed and
the backup still has it. Names that were not displaced stay as they are, listed or not. -/
theorem restore_spec {names : List String} (hnames : names.Nodup) {fs fs' : FileSystem Path α}
    {unrestored unremoved unrestored' unremoved' : List String}
    (h : restore faults names fs unrestored unremoved = (fs', unrestored', unremoved')) :
    (∀ n ∈ unrestored, n ∈ unrestored') ∧ (∀ n ∈ unrestored', n ∈ unrestored ∨ n ∈ names) ∧
      (∀ n ∈ unremoved, n ∉ names → n ∈ unremoved') ∧
      (∀ n ∈ names, n ∉ unrestored → (n ∈ unrestored' ∧
          fs'.at? (.backup, n) = fs.at? (.backup, n)) ∨
        (n ∉ unrestored' ∧ fs'.at? (.out, n) = fs.at? (.backup, n))) ∧
      ∀ place, ∀ n, n ∉ names → fs'.at? (place, n) = fs.at? (place, n) := by
  induction names generalizing fs unrestored unremoved with
  | nil =>
    obtain ⟨rfl, hlists⟩ := Prod.mk.inj h
    obtain ⟨rfl, rfl⟩ := Prod.mk.inj hlists
    exact ⟨fun _ hn => hn, fun _ hn => .inl hn, fun _ hn _ => hn,
      fun n hn => absurd hn List.not_mem_nil, fun _ _ _ => rfl⟩
  | cons name names ih =>
    obtain ⟨hname, hnames⟩ := List.nodup_cons.mp hnames
    rw [restore] at h
    rcases fs.replace_cases faults (Place.backup, name) (.out, name) with ⟨hcall, _⟩ |
      ⟨a, fs₁, hcall, hsrc, _, hdst, _, hother⟩
    · rw [hcall] at h
      obtain ⟨hsub, hback, hkept, hspec, hrest⟩ := ih hnames h
      refine ⟨fun n hn => hsub n (List.mem_append_left _ hn), fun n hn => ?_, fun n hn hnot => ?_,
        fun n hn hnot => ?_, fun place n hn => ?_⟩
      · rcases hback n hn with hn | hn
        · rcases List.mem_append.mp hn with hn | hn
          · exact .inl hn
          · exact .inr (List.mem_singleton.mp hn ▸ List.mem_cons_self)
        · exact .inr (List.mem_cons_of_mem _ hn)
      · exact hkept n hn fun hmem => hnot (List.mem_cons_of_mem _ hmem)
      · rcases List.mem_cons.mp hn with rfl | hn
        · exact .inl ⟨hsub n (List.mem_append_right _ List.mem_cons_self), hrest _ n hname⟩
        · have hne : n ≠ name := fun heq => hname (heq ▸ hn)
          exact hspec n hn (by simp [hnot, hne])
      · exact hrest place n fun hmem => hn (List.mem_cons_of_mem _ hmem)
    · rw [hcall] at h
      obtain ⟨hsub, hback, hkept, hspec, hrest⟩ := ih hnames h
      have hold : ∀ place, ∀ n, n ≠ name → fs₁.at? (place, n) = fs.at? (place, n) :=
        fun place n hne => hother _ (by simp [hne]) (by simp [hne])
      refine ⟨hsub, fun n hn => ?_, fun n hn hnot => ?_, fun n hn hnot => ?_,
        fun place n hn => ?_⟩
      · exact (hback n hn).imp_right fun hn => List.mem_cons_of_mem _ hn
      · have hne : n ≠ name := fun heq => hnot (heq ▸ List.mem_cons_self)
        exact hkept n (List.mem_filter.mpr ⟨hn, by simpa using hne⟩) fun hmem =>
          hnot (List.mem_cons_of_mem _ hmem)
      · by_cases hne : n = name
        · rw [hne] at hnot ⊢
          right
          refine ⟨fun hmem => ?_, ?_⟩
          · exact (hback name hmem).elim hnot hname
          · rw [hrest _ name hname, hdst, hsrc]
        · rcases List.mem_cons.mp hn with heq | hn
          · exact absurd heq hne
          · rw [← hold .backup n hne]
            exact hspec n hn hnot
      · have hne : n ≠ name := fun heq => hn (heq ▸ List.mem_cons_self)
        rw [hrest place n fun hmem => hn (List.mem_cons_of_mem _ hmem), hold place n hne]

/-- What a rollback leaves of a publication: every name is as it was at first or listed, and
what is not in the output is in the backup. -/
structure RolledBack (initial fs : FileSystem Path α) (unrestored unremoved : List String) :
    Prop where
  listed : ∀ n, fs.at? (.out, n) = initial.at? (.out, n) ∨ n ∈ unrestored ∨ n ∈ unremoved
  recoverable : ∀ n ∈ unrestored, fs.at? (.backup, n) = initial.at? (.out, n) ∧
    (initial.at? (.out, n)).isSome = true
  lost : ∀ n a, initial.at? (.out, n) = some a →
    fs.at? (.out, n) = some a ∨ fs.at? (.backup, n) = some a

theorem Progress.rollBack {s : Publishing α} (h : Progress initial s)
    {fs₁ fs₂ : FileSystem Path α} {unremoved unremoved' unrestored : List String}
    (hunpublish : unpublish faults s.published s.fs [] = (fs₁, unremoved))
    (hrestore : restore faults s.displaced fs₁ [] unremoved = (fs₂, unrestored, unremoved')) :
    RolledBack initial fs₂ unrestored unremoved' := by
  obtain ⟨_, hpublished, hother⟩ := unpublish_spec hunpublish
  obtain ⟨_, hback, hkept, hspec, hrest⟩ := restore_spec h.displaced_nodup hrestore
  have hbackup : ∀ n, fs₁.at? (.backup, n) = s.fs.at? (.backup, n) := fun n =>
    hother _ fun m _ => by simp
  refine ⟨fun n => ?_, fun n hn => ?_, fun n a hn => ?_⟩
  · by_cases hdisplaced : n ∈ s.displaced
    · rcases hspec n hdisplaced List.not_mem_nil with ⟨hlisted, _⟩ | ⟨_, hput⟩
      · exact .inr (.inl hlisted)
      · left
        rw [hput, hbackup, h.kept n hdisplaced]
    · rw [hrest _ n hdisplaced]
      by_cases hmem : n ∈ s.published
      · rcases hpublished n hmem with hlisted | hgone
        · exact .inr (.inr (hkept n hlisted hdisplaced))
        · left
          rw [hgone, h.fresh n hmem hdisplaced]
      · left
        rw [hother _ fun m hm => by simp; exact fun heq => hmem (heq ▸ hm)]
        exact h.same n hmem hdisplaced
  · have hdisplaced := (hback n hn).resolve_left List.not_mem_nil
    rcases hspec n hdisplaced List.not_mem_nil with ⟨_, hstays⟩ | ⟨hnot, _⟩
    · refine ⟨?_, h.there n hdisplaced⟩
      rw [hstays, hbackup, h.kept n hdisplaced]
    · exact absurd hn hnot
  · by_cases hdisplaced : n ∈ s.displaced
    · rcases hspec n hdisplaced List.not_mem_nil with ⟨_, hstays⟩ | ⟨_, hput⟩
      · right
        rw [hstays, hbackup, h.kept n hdisplaced, hn]
      · left
        rw [hput, hbackup, h.kept n hdisplaced, hn]
    · left
      have hmem : n ∉ s.published := fun hmem => by
        rw [h.fresh n hmem hdisplaced] at hn
        cases hn
      rw [hrest _ n hdisplaced, hother _ fun m hm => by simp; exact fun heq => hmem (heq ▸ hm)]
      rw [h.same n hmem hdisplaced, hn]

/-! ## The whole -/

theorem at?_discardBackup (survives : String → Bool) (fs : FileSystem Path α) (p : Path) :
    (discardBackup survives fs).at? p =
      if p.1 == .backup && !survives p.2 then none else fs.at? p := by
  unfold discardBackup FileSystem.at?
  rw [FileSystem.lookup_foldl_erase]
  by_cases hkey : p ∈ fs.files.keys
  · simp only [List.mem_filter, hkey, true_and]
  · have hnone : fs.files.lookup p = none := AList.lookup_eq_none.mpr hkey
    rw [hnone, ite_self, ite_self]

/-- Discarding the backup leaves the other directories alone. -/
theorem at?_discardBackup_of_ne (survives : String → Bool) (fs : FileSystem Path α) {p : Path}
    (hp : p.1 ≠ .backup) : (discardBackup survives fs).at? p = fs.at? p := by
  rw [at?_discardBackup, beq_false_of_ne hp]
  rfl

/-- What a publication may leave behind, for each way it ends. -/
def AllOrNothing (staged : List String) (initial final : FileSystem Path α) : Outcome → Prop
  | .returned published => published = staged ∧ ∀ n, final.at? (.out, n) =
      if n ∈ staged then initial.at? (.staging, n) else initial.at? (.out, n)
  | .raised => ∀ n, final.at? (.out, n) = initial.at? (.out, n)
  | .rolledBackPartially unrestored unremoved =>
    (∀ n, final.at? (.out, n) ≠ initial.at? (.out, n) → n ∈ unrestored ∨ n ∈ unremoved) ∧
      ∀ n ∈ unrestored, ∃ a, initial.at? (.out, n) = some a ∧ final.at? (.backup, n) = some a

theorem publishKeeping_spec {staged : List String} (hstaged : staged.Nodup)
    (initial : FileSystem Path α) {outcome : Outcome} {fs : FileSystem Path α}
    (h : publishKeeping faults staged initial = (outcome, fs)) :
    AllOrNothing staged initial fs outcome ∧
      ∀ n a, initial.at? (.out, n) = some a →
        fs.at? (.out, n) = some a ∨ fs.at? (.backup, n) = some a := by
  unfold publishKeeping at h
  cases hloop : publishLoop faults staged ⟨initial, [], []⟩ with
  | mk ok s =>
    obtain ⟨hprogress, hall⟩ := (Progress.start initial).publishLoop
      (by simpa using hstaged) (fun _ hn => absurd hn List.not_mem_nil) hloop
    rw [hloop] at h
    cases ok with
    | true =>
      obtain ⟨rfl, rfl⟩ := Prod.mk.inj h
      obtain ⟨hpublished, hsub⟩ := hall rfl
      have hpublished : s.published = staged := hpublished
      refine ⟨⟨hpublished, fun n => ?_⟩, fun n a hn => ?_⟩
      · rw [← hpublished]
        split
        · next hn => exact hprogress.landed n hn
        · next hn => exact hprogress.same n hn fun hdisplaced => hn (hsub n hdisplaced)
      · by_cases hdisplaced : n ∈ s.displaced
        · right
          rw [hprogress.kept n hdisplaced, hn]
        · left
          have hmem : n ∉ s.published := fun hmem => by
            rw [hprogress.fresh n hmem hdisplaced] at hn
            cases hn
          rw [hprogress.same n hmem hdisplaced, hn]
    | false =>
      cases hunpublish : unpublish faults s.published s.fs [] with
      | mk fs₁ unremoved =>
        cases hrestore : restore faults s.displaced fs₁ [] unremoved with
        | mk fs₂ lists =>
          obtain ⟨unrestored, unremoved'⟩ := lists
          have hback := hprogress.rollBack hunpublish hrestore
          simp only [rollBack, hunpublish, hrestore] at h
          split at h
          · next hnone =>
            obtain ⟨rfl, rfl⟩ := Prod.mk.inj h
            rw [Bool.and_eq_true, List.isEmpty_iff, List.isEmpty_iff] at hnone
            rw [hnone.1, hnone.2] at hback
            refine ⟨fun n => ?_, hback.lost⟩
            exact (hback.listed n).resolve_right (by simp)
          · obtain ⟨rfl, rfl⟩ := Prod.mk.inj h
            refine ⟨⟨fun n hn => (hback.listed n).resolve_left hn, fun n hn => ?_⟩, hback.lost⟩
            obtain ⟨hkept, hthere⟩ := hback.recoverable n hn
            obtain ⟨a, ha⟩ := Option.isSome_iff_exists.mp hthere
            exact ⟨a, ha, hkept.trans ha⟩

/-- `_publish` is all or nothing under every pattern of failures: it returns with the staged
files over the rest of the directory, or it raises an `OSError` and the directory is as it was,
or it names what differs and has the displaced files in the backup. Until the backup is
discarded nothing that was in the directory is lost, and it is discarded only when the directory
is as it was or as it should be. -/
theorem publish_all_or_nothing (faults : Nat → Bool) (survives : String → Bool)
    {staged : List String} (hstaged : staged.Nodup) (initial : FileSystem Path α) :
    AllOrNothing staged initial (publish faults survives staged initial).2
        (publish faults survives staged initial).1 ∧
      (∀ n a, initial.at? (.out, n) = some a →
        (publishKeeping faults staged initial).2.at? (.out, n) = some a ∨
          (publishKeeping faults staged initial).2.at? (.backup, n) = some a) ∧
      ∀ n a, initial.at? (.out, n) = some a →
        (publish faults survives staged initial).2.at? (.out, n) = some a ∨
          (publish faults survives staged initial).2.at? (.backup, n) = some a ∨
            ((publish faults survives staged initial).1 = .returned staged ∧ n ∈ staged) := by
  cases hkeeping : publishKeeping faults staged initial with
  | mk outcome fs =>
    obtain ⟨hspec, hlost⟩ := publishKeeping_spec hstaged initial hkeeping
    have hout : ∀ n, (discardBackup survives fs).at? (.out, n) = fs.at? (.out, n) := fun n =>
      at?_discardBackup_of_ne survives fs (show Place.out ≠ .backup by decide)
    cases outcome with
    | returned published =>
      have hpublish : publish faults survives staged initial =
          (.returned published, discardBackup survives fs) := by
        rw [publish, hkeeping]
      obtain ⟨rfl, hspec⟩ := hspec
      rw [hpublish]
      refine ⟨⟨rfl, fun n => (hout n).trans (hspec n)⟩, hlost, fun n a hn => ?_⟩
      by_cases hstaged : n ∈ published
      · exact .inr (.inr ⟨rfl, hstaged⟩)
      · left
        rw [hout n, hspec n, if_neg hstaged, hn]
    | raised =>
      have hpublish : publish faults survives staged initial =
          (.raised, discardBackup survives fs) := by
        rw [publish, hkeeping]
      rw [hpublish]
      refine ⟨fun n => (hout n).trans (hspec n), hlost, fun n a hn => .inl ?_⟩
      rw [hout n, hspec n, hn]
    | rolledBackPartially unrestored unremoved =>
      have hpublish : publish faults survives staged initial =
          (.rolledBackPartially unrestored unremoved, fs) := by
        rw [publish, hkeeping]
      rw [hpublish]
      exact ⟨hspec, hlost, fun n a hn => (hlost n a hn).imp_right .inl⟩

/-- One file replaced and one added, while the third call fails. -/
def sampleFiles : FileSystem Path String where
  files := [⟨(.out, "a"), "old"⟩, ⟨(.staging, "a"), "new"⟩, ⟨(.staging, "b"), "more"⟩].toAList
  calls := 0

theorem publish_sampleFiles :
    (publish (· == 2) (fun _ => false) ["a", "b"] sampleFiles).1 = .raised ∧
      ∀ n, (publish (· == 2) (fun _ => false) ["a", "b"] sampleFiles).2.at? (.out, n) =
        sampleFiles.at? (.out, n) := by
  have houtcome : (publish (· == 2) (fun _ => false) ["a", "b"] sampleFiles).1 = .raised := by
    decide
  have hspec := (publish_all_or_nothing (· == 2) (fun _ => false)
    (show ["a", "b"].Nodup by decide) sampleFiles).1
  rw [houtcome] at hspec
  exact ⟨houtcome, hspec⟩

end MissionCompiler.Publish
