import Mathlib.Data.Set.Function
import MissionCompiler.Compile.Runs

/-!
# No two workloads share a name

The names a compilation gives are compared by their words. A counted name ends with a number of
at most seven digits, a hashed one with eight hexadecimal digits, and a plain one with the end of
a timestamp, which cannot lose its last word and still be the end of a timestamp
(`not_eventTail_dropLast`). So no two of these coincide, and two of one kind coincide only when
they come from one text, as long as the digest does not collide on the texts it is given.
-/

namespace MissionCompiler.Compile

open Lib Schema Names

/-! ## Ends of names -/

/-- How the last word of a timestamp can look, and what is left when it is an offset's. -/
theorem eventTail_last {ws : List (List Char)} {last : List Char} (h : EventTail (ws ++ [last])) :
    ('z' ∈ last ∧ (last.length = 3 ∨ last.length = 7)) ∨
      (last.length = 2 ∧ ([2, 2, 2, 5] <+: shape ws ∨ [2, 6, 2, 2, 5] <+: shape ws)) := by
  have hshape : shape (ws ++ [last]) = last.length :: shape ws := by
    rw [shape_append]
    rfl
  generalize hall : ws ++ [last] = all at h hshape
  cases h with
  | utc z length =>
    obtain ⟨-, hlast⟩ := List.append_inj' hall rfl
    rw [List.singleton_inj.mp hlast]
    exact .inl ⟨z, length⟩
  | offset widths =>
    rw [hshape, List.cons_prefix_cons] at widths
    exact .inr ⟨widths.1.symm, .inl widths.2⟩
  | offsetMicroseconds widths =>
    rw [hshape, List.cons_prefix_cons] at widths
    exact .inr ⟨widths.1.symm, .inr widths.2⟩

/-- The end of a timestamp is no longer one without its last word. -/
theorem not_eventTail_dropLast {ws : List (List Char)} (h : EventTail ws) :
    ¬ ([2, 2, 2, 5] <+: shape ws ∨ [2, 6, 2, 2, 5] <+: shape ws) := by
  intro hshort
  cases h with
  | utc z length =>
    rw [shape_append] at hshort
    simp only [shape, List.reverse_singleton, List.map_singleton, List.singleton_append,
      List.cons_prefix_cons] at hshort
    omega
  | offset widths =>
    rcases hshort with hshort | hshort
    · exact absurd (List.prefix_or_prefix_of_prefix widths hshort) (by decide)
    · exact absurd (List.prefix_or_prefix_of_prefix widths hshort) (by decide)
  | offsetMicroseconds widths =>
    rcases hshort with hshort | hshort
    · exact absurd (List.prefix_or_prefix_of_prefix widths hshort) (by decide)
    · exact absurd (List.prefix_or_prefix_of_prefix widths hshort) (by decide)

/-- A number after the end of a timestamp does not make one, and neither does a word as long as
a digest. -/
theorem not_eventTail_append {ws : List (List Char)} {last : List Char}
    (hlast : last.length = 8 ∨
      (∀ c ∈ last, IsDigit c) ∧ (EventTail ws ∨ ∃ head w, ws = head ++ [w] ∧ w.length = 8)) :
    ¬ EventTail (ws ++ [last]) := by
  intro h
  rcases eventTail_last h with ⟨hz, hlen⟩ | ⟨hlen, hshort⟩
  · rcases hlast with hlast | ⟨hdigits, _⟩
    · omega
    · exact absurd (hdigits 'z' hz) (by decide)
  · rcases hlast with hlast | ⟨_, htail | ⟨head, w, rfl, hw⟩⟩
    · omega
    · exact not_eventTail_dropLast htail hshort
    · rw [shape_append] at hshort
      simp only [shape, List.reverse_singleton, List.map_singleton, List.singleton_append,
        List.cons_prefix_cons] at hshort
      omega

/-! ## Occurrences -/

variable (sha : Sha256)

theorem wordsOf_toString (n : Nat) : wordsOf (toString n) = [Nat.toDigits 10 n] := by
  have hdigits : ∀ c ∈ Nat.toDigits 10 n, isAlnum c = true := fun c hc =>
    isAlnum_of_isDigit (isDigit_of_mem_toDigits hc)
  have hword : IsWord (Nat.toDigits 10 n) := by
    refine ⟨Nat.toDigits_ne_nil, fun h => ?_⟩
    exact absurd (hdigits _ h) (by decide)
  rw [wordsOf, toList_toString_eq, legalize_of_legal fun c hc => .inl (hdigits c hc),
    words_eq_singleton hword]

theorem wordsOf_counterText (canonical : String) (seen : Nat) :
    wordsOf (counterText canonical seen) =
      wordsOf canonical ++ [Nat.toDigits 10 (seen + 1)] := by
  rw [counterText, wordsOf_append_dash, wordsOf_toString]

/-- The words of a canonical name: the end of a timestamp, or a digest for the last of them. -/
theorem canonicalName_form (plan : MissionPlan) (p : MissionEvent × AIService) :
    ∃ ws, NameWords ws ∧ canonicalName sha plan p = nameOf ws ∧
      CutForm sha (pairText plan p) 63 ws ∧
      (EventTail ws ∨ ∃ head w, ws = head ++ [w] ∧ w.length = 8) := by
  obtain ⟨ws, hws, hform, hcut, _⟩ :=
    cutName_form sha (wordsOf_pairText_ne_nil plan p) (show 10 ≤ 63 by decide) (by decide)
  refine ⟨ws, hws, hcut, hform, ?_⟩
  cases hform with
  | whole =>
    left
    rw [pairText, wordsOf_append_dash]
    exact (eventTail_timestamp p.1.timestamp).append_left _
  | hashed _ _ => exact .inr ⟨_, _, rfl, sha.length_digest _⟩

theorem occurrences_cons (plan : MissionPlan) (earlier : List String)
    (p : MissionEvent × AIService) (ps : List (MissionEvent × AIService)) :
    occurrences sha plan earlier (p :: ps) =
      (canonicalName sha plan p, earlier.count (canonicalName sha plan p)) ::
        occurrences sha plan (canonicalName sha plan p :: earlier) ps := rfl

/-- An occurrence is of a pair's canonical name, after at least the given earlier ones and no
more than there are. -/
theorem mem_occurrences {plan : MissionPlan} {earlier : List String}
    {ps : List (MissionEvent × AIService)} {o : String × Nat}
    (h : o ∈ occurrences sha plan earlier ps) :
    (∃ p ∈ ps, o.1 = canonicalName sha plan p) ∧ o.2 < earlier.length + ps.length ∧
      earlier.count o.1 ≤ o.2 := by
  induction ps generalizing earlier with
  | nil => exact absurd h List.not_mem_nil
  | cons p ps ih =>
    rw [occurrences_cons] at h
    generalize hcanonical : canonicalName sha plan p = canonical at h
    rcases List.mem_cons.mp h with rfl | h
    · have hcount : earlier.count canonical ≤ earlier.length := List.count_le_length
      refine ⟨⟨p, List.mem_cons_self, hcanonical.symm⟩, ?_, Nat.le_refl _⟩
      show earlier.count canonical < _
      rw [List.length_cons]
      omega
    · obtain ⟨⟨q, hq, hname⟩, hlt, hcount⟩ := ih h
      refine ⟨⟨q, List.mem_cons_of_mem p hq, hname⟩, ?_, ?_⟩
      · rw [List.length_cons] at hlt ⊢
        omega
      · exact List.count_le_count_cons.trans hcount

/-- No canonical name occurs twice after as many earlier ones. -/
theorem occurrences_nodup (plan : MissionPlan) (earlier : List String)
    (ps : List (MissionEvent × AIService)) : (occurrences sha plan earlier ps).Nodup := by
  induction ps generalizing earlier with
  | nil => exact List.nodup_nil
  | cons p ps ih =>
    rw [occurrences_cons]
    generalize canonicalName sha plan p = canonical
    refine List.nodup_cons.mpr ⟨fun h => ?_, ih _⟩
    have hcount : (canonical :: earlier).count canonical ≤ earlier.count canonical :=
      (mem_occurrences sha h).2.2
    rw [List.count_cons_self] at hcount
    omega

/-! ## Digests -/

/-- The text a resource claim template is named by. -/
def claimText (name device : String) : String := name ++ "-" ++ device ++ "-claim"

def devices : List String := ["gpu", "accel"]

/-- The names of a compilation. -/
def workflowNames (plan : MissionPlan) : List String :=
  (compiledFrom sha plan [] (pairs plan)).map WorkflowIntent.workflowName

/-- The texts the digest is applied to: the text of a pair, the text of a later occurrence and
the text of a claim, each where the name made of it has to be cut. -/
inductive Digested (plan : MissionPlan) : String → Prop where
  | pair {p : MissionEvent × AIService} (mem : p ∈ pairs plan)
      (hashed : Hashed (pairText plan p) 63) : Digested plan (pairText plan p)
  | counter {o : String × Nat} (mem : o ∈ occurrences sha plan [] (pairs plan))
      (later : o.2 ≠ 0) (hashed : Hashed (counterText o.1 o.2) 63) :
      Digested plan (counterText o.1 o.2)
  | claim {name device : String} (mem : name ∈ workflowNames sha plan)
      (known : device ∈ devices) (hashed : Hashed (claimText name device) 62) :
      Digested plan (claimText name device)

/-- The digest does not collide on the texts it is applied to. -/
def NoCollision (plan : MissionPlan) : Prop :=
  Set.InjOn (sha.digest 8) { s | Digested sha plan s }

theorem NoCollision.eq {plan : MissionPlan} (h : NoCollision sha plan) {s t : String}
    (hs : Digested sha plan s) (ht : Digested sha plan t)
    (hst : sha.digest 8 s = sha.digest 8 t) : s = t := h hs ht hst

/-! ## Workflow names -/

/-- A text made of a name has no colon in it. -/
theorem colon_not_mem_nameOf {ws : List (List Char)} (h : NameWords ws) :
    ':' ∉ (nameOf ws).toList := by
  intro hmem
  rw [nameOf, String.toList_ofList] at hmem
  rcases mem_dashed hmem with hc | ⟨w, hw, hc⟩
  · exact absurd hc (by decide)
  · exact absurd ((h.word w hw).2 _ hc) (by decide)

theorem colon_mem_pairText (plan : MissionPlan) (p : MissionEvent × AIService) :
    ':' ∈ (pairText plan p).toList := by
  rw [pairText, String.toList_append]
  exact List.mem_append_right _ (colon_mem_timestamp p.1.timestamp)

theorem pairText_ne_counterText {plan : MissionPlan} {p : MissionEvent × AIService}
    {ws : List (List Char)} (h : NameWords ws) (seen : Nat) :
    pairText plan p ≠ counterText (nameOf ws) seen := by
  intro heq
  have hcolon := colon_mem_pairText plan p
  rw [heq, counterText, String.toList_append, String.toList_append] at hcolon
  rcases List.mem_append.mp hcolon with hcolon | hcolon
  · rcases List.mem_append.mp hcolon with hcolon | hcolon
    · exact colon_not_mem_nameOf h hcolon
    · exact absurd hcolon (by decide)
  · rw [toList_toString_eq] at hcolon
    exact absurd (isDigit_of_mem_toDigits hcolon) (by decide)

variable {plan : MissionPlan} {o o' : String × Nat}

/-- The words of the name of a later occurrence. -/
theorem counted_form {ws : List (List Char)} (h : NameWords ws) (hname : o.1 = nameOf ws)
    (hlater : o.2 ≠ 0) :
    ∃ vs, NameWords vs ∧ occurrenceName sha o.1 o.2 = nameOf vs ∧
      (vs = ws ++ [Nat.toDigits 10 (o.2 + 1)] ∨
        Hashed (counterText o.1 o.2) 63 ∧
          ∃ head, vs = head ++ [sha.digest 8 (counterText o.1 o.2)]) := by
  have hwords : wordsOf (counterText o.1 o.2) = ws ++ [Nat.toDigits 10 (o.2 + 1)] := by
    rw [wordsOf_counterText, hname, wordsOf_nameOf h]
  have hne : wordsOf (counterText o.1 o.2) ≠ [] := by
    rw [hwords]
    exact List.append_ne_nil_of_left_ne_nil h.ne_nil _
  obtain ⟨vs, hvs, hform, hcut, _⟩ := cutName_form sha hne (show 10 ≤ 63 by decide) (by decide)
  refine ⟨vs, hvs, by rw [occurrenceName, if_neg hlater, hcut], ?_⟩
  cases hform with
  | whole => exact .inl hwords
  | hashed hhashed _ => exact .inr ⟨hhashed, _, rfl⟩

/-- A counter that a compilation reaches has fewer digits than a digest. -/
theorem length_counter_lt {n : Nat} (h : n < 10 ^ 7) (s : String) :
    Nat.toDigits 10 n ≠ sha.digest 8 s := by
  intro heq
  have hlen := (Nat.length_toDigits_le_iff (by decide) (show 0 < 7 by decide)).mpr h
  rw [heq, sha.length_digest] at hlen
  omega

/-- The words of the plain name of an occurrence, and the count it comes with. -/
theorem plain_form (ho : o ∈ occurrences sha plan [] (pairs plan)) :
    ∃ p ∈ pairs plan, ∃ ws, NameWords ws ∧ o.1 = nameOf ws ∧
      CutForm sha (pairText plan p) 63 ws ∧
      (EventTail ws ∨ ∃ head w, ws = head ++ [w] ∧ w.length = 8) ∧
      o.2 < (pairs plan).length := by
  obtain ⟨⟨p, hp, hname⟩, hlt, _⟩ := mem_occurrences sha ho
  obtain ⟨ws, hws, hcanonical, hform, htail⟩ := canonicalName_form sha plan p
  refine ⟨p, hp, ws, hws, hname.trans hcanonical, hform, htail, ?_⟩
  rwa [List.length_nil, Nat.zero_add] at hlt

/-- A plain name is not the name of a later occurrence. -/
theorem plain_ne_counted (hcoll : NoCollision sha plan) (hcount : (pairs plan).length < 10 ^ 7)
    (ho : o ∈ occurrences sha plan [] (pairs plan))
    (ho' : o' ∈ occurrences sha plan [] (pairs plan)) (hlater : o'.2 ≠ 0) :
    o.1 ≠ occurrenceName sha o'.1 o'.2 := by
  intro h
  obtain ⟨p, hp, ws, hws, hname, hform, _, _⟩ := plain_form sha ho
  obtain ⟨_, _, ws', hws', hname', _, htail', hlt'⟩ := plain_form sha ho'
  obtain ⟨vs, hvs, hcounted, hvs'⟩ := counted_form sha hws' hname' hlater
  rw [hname, hcounted] at h
  have heq := nameOf_injective hws hvs h
  rcases hvs' with rfl | ⟨hhashed', head', rfl⟩
  · cases hform with
    | whole =>
      have htail : EventTail (wordsOf (pairText plan p)) := by
        rw [pairText, wordsOf_append_dash]
        exact (eventTail_timestamp p.1.timestamp).append_left _
      rw [heq] at htail
      exact not_eventTail_append (.inr ⟨fun _ hc => isDigit_of_mem_toDigits hc, htail'⟩) htail
    | hashed _ _ =>
      have hlast := (List.append_inj' heq rfl).2
      exact length_counter_lt sha (by omega) _ (List.singleton_inj.mp hlast).symm
  · cases hform with
    | whole =>
      have htail : EventTail (wordsOf (pairText plan p)) := by
        rw [pairText, wordsOf_append_dash]
        exact (eventTail_timestamp p.1.timestamp).append_left _
      rw [heq] at htail
      exact not_eventTail_append (.inl (sha.length_digest _)) htail
    | hashed hhashed _ =>
      have hdigest := List.singleton_inj.mp (List.append_inj' heq rfl).2
      have htext := hcoll.eq sha (.pair hp hhashed) (.counter ho' hlater hhashed') hdigest
      rw [hname'] at htext
      exact pairText_ne_counterText hws' o'.2 htext

/-- The words of a later occurrence's text tell the occurrence. -/
theorem counted_words_injective {ws ws' : List (List Char)} (hname : o.1 = nameOf ws)
    (hname' : o'.1 = nameOf ws')
    (h : ws ++ [Nat.toDigits 10 (o.2 + 1)] = ws' ++ [Nat.toDigits 10 (o'.2 + 1)]) : o = o' := by
  obtain ⟨hinit, hlast⟩ := List.append_inj' h rfl
  have hdigits : toString (o.2 + 1) = toString (o'.2 + 1) := by
    rw [← String.toList_inj, toList_toString_eq, toList_toString_eq]
    exact List.singleton_inj.mp hlast
  have hcount := toString_injective hdigits
  refine Prod.ext ?_ (by omega)
  rw [hname, hname', hinit]

/-- Two later occurrences of one name are one occurrence. -/
theorem counted_injective (hcoll : NoCollision sha plan)
    (hcount : (pairs plan).length < 10 ^ 7) (ho : o ∈ occurrences sha plan [] (pairs plan))
    (ho' : o' ∈ occurrences sha plan [] (pairs plan)) (hlater : o.2 ≠ 0) (hlater' : o'.2 ≠ 0)
    (h : occurrenceName sha o.1 o.2 = occurrenceName sha o'.1 o'.2) : o = o' := by
  obtain ⟨_, _, ws, hws, hname, _, _, hlt⟩ := plain_form sha ho
  obtain ⟨_, _, ws', hws', hname', _, _, hlt'⟩ := plain_form sha ho'
  obtain ⟨vs, hvs, hcounted, hform⟩ := counted_form sha hws hname hlater
  obtain ⟨vs', hvs', hcounted', hform'⟩ := counted_form sha hws' hname' hlater'
  rw [hcounted, hcounted'] at h
  have heq := nameOf_injective hvs hvs' h
  rcases hform with rfl | ⟨hhashed, head, rfl⟩
  · rcases hform' with rfl | ⟨_, head', rfl⟩
    · exact counted_words_injective hname hname' heq
    · have hlast := (List.append_inj' heq rfl).2
      exact absurd (List.singleton_inj.mp hlast) (length_counter_lt sha (by omega) _)
  · rcases hform' with rfl | ⟨hhashed', head', rfl⟩
    · have hlast := (List.append_inj' heq rfl).2
      exact absurd (List.singleton_inj.mp hlast).symm (length_counter_lt sha (by omega) _)
    · have hdigest := List.singleton_inj.mp (List.append_inj' heq rfl).2
      have htext := hcoll.eq sha (.counter ho hlater hhashed) (.counter ho' hlater' hhashed')
        hdigest
      have hwords := congrArg wordsOf htext
      rw [wordsOf_counterText, wordsOf_counterText, hname, hname', wordsOf_nameOf hws,
        wordsOf_nameOf hws'] at hwords
      exact counted_words_injective hname hname' hwords

/-- The workflow names of a compilation are distinct. -/
theorem workflowNames_nodup (hcoll : NoCollision sha plan)
    (hcount : (pairs plan).length < 10 ^ 7) : (workflowNames sha plan).Nodup := by
  rw [workflowNames, compiledFrom_names]
  refine (occurrences_nodup sha plan [] (pairs plan)).map_on fun o ho o' ho' h => ?_
  by_cases hlater : o.2 = 0
  · by_cases hlater' : o'.2 = 0
    · have hplain : o.1 = o'.1 := by
        rwa [occurrenceName, occurrenceName, if_pos hlater, if_pos hlater'] at h
      exact Prod.ext hplain (hlater.trans hlater'.symm)
    · rw [occurrenceName, if_pos hlater] at h
      exact absurd h (plain_ne_counted sha hcoll hcount ho ho' hlater')
  · by_cases hlater' : o'.2 = 0
    · rw [occurrenceName.eq_def sha o'.1, if_pos hlater'] at h
      exact absurd h.symm (plain_ne_counted sha hcoll hcount ho' ho hlater)
    · exact counted_injective sha hcoll hcount ho ho' hlater hlater' h

end MissionCompiler.Compile
