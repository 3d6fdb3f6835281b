import MissionCompiler.Policy.Decision

/-!
# The gate is fail-closed

What a decision has to be to admit a plan (`Admits`) or to deny it for given reasons (`Denies`),
stated over the JSON value without an order of checks, and the gate against it: it returns on
the first kind, raises the violations on the second, and reports the engine unavailable on
every other value, with no exception of another kind (`enforcePolicyOrRaise_opa`).
-/

namespace MissionCompiler.Policy

open Lib

/-! ## What a decision says -/

/-- An object with the six fields of a violation, each of the type its readers rely on. -/
structure TypedShape (v : Json) : Prop where
  rule : v.get? "rule" = some .null ∨ ∃ n, v.get? "rule" = some (.num (.int n))
  ruleId : ∃ s, v.get? "rule_id" = some (.str s) ∧ s ≠ ""
  severity : ∃ s, v.get? "severity" = some (.str s) ∧ s ∈ ["T1", "T2", "T3", "T4"]
  provenance : ∃ s, v.get? "provenance" = some (.str s) ∧ s ∈ ["A", "D"]
  path : ∃ s, v.get? "path" = some (.str s)
  message : ∃ s, v.get? "message" = some (.str s) ∧ s ≠ ""

/-- A list of denials that says what the violations say, reason for reason. -/
def DenySame (value : Json) (items : List Json) : Prop :=
  ∃ messages : List String, value.get? "deny" = some (.arr (messages.map .str)) ∧
    ∀ m, m ∈ messages ↔ ∃ v ∈ items, v.get? "message" = some (.str m)

/-- The violations a decision carries: the typed list, or where there is none the denials. -/
inductive Carries (value : Json) : List Json → Prop where
  | typed {items : List Json} (present : value.get? "violations" = some (.arr items))
      (shapes : ∀ v ∈ items, TypedShape v)
      (deny : value.get? "deny" = none ∨ DenySame value items) : Carries value items
  | projected {messages : List String} (absent : value.get? "violations" = none)
      (deny : value.get? "deny" = some (.arr (messages.map .str))) :
      Carries value (messages.map projectDeny)

/-- A decision that can be acted on: it carries violations, and does not deny them in `allow`. -/
structure Trusted (value : Json) (vs : List Json) : Prop where
  object : value.isObj = true
  carries : Carries value vs
  allow : value.get? "allow" = none ∨ value.get? "allow" = some (.bool vs.isEmpty)

/-- A decision that admits the plan. -/
structure Admits (value : Json) : Prop where
  object : value.isObj = true
  violations : value.get? "violations" = none ∨ value.get? "violations" = some (.arr [])
  deny : value.get? "deny" = none ∨ value.get? "deny" = some (.arr [])
  present : value.get? "violations" ≠ none ∨ value.get? "deny" ≠ none
  allow : value.get? "allow" = none ∨ value.get? "allow" = some (.bool true)

/-- A decision that denies the plan for the given violations. -/
structure Denies (value : Json) (vs : List Json) : Prop where
  object : value.isObj = true
  reasons :
    (value.get? "violations" = some (.arr vs) ∧ vs ≠ [] ∧ (∀ v ∈ vs, TypedShape v) ∧
      (value.get? "deny" = none ∨ DenySame value vs)) ∨
    (value.get? "violations" = none ∧ ∃ messages : List String, messages ≠ [] ∧
      value.get? "deny" = some (.arr (messages.map .str)) ∧ vs = messages.map projectDeny)
  allow : value.get? "allow" = none ∨ value.get? "allow" = some (.bool false)

/-- Where the decision value stands in the document `opa eval` prints. -/
def DecisionAt (document value : Json) : Prop :=
  ∃ result results expression expressions,
    document.get? "result" = some (.arr (result :: results)) ∧
    result.get? "expressions" = some (.arr (expression :: expressions)) ∧
    expression.get? "value" = some value

theorem admits_iff_trusted {value : Json} : Admits value ↔ Trusted value [] := by
  constructor
  · rintro ⟨hobj, hv, hd, hpresent, hallow⟩
    refine ⟨hobj, ?_, hallow⟩
    rcases hv with hv | hv
    · rcases hd with hd | hd
      · exact absurd hd (hpresent.resolve_left (absurd hv))
      · have hd : value.get? "deny" = some (.arr (([] : List String).map .str)) := hd
        exact .projected hv hd
    · refine .typed hv (fun v hmem => absurd hmem List.not_mem_nil) (hd.imp_right fun hd => ?_)
      exact ⟨[], hd, fun m => by simp⟩
  · rintro ⟨hobj, hcarries, hallow⟩
    generalize hnil : ([] : List Json) = vs at hcarries
    cases hcarries with
    | typed present shapes deny =>
      subst hnil
      refine ⟨hobj, .inr present, deny.imp_right ?_, .inl (by rw [present]; simp), hallow⟩
      rintro ⟨messages, hd, hsame⟩
      have hempty : messages = [] := by
        refine List.eq_nil_iff_forall_not_mem.mpr fun m hm => ?_
        obtain ⟨v, hv, _⟩ := (hsame m).mp hm
        exact List.not_mem_nil hv
      rw [hd, hempty]
      rfl
    | projected absent deny =>
      have hempty := List.map_eq_nil_iff.mp hnil.symm
      rw [hempty] at deny
      exact ⟨hobj, .inl absent, .inr deny, .inr (by rw [deny]; simp), hallow⟩

theorem denies_iff_trusted {value : Json} {vs : List Json} :
    Denies value vs ↔ Trusted value vs ∧ vs ≠ [] := by
  constructor
  · rintro ⟨hobj, hreasons, hallow⟩
    have hne : vs ≠ [] := by
      rcases hreasons with ⟨_, hne, _⟩ | ⟨_, messages, hne, _, rfl⟩
      · exact hne
      · simpa using hne
    have hempty : vs.isEmpty = false := by simpa using hne
    refine ⟨⟨hobj, ?_, by rw [hempty]; exact hallow⟩, hne⟩
    rcases hreasons with ⟨hv, _, hshapes, hd⟩ | ⟨hv, messages, _, hd, rfl⟩
    · exact .typed hv hshapes hd
    · exact .projected hv hd
  · rintro ⟨⟨hobj, hcarries, hallow⟩, hne⟩
    have hempty : vs.isEmpty = false := by simpa using hne
    rw [hempty] at hallow
    refine ⟨hobj, ?_, hallow⟩
    cases hcarries with
    | typed present shapes deny => exact .inl ⟨present, hne, shapes, deny⟩
    | projected absent deny => exact .inr ⟨absent, _, by simpa using hne, deny, rfl⟩

/-! ## Failing closed -/

/-- A step of the gate computes the one value `P` holds of, and where `P` holds of none it
reports the engine unavailable. -/
def FailsClosed {α : Type} (x : Except GateError α) (P : α → Prop) : Prop :=
  (∃ a, x = .ok a ∧ ∀ b, P b ↔ b = a) ∨ (∃ m, x = unavailable m) ∧ ∀ b, ¬ P b

namespace FailsClosed

variable {α β : Type} {x : Except GateError α} {P Q : α → Prop}

theorem of_ok {a : α} (h : ∀ b, P b ↔ b = a) : FailsClosed (.ok a) P := .inl ⟨a, rfl, h⟩

theorem of_unavailable {m : String} (h : ∀ b, ¬ P b) : FailsClosed (unavailable m) P :=
  .inr ⟨⟨m, rfl⟩, h⟩

theorem congr (hx : FailsClosed x P) (h : ∀ b, Q b ↔ P b) : FailsClosed x Q := by
  simpa only [FailsClosed, h] using hx

/-- Steps that fail closed fail closed one after the other. -/
theorem bind {f : α → Except GateError β} {R : α → β → Prop} (hx : FailsClosed x P)
    (hf : ∀ a, P a → FailsClosed (f a) (R a)) :
    FailsClosed (x >>= f) fun b => ∃ a, P a ∧ R a b := by
  rcases hx with ⟨a, rfl, ha⟩ | ⟨⟨m, rfl⟩, hnone⟩
  · refine (hf a ((ha a).mpr rfl)).congr fun b => ?_
    constructor
    · rintro ⟨c, hc, hb⟩
      rwa [(ha c).mp hc] at hb
    · intro hb
      exact ⟨a, (ha a).mpr rfl, hb⟩
  · exact of_unavailable fun b ⟨a, ha, _⟩ => hnone a ha

end FailsClosed

/-! ## One violation -/

theorem isNonemptyStr_iff {j : Json} : isNonemptyStr j = true ↔ ∃ s, j = .str s ∧ s ≠ "" := by
  cases j <;> simp [isNonemptyStr, Json.isStr, Json.eqStr]

/-- A guarded membership test raises nothing. -/
theorem strIn_eq (members : List String) (j : Json) :
    strIn members j = .ok (j.str?.any members.contains) := by
  cases j <;> rfl

theorem str?_any_iff {members : List String} {j : Json} :
    j.str?.any members.contains = true ↔ ∃ s, j = .str s ∧ s ∈ members := by
  cases j <;> simp [Json.str?]

/-- The checks of an item that has the six keys, none of them raising. -/
theorem violationChecks_eq {item rule ruleId severity provenance path message : Json}
    (hr : item.get? "rule" = some rule) (hid : item.get? "rule_id" = some ruleId)
    (hs : item.get? "severity" = some severity) (hp : item.get? "provenance" = some provenance)
    (hpath : item.get? "path" = some path) (hm : item.get? "message" = some message) :
    violationChecks item = .ok [("rule", rule.isNull || rule.isInt),
      ("rule_id", isNonemptyStr ruleId),
      ("severity", severity.str?.any ["T1", "T2", "T3", "T4"].contains),
      ("provenance", provenance.str?.any ["A", "D"].contains), ("path", path.isStr),
      ("message", isNonemptyStr message)] := by
  simp only [violationChecks, Json.subscript_eq_ok.mpr hr, Json.subscript_eq_ok.mpr hid,
    Json.subscript_eq_ok.mpr hs, Json.subscript_eq_ok.mpr hp, Json.subscript_eq_ok.mpr hpath,
    Json.subscript_eq_ok.mpr hm, strIn_eq]
  rfl

variable (repr : Json → String)

theorem violationKeys_all_iff {item : Json} :
    (violationKeys.all fun key => (item.get? key).isSome) = true ↔
      ∃ rule ruleId severity provenance path message, item.get? "rule" = some rule ∧
        item.get? "rule_id" = some ruleId ∧ item.get? "severity" = some severity ∧
        item.get? "provenance" = some provenance ∧ item.get? "path" = some path ∧
        item.get? "message" = some message := by
  simp only [violationKeys, List.all_cons, List.all_nil, Bool.and_true, Bool.and_eq_true,
    Option.isSome_iff_exists]
  constructor
  · rintro ⟨⟨r, hr⟩, ⟨id, hid⟩, ⟨s, hs⟩, ⟨p, hp⟩, ⟨path, hpath⟩, ⟨m, hm⟩⟩
    exact ⟨r, id, s, p, path, m, hr, hid, hs, hp, hpath, hm⟩
  · rintro ⟨r, id, s, p, path, m, hr, hid, hs, hp, hpath, hm⟩
    exact ⟨⟨r, hr⟩, ⟨id, hid⟩, ⟨s, hs⟩, ⟨p, hp⟩, ⟨path, hpath⟩, ⟨m, hm⟩⟩

/-- The typed shape, over the six fields of an item that has them. -/
theorem typedShape_iff {item rule ruleId severity provenance path message : Json}
    (hr : item.get? "rule" = some rule) (hid : item.get? "rule_id" = some ruleId)
    (hs : item.get? "severity" = some severity) (hp : item.get? "provenance" = some provenance)
    (hpath : item.get? "path" = some path) (hm : item.get? "message" = some message) :
    TypedShape item ↔ (rule.isNull || rule.isInt) = true ∧ isNonemptyStr ruleId = true ∧
      severity.str?.any ["T1", "T2", "T3", "T4"].contains = true ∧
      provenance.str?.any ["A", "D"].contains = true ∧ path.isStr = true ∧
      isNonemptyStr message = true := by
  rw [isNonemptyStr_iff, isNonemptyStr_iff, str?_any_iff, str?_any_iff, Json.isStr_iff,
    Bool.or_eq_true, Json.isNull_iff, Json.isInt_iff]
  constructor
  · rintro ⟨h1, h2, h3, h4, h5, h6⟩
    rw [hr] at h1
    rw [hid] at h2
    rw [hs] at h3
    rw [hp] at h4
    rw [hpath] at h5
    rw [hm] at h6
    simp only [Option.some.injEq] at h1 h2 h3 h4 h5 h6
    exact ⟨h1, h2, h3, h4, h5, h6⟩
  · rintro ⟨h1, h2, h3, h4, h5, h6⟩
    constructor
    · rw [hr]; simpa using h1
    · rw [hid]; simpa using h2
    · rw [hs]; simpa using h3
    · rw [hp]; simpa using h4
    · rw [hpath]; simpa using h5
    · rw [hm]; simpa using h6

theorem TypedShape.object {item : Json} (h : TypedShape item) : item.isObj = true := by
  obtain ⟨s, hs, _⟩ := h.message
  cases item with
  | obj kvs => rfl
  | _ => cases hs

theorem TypedShape.keys {item : Json} (h : TypedShape item) :
    (violationKeys.all fun key => (item.get? key).isSome) = true := by
  obtain ⟨rule, hrule⟩ : ∃ rule, item.get? "rule" = some rule := by
    rcases h.rule with hnull | ⟨n, hn⟩
    · exact ⟨_, hnull⟩
    · exact ⟨_, hn⟩
  obtain ⟨id, hid, _⟩ := h.ruleId
  obtain ⟨s, hs, _⟩ := h.severity
  obtain ⟨p, hp, _⟩ := h.provenance
  obtain ⟨path, hpath⟩ := h.path
  obtain ⟨m, hm, _⟩ := h.message
  exact violationKeys_all_iff.mpr ⟨rule, _, _, _, _, _, hrule, hid, hs, hp, hpath, hm⟩

theorem reportChecks_failsClosed (item : Json) (checks : List (String × Bool)) :
    FailsClosed (reportChecks repr item checks) fun _ => ∀ c ∈ checks, c.2 = true := by
  induction checks with
  | nil => exact .of_ok fun _ => by simp
  | cons check checks ih =>
    obtain ⟨field, ok⟩ := check
    cases ok with
    | false => exact .of_unavailable fun _ h => Bool.noConfusion (h _ List.mem_cons_self)
    | true => exact ih.congr fun _ => by simp

/-- `_validate_typed_violation` accepts the typed shape and nothing else. -/
theorem validateTypedViolation_failsClosed (item : Json) :
    FailsClosed (validateTypedViolation repr item) fun _ => TypedShape item := by
  unfold validateTypedViolation
  by_cases hshape : (item.isObj && violationKeys.all fun key => (item.get? key).isSome) = true
  · obtain ⟨_, hkeys⟩ := Bool.and_eq_true_iff.mp hshape
    obtain ⟨rule, ruleId, severity, provenance, path, message, hr, hid, hs, hp, hpath, hm⟩ :=
      violationKeys_all_iff.mp hkeys
    rw [hshape, violationChecks_eq hr hid hs hp hpath hm]
    refine (reportChecks_failsClosed repr item _).congr fun _ => ?_
    rw [typedShape_iff hr hid hs hp hpath hm]
    simp only [List.forall_mem_cons, List.not_mem_nil, false_implies, implies_true, and_true]
  · rw [Bool.not_eq_true] at hshape
    rw [hshape]
    refine .of_unavailable fun _ ht => ?_
    rw [ht.object, ht.keys] at hshape
    exact Bool.noConfusion hshape

/-- The loop over the items accepts a list of them of the typed shape. -/
theorem validateItems_failsClosed (items : List Json) :
    FailsClosed (items.forM (validateTypedViolation repr)) fun _ => ∀ v ∈ items, TypedShape v := by
  induction items with
  | nil => exact .of_ok fun _ => by simp
  | cons item items ih =>
    refine ((validateTypedViolation_failsClosed repr item).bind fun _ _ => ih).congr fun _ => ?_
    rw [List.forall_mem_cons]
    exact ⟨fun h => ⟨(), h.1, h.2⟩, fun ⟨_, h⟩ => h⟩

/-! ## The whole decision -/

/-- The messages of items of the typed shape, none of them raising. -/
theorem mapM_messageOf {items : List Json} (h : ∀ v ∈ items, TypedShape v) :
    ∃ messages, items.mapM messageOf = .ok messages ∧
      ∀ m, m ∈ messages ↔ ∃ v ∈ items, v.get? "message" = some (.str m) := by
  induction items with
  | nil => exact ⟨[], rfl, by simp⟩
  | cons item items ih =>
    obtain ⟨hitem, hrest⟩ := List.forall_mem_cons.mp h
    obtain ⟨messages, hmessages, hmem⟩ := ih hrest
    obtain ⟨s, hs, _⟩ := hitem.message
    have hmessage : messageOf item = .ok s := by
      rw [messageOf, Json.subscript_eq_ok.mpr hs]
      rfl
    refine ⟨s :: messages, ?_, fun m => ?_⟩
    · rw [List.mapM_cons, hmessage, hmessages]
      rfl
    · rw [List.mem_cons, List.exists_mem_cons_iff, hmem, hs]
      simp [eq_comm]

theorem sameSet_iff {a b : List String} : sameSet a b = true ↔ ∀ m, m ∈ a ↔ m ∈ b := by
  simp only [sameSet, Bool.and_eq_true, List.all_eq_true, List.contains_iff_mem]
  constructor
  · intro h m
    exact ⟨h.1 m, h.2 m⟩
  · intro h
    exact ⟨fun m => (h m).mp, fun m => (h m).mpr⟩

/-- What the field `deny` says, once it is read. -/
def DenyRead (value : Json) (denyMessages : Option (List String)) : Prop :=
  value.get? "deny" = denyMessages.map fun messages => .arr (messages.map .str)

theorem readDeny_failsClosed (value : Json) :
    FailsClosed (readDeny repr value) (DenyRead value) := by
  unfold readDeny DenyRead
  cases value.get? "deny" with
  | none => exact .of_ok fun d => by cases d <;> simp
  | some deny =>
    cases hdeny : deny.strings? with
    | some messages =>
      simp only [hdeny]
      refine .of_ok fun d => ?_
      rw [Json.strings?_eq_some] at hdeny
      subst hdeny
      cases d with
      | none => simp
      | some ms =>
        simp only [Option.map_some, Option.some.injEq, Json.arr.injEq]
        exact ⟨fun h => (List.map_injective_iff.mpr (fun _ _ => Json.str.inj) h).symm,
          fun h => by rw [h]⟩
    | none =>
      simp only [hdeny]
      refine .of_unavailable fun d hd => ?_
      cases d with
      | none => cases hd
      | some ms =>
        have hs := Json.strings?_eq_some.mpr (Option.some.inj hd)
        rw [hdeny] at hs
        cases hs

/-- The comparison with the denials, once the items have the typed shape. -/
theorem compareDeny_failsClosed {value : Json} {items : List Json}
    {denyMessages : Option (List String)} (hdeny : DenyRead value denyMessages)
    (hshapes : ∀ v ∈ items, TypedShape v) :
    FailsClosed (compareDeny repr items denyMessages) fun vs =>
      vs = items ∧ (value.get? "deny" = none ∨ DenySame value items) := by
  cases denyMessages with
  | none => exact .of_ok fun vs => by simp [show value.get? "deny" = none from hdeny]
  | some messages =>
    have hd : value.get? "deny" = some (.arr (messages.map .str)) := hdeny
    obtain ⟨projected, hprojected, hmem⟩ := mapM_messageOf hshapes
    have hsame : DenySame value items ↔ sameSet messages projected = true := by
      rw [sameSet_iff]
      constructor
      · rintro ⟨ms, hms, hiff⟩ m
        rw [hd] at hms
        have hinj := List.map_injective_iff.mpr (fun _ _ => Json.str.inj)
          (Json.arr.inj (Option.some.inj hms))
        rw [hinj, hiff, hmem]
      · intro h
        exact ⟨messages, hd, fun m => (h m).trans (hmem m)⟩
    show FailsClosed (python (items.mapM messageOf) >>= _) _
    rw [hprojected, hd, hsame]
    show FailsClosed (if !sameSet messages projected then _ else _) _
    cases sameSet messages projected with
    | false => exact .of_unavailable fun vs => by simp
    | true => exact .of_ok fun vs => by simp

theorem readViolations_failsClosed {value raw : Json} {denyMessages : Option (List String)}
    (hdeny : DenyRead value denyMessages) (hraw : value.get? "violations" = some raw) :
    FailsClosed (readViolations repr raw denyMessages) (Carries value) := by
  cases raw with
  | arr items =>
    refine ((validateItems_failsClosed repr items).bind fun _ hshapes =>
      compareDeny_failsClosed repr hdeny hshapes).congr fun vs => ?_
    constructor
    · rintro (⟨present, shapes, deny⟩ | ⟨absent, _⟩)
      · cases hraw.symm.trans present
        exact ⟨(), shapes, rfl, deny⟩
      · cases hraw.symm.trans absent
    · rintro ⟨_, shapes, rfl, deny⟩
      exact .typed hraw shapes deny
  | _ =>
    refine .of_unavailable fun vs => ?_
    rintro (⟨present, _⟩ | ⟨absent, _⟩)
    · cases hraw.symm.trans present
    · cases hraw.symm.trans absent

theorem decisionViolations_failsClosed {value : Json} {denyMessages : Option (List String)}
    (hdeny : DenyRead value denyMessages) :
    FailsClosed (decisionViolations repr value denyMessages) (Carries value) := by
  unfold decisionViolations
  cases hraw : value.get? "violations" with
  | some raw => exact readViolations_failsClosed repr hdeny hraw
  | none =>
    cases denyMessages with
    | some messages =>
      refine .of_ok fun vs => ?_
      constructor
      · rintro (⟨present, _⟩ | ⟨_, deny⟩)
        · cases hraw.symm.trans present
        · have hd : value.get? "deny" = some (.arr (messages.map .str)) := hdeny
          have hinj := List.map_injective_iff.mpr (fun _ _ => Json.str.inj)
            (Json.arr.inj (Option.some.inj (hd.symm.trans deny)))
          rw [hinj]
      · rintro rfl
        exact .projected hraw hdeny
    | none =>
      refine .of_unavailable fun vs => ?_
      have hd : value.get? "deny" = none := hdeny
      rintro (⟨present, _⟩ | ⟨_, deny⟩)
      · cases hraw.symm.trans present
      · cases hd.symm.trans deny

/-- The last check: an `allow` that is there, and boolean, says what the violations say. -/
theorem checkAllow_failsClosed {value : Json} (vs : List Json)
    (hbool : ∀ allow, value.get? "allow" = some allow → allow.isBool = true) :
    FailsClosed (checkAllow (value.field "allow") vs) fun b => b = vs ∧
      (value.get? "allow" = none ∨ value.get? "allow" = some (.bool vs.isEmpty)) := by
  unfold Json.field
  cases hallow : value.get? "allow" with
  | none => exact .of_ok fun b => by simp
  | some allow =>
    obtain ⟨b, rfl⟩ := Json.isBool_iff.mp (hbool allow hallow)
    show FailsClosed (if b == !vs.isEmpty then _ else _) _
    cases hb : (b == !vs.isEmpty) with
    | true =>
      refine .of_unavailable fun c => ?_
      rw [beq_iff_eq] at hb
      rw [hb]
      simp
    | false =>
      refine .of_ok fun c => ?_
      have hsame : b = vs.isEmpty := by
        cases b <;> cases he : vs.isEmpty <;> simp_all
      rw [hsame]
      simp

/-- `typed_violations_from_decision` returns the violations of a decision that can be acted on,
and reports the engine unavailable on every other JSON value. -/
theorem typedViolationsFromDecision_failsClosed (value : Json) :
    FailsClosed (typedViolationsFromDecision repr value) (Trusted value) := by
  unfold typedViolationsFromDecision
  cases hobj : value.isObj with
  | false =>
    refine .of_unavailable fun vs ht => ?_
    have hcontra := ht.object
    rw [hobj] at hcontra
    exact Bool.noConfusion hcontra
  | true =>
    show FailsClosed (if (value.get? "allow").isSome && !(value.field "allow").isBool then _
      else _) _
    split
    · next hbad =>
      obtain ⟨hsome, hnotBool⟩ := Bool.and_eq_true_iff.mp hbad
      refine .of_unavailable fun vs ht => ?_
      rcases ht.allow with hnone | hb
      · rw [hnone] at hsome
        exact Bool.noConfusion hsome
      · rw [Json.field_eq_of_get? hb] at hnotBool
        exact Bool.noConfusion hnotBool
    · next hgood =>
      have hbool : ∀ allow, value.get? "allow" = some allow → allow.isBool = true := by
        intro allow hallow
        rw [hallow, Json.field_eq_of_get? hallow] at hgood
        simpa using hgood
      refine ((readDeny_failsClosed repr value).bind fun denyMessages hdeny =>
        (decisionViolations_failsClosed repr hdeny).bind fun vs _ =>
          checkAllow_failsClosed vs hbool).congr fun vs => ?_
      constructor
      · rintro ⟨_, hcarries, hallow⟩
        obtain ⟨denyMessages, hdeny⟩ : ∃ d, DenyRead value d := by
          rcases hcarries with ⟨_, _, hnone | ⟨messages, hd, _⟩⟩ | ⟨_, hd⟩
          · exact ⟨none, hnone⟩
          · exact ⟨some messages, hd⟩
          · exact ⟨some _, hd⟩
        exact ⟨denyMessages, hdeny, vs, hcarries, rfl, hallow⟩
      · rintro ⟨_, _, _, hcarries, rfl, hallow⟩
        exact ⟨hobj, hcarries, hallow⟩

/-! ## The gate -/

/-- The first element that has a field is the first element of an array: a string's is a
string. -/
theorem subscriptAt_zero_of_get? {j v w : Json} {key : String} (hv : j.subscriptAt 0 = .ok v)
    (hw : v.get? key = some w) : ∃ rest, j = .arr (v :: rest) := by
  cases j with
  | arr xs =>
    cases xs with
    | nil => cases hv
    | cons x xs =>
      cases hv
      exact ⟨xs, rfl⟩
  | str s =>
    rw [Json.subscriptAt] at hv
    cases hs : s.toList[0]? with
    | none => rw [hs] at hv; cases hv
    | some c => rw [hs] at hv; cases hv; cases hw
  | _ => cases hv

theorem decisionValue_eq_ok {document value : Json} :
    decisionValue document = .ok value ↔ DecisionAt document value := by
  simp only [decisionValue, bind_eq_ok, Json.subscript_eq_ok]
  constructor
  · rintro ⟨results, hresults, result, hresult, expressions, hexpressions, expression,
      hexpression, hvalue⟩
    obtain ⟨results, rfl⟩ := subscriptAt_zero_of_get? hresult hexpressions
    obtain ⟨expressions, rfl⟩ := subscriptAt_zero_of_get? hexpression hvalue
    exact ⟨result, results, expression, expressions, hresults, hexpressions, hvalue⟩
  · rintro ⟨result, results, expression, expressions, hresults, hexpressions, hvalue⟩
    exact ⟨_, hresults, result, rfl, _, hexpressions, expression, rfl, hvalue⟩

/-- What reading a JSON value raises. -/
def subscriptErrors : List Exn := [.keyError, .indexError, .typeError]

/-- The exceptions the gate catches around the decoder. -/
def caught : List Exn := [.valueError, .keyError, .indexError, .typeError]

theorem subscript_raises {j : Json} {key : String} {e : Exn} (h : j.subscript key = .error e) :
    e ∈ subscriptErrors := by
  cases j with
  | obj kvs =>
    rw [Json.subscript] at h
    split at h
    · cases h
    · cases h; decide
  | _ => cases h; decide

theorem subscriptAt_raises {j : Json} {i : Nat} {e : Exn} (h : j.subscriptAt i = .error e) :
    e ∈ subscriptErrors := by
  cases j with
  | arr xs =>
    rw [Json.subscriptAt] at h
    split at h
    · cases h
    · cases h; decide
  | str s =>
    rw [Json.subscriptAt] at h
    split at h
    · cases h
    · cases h; decide
  | _ => cases h; decide

theorem decisionValue_raises {document : Json} {e : Exn} (h : decisionValue document = .error e) :
    e ∈ subscriptErrors := by
  rcases bind_eq_error.mp h with h | ⟨results, _, h⟩
  · exact subscript_raises h
  rcases bind_eq_error.mp h with h | ⟨result, _, h⟩
  · exact subscriptAt_raises h
  rcases bind_eq_error.mp h with h | ⟨expressions, _, h⟩
  · exact subscript_raises h
  rcases bind_eq_error.mp h with h | ⟨expression, _, h⟩
  · exact subscriptAt_raises h
  · exact subscript_raises h

variable (host : Host)

/-- The decision value that stands in an output. -/
def Decided (out : String) (value : Json) : Prop :=
  ∃ document, host.loads out = some document ∧ DecisionAt document value

theorem readDecision_failsClosed (out : String) :
    FailsClosed (readDecision host out) (Decided host out) := by
  unfold readDecision Decided
  cases host.loads out with
  | none =>
    refine .of_unavailable ?_
    rintro value ⟨_, h, _⟩
    cases h
  | some document =>
    cases hvalue : decisionValue document with
    | ok value =>
      simp only [hvalue]
      refine .of_ok fun v => ?_
      constructor
      · rintro ⟨_, hdocument, hat⟩
        cases hdocument
        rw [← decisionValue_eq_ok, hvalue] at hat
        exact (Except.ok.inj hat).symm
      · rintro rfl
        exact ⟨document, rfl, decisionValue_eq_ok.mp hvalue⟩
    | error e =>
      simp only [hvalue]
      show FailsClosed (if e ∈ caught then _ else _) _
      have hcaught : e ∈ caught := List.mem_cons_of_mem _ (decisionValue_raises hvalue)
      rw [if_pos hcaught]
      refine .of_unavailable ?_
      rintro v ⟨_, hdocument, hat⟩
      cases hdocument
      rw [← decisionValue_eq_ok, hvalue] at hat
      cases hat

/-- The opa process ran to its end, and printed a decision value of which `P` holds. -/
def Decides (available : Bool) (run : OpaRun) (P : Json → Prop) : Prop :=
  available = true ∧ (evalPolicy run).1 = 0 ∧
    ∃ value, Decided host (evalPolicy run).2 value ∧ P value

theorem evaluatePolicyDecision_opa_failsClosed (available : Bool) (run : OpaRun)
    (plan : List (String × Json)) :
    FailsClosed (evaluatePolicyDecision host "opa" available run plan) fun vs =>
      Decides host available run fun value => Trusted value vs := by
  show FailsClosed (if !available then _ else if (evalPolicy run).1 != 0 then _
    else readDecision host (evalPolicy run).2 >>= typedViolationsFromDecision host.repr) _
  unfold Decides
  cases available with
  | false => exact .of_unavailable fun vs h => Bool.noConfusion h.1
  | true =>
    by_cases hrc : (evalPolicy run).1 = 0
    · rw [hrc]
      refine ((readDecision_failsClosed host _).bind fun value _ =>
        typedViolationsFromDecision_failsClosed host.repr value).congr fun vs => ?_
      simp only [true_and]
    · have hne : ((evalPolicy run).1 != 0) = true := by simpa using hrc
      rw [hne]
      exact .of_unavailable fun vs h => hrc h.2.1

/-- The projection of a list of denials keeps its messages. -/
theorem mapM_messageOf_projectDeny (messages : List String) :
    (messages.map projectDeny).mapM messageOf = .ok messages := by
  induction messages with
  | nil => rfl
  | cons m messages ih =>
    have hm : messageOf (projectDeny m) = .ok m := rfl
    rw [List.map_cons, List.mapM_cons, hm, ih]
    rfl

/-- The violations a decision carries have messages to be joined. -/
theorem Trusted.messages {value : Json} {vs : List Json} (h : Trusted value vs) :
    ∃ messages, vs.mapM messageOf = .ok messages := by
  rcases h.carries with ⟨_, shapes, _⟩ | ⟨_, _⟩
  · obtain ⟨messages, hmessages, _⟩ := mapM_messageOf shapes
    exact ⟨messages, hmessages⟩
  · exact ⟨_, mapM_messageOf_projectDeny _⟩

/-- What the gate does with the violations of a decision it can act on. -/
theorem enforcePolicyOrRaise_of_ok {engine : String} {available : Bool} {run : OpaRun}
    {plan : List (String × Json)} {vs : List Json}
    (h : evaluatePolicyDecision host engine available run plan = .ok vs) :
    enforcePolicyOrRaise host engine available run plan =
      if !vs.isEmpty then raisePolicyViolation vs else .ok () := by
  rw [enforcePolicyOrRaise, h]
  rfl

/-- A decision that can be acted on denies for its violations when it carries any. -/
theorem decides_denies_iff {available : Bool} {run : OpaRun} {vs : List Json} :
    (Decides host available run fun value => Denies value vs) ↔
      (Decides host available run fun value => Trusted value vs) ∧ vs ≠ [] := by
  simp only [Decides, denies_iff_trusted]
  constructor
  · rintro ⟨havailable, hrc, value, hvalue, htrusted, hne⟩
    exact ⟨⟨havailable, hrc, value, hvalue, htrusted⟩, hne⟩
  · rintro ⟨⟨havailable, hrc, value, hvalue, htrusted⟩, hne⟩
    exact ⟨havailable, hrc, value, hvalue, htrusted, hne⟩

/-- With the engine `opa`, whatever came of the process: the gate returns exactly when the
decision admits, raises the violations exactly of a decision that denies, and otherwise
reports the engine unavailable. It raises nothing else. -/
theorem enforcePolicyOrRaise_opa (available : Bool) (run : OpaRun) (plan : List (String × Json)) :
    (enforcePolicyOrRaise host "opa" available run plan = .ok () ↔
      Decides host available run Admits) ∧
    (∀ vs, (∃ e, enforcePolicyOrRaise host "opa" available run plan = .error (.policyViolation e) ∧
        e.violations = vs) ↔ Decides host available run fun value => Denies value vs) ∧
    (Decides host available run Admits ∨
      (∃ vs, Decides host available run fun value => Denies value vs) ∨
      ∃ message, enforcePolicyOrRaise host "opa" available run plan = unavailable message) := by
  have hadmits : Decides host available run Admits ↔
      Decides host available run fun value => Trusted value [] := by
    simp only [Decides, admits_iff_trusted]
  simp only [hadmits, decides_denies_iff]
  rcases evaluatePolicyDecision_opa_failsClosed host available run plan with
    ⟨vs, hvs, honly⟩ | ⟨⟨message, hm⟩, hnone⟩
  · rw [enforcePolicyOrRaise_of_ok host hvs]
    obtain ⟨_, _, value, _, htrusted⟩ := (honly vs).mpr rfl
    cases vs with
    | nil =>
      have hdecided := (honly []).mpr rfl
      refine ⟨⟨fun _ => hdecided, fun _ => rfl⟩, fun vs => ⟨?_, ?_⟩, .inl hdecided⟩
      · rintro ⟨e, he, _⟩
        cases he
      · rintro ⟨hvs, hne⟩
        exact absurd ((honly vs).mp hvs) hne
    | cons v vs =>
      have hdecided := (honly (v :: vs)).mpr rfl
      obtain ⟨messages, hmessages⟩ := htrusted.messages
      have hraise : raisePolicyViolation (v :: vs) =
          .error (.policyViolation ⟨v :: vs, messages⟩) := by
        rw [raisePolicyViolation, hmessages]
        rfl
      show (raisePolicyViolation (v :: vs) = _ ↔ _) ∧
        (∀ ws, (∃ e, raisePolicyViolation (v :: vs) = _ ∧ _) ↔ _) ∧
        (_ ∨ _ ∨ ∃ message, raisePolicyViolation (v :: vs) = _)
      rw [hraise]
      refine ⟨⟨fun h => ?_, fun h => ?_⟩, fun ws => ⟨?_, ?_⟩,
        .inr (.inl ⟨_, hdecided, List.cons_ne_nil v vs⟩)⟩
      · cases h
      · cases (honly []).mp h
      · rintro ⟨e, he, rfl⟩
        cases he
        exact ⟨hdecided, List.cons_ne_nil v vs⟩
      · rintro ⟨hws, _⟩
        rw [(honly ws).mp hws]
        exact ⟨_, rfl, rfl⟩
  · have hraise : enforcePolicyOrRaise host "opa" available run plan = unavailable message := by
      rw [enforcePolicyOrRaise, hm]
      rfl
    rw [hraise]
    refine ⟨⟨fun h => ?_, fun h => absurd h (hnone [])⟩, fun vs => ⟨?_, fun h => ?_⟩,
      .inr (.inr ⟨message, rfl⟩)⟩
    · cases h
    · rintro ⟨e, he, _⟩
      cases he
    · exact absurd h.1 (hnone vs)

end MissionCompiler.Policy

