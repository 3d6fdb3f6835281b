import MissionCompiler.Reading.Faithful

/-!
# Reading a dump

The dump of a plan that a document was read as is read as the same plan, from any objects that
unfold to it, but that a date of `metadata` is then the text it was dumped as. What the validators
ask of a step holds of every step that was read, and nothing else is asked of a dump.
-/

namespace MissionCompiler.Reading

open Lib Schema Names Compile

/-! ## What the validators ask of a step -/

structure Readable (step : WorkflowStep) : Prop where
  selector : LabelSelector step.preferredNodeSelector
  metadata : WithinBounds (.obj step.metadata)

/-- Every step of a plan. -/
def PlanReadable (plan : MissionPlan) : Prop :=
  ∀ event ∈ plan.events, ∀ service ∈ event.services, ∀ step ∈ service.steps, Readable step

/-- A dict of values that hold nothing is within the bounds, unless it has too many. -/
theorem withinBounds_of_leaves {fields : List (String × MetaValue)}
    (hleaves : ∀ e ∈ fields, metaEdges e.2 = []) (hlength : fields.length < maxMetadataNodes) :
    WithinBounds (.obj fields) := by
  have hpaths : ∀ path ∈ unfolding metaEdges (.obj fields),
      path = [] ∨ path ∈ fields.map fun e => [Subscript.key (.str e.1)] := by
    intro path ⟨v, hv⟩
    cases hv with
    | here => exact .inl rfl
    | down edge below =>
      obtain ⟨e, he, heq⟩ := List.mem_map.mp edge
      cases heq
      cases below with
      | here => exact .inr (List.mem_map_of_mem he)
      | down edge _ =>
        rw [hleaves e he] at edge
        cases edge
  refine ⟨fun path hpath => ?_, ?_⟩
  · rcases hpaths path hpath with rfl | hmem
    · exact Nat.zero_le _
    · obtain ⟨e, -, rfl⟩ := List.mem_map.mp hmem
      exact (by decide : 1 ≤ maxMetadataDepth)
  · have hsub : unfolding metaEdges (.obj fields) ⊆
        insert [] (fields.map fun e => [Subscript.key (.str e.1)]).toFinset := by
      intro path hpath
      simpa using hpaths path hpath
    have hcard : (fields.map fun e => [Subscript.key (.str e.1)]).toFinset.card ≤
        fields.length := by
      simpa using List.toFinset_card_le (fields.map fun e => [Subscript.key (.str e.1)])
    refine (Set.encard_le_encard hsub).trans ((Set.encard_insert_le _ _).trans ?_)
    rw [Set.encard_coe_eq_coe_finsetCard]
    exact_mod_cast (show _ + 1 ≤ _ by omega)

section

variable {ι α : Type} {conv : Conversions} {isoformat : Timestamp → String} {doc : Document ι}
  {n : ι} {entries : List (DictKey × ι)}

/-- Every item of a list was read of some object. -/
theorem mem_readList {read : ι → Read α} {as : List α} (h : readList doc read n = .ok as) {a : α}
    (ha : a ∈ as) : ∃ m, read m = .ok a := by
  unfold readList at h
  split at h
  · obtain ⟨m, -, hm⟩ := exists_of_mem_forall₂ (readItems_eq_ok.mp h) ha
    exact ⟨m, hm⟩
  · obtain ⟨m, -, hm⟩ := exists_of_mem_forall₂ (readItems_eq_ok.mp h) ha
    exact ⟨m, hm⟩
  · cases h

variable [DecidableEq ι]

/-- The validators have passed every step that is read. -/
theorem readStep_readable {step : WorkflowStep} (h : readStep conv doc n = .ok step) :
    Readable step := by
  obtain ⟨entries, -, reads, -⟩ := readStep_eq_ok.mp h
  constructor
  · rcases defaulted_eq_ok.mp reads.preferredNodeSelector with ⟨m, -, hm⟩ | ⟨-, hm⟩
    · exact (readSelector_eq_ok.mp hm).2
    · rw [hm]
      exact fun e he => absurd he List.not_mem_nil
  · rcases defaulted_eq_ok.mp reads.metadata with ⟨m, -, hm⟩ | ⟨-, hm⟩
    · obtain ⟨_, _, _, _, _, hbounds⟩ := readMetadata_eq_ok.mp hm
      exact hbounds
    · rw [hm]
      exact withinBounds_of_leaves (fun e he => absurd he List.not_mem_nil) (by decide)

/-- The validators have passed every step of a plan that is read. -/
theorem readPlan_readable {plan : MissionPlan} (h : readPlan conv doc n = .ok plan) :
    PlanReadable plan := by
  intro event hevent service hservice step hstep
  obtain ⟨_, -, plans, -⟩ := readPlan_eq_ok.mp h
  obtain ⟨_, -, hevents⟩ := required_eq_ok.mp plans.events
  obtain ⟨_, hlist, hnonempty⟩ := Validated.andThen_eq_ok.mp hevents
  rw [← nonempty_eq_ok.mp hnonempty] at hlist
  obtain ⟨_, hread⟩ := mem_readList hlist hevent
  obtain ⟨_, -, events, -⟩ := readEventFields_eq_ok.mp (readEvent_eq_ok.mp hread)
  rcases defaulted_eq_ok.mp events.services with ⟨_, -, hlist⟩ | ⟨-, hnone⟩
  · obtain ⟨_, hread⟩ := mem_readList hlist hservice
    obtain ⟨_, -, services, -⟩ := readService_eq_ok.mp hread
    obtain ⟨_, -, hsteps⟩ := required_eq_ok.mp services.steps
    obtain ⟨_, hlist, hnonempty⟩ := Validated.andThen_eq_ok.mp hsteps
    rw [← nonempty_eq_ok.mp hnonempty] at hlist
    obtain ⟨_, hread⟩ := mem_readList hlist hstep
    exact readStep_readable hread
  · rw [hnone] at hservice
    cases hservice

end

/-! ## Dates as texts -/

/-- A value and what it is decoded as have the same parts. -/
theorem written_alike : Alike (fun v w => w = MetaValue.ofJson v.json) metaEdges metaEdges := by
  intro v w h
  rw [h]
  cases v with
  | arr items =>
    have hitems : MetaValue.ofItems (MetaValue.jsonItems items) =
        items.map fun v => .ofJson v.json := by
      rw [MetaValue.ofItems_eq, MetaValue.jsonItems_eq, List.map_map]
      rfl
    show List.Forall₂ _ (items.zipIdx.map _)
      ((MetaValue.ofItems (MetaValue.jsonItems items)).zipIdx.map _)
    rw [hitems, List.zipIdx_map, List.map_map, List.forall₂_map_left_iff,
      List.forall₂_map_right_iff]
    exact List.forall₂_same.mpr fun e _ => ⟨rfl, rfl⟩
  | obj fields =>
    have hfields : MetaValue.ofFields (MetaValue.jsonFields fields) =
        fields.map fun e => (e.1, .ofJson e.2.json) := by
      rw [MetaValue.ofFields_eq, MetaValue.jsonFields_eq, List.map_map]
      rfl
    show List.Forall₂ _ (fields.map _)
      ((MetaValue.ofFields (MetaValue.jsonFields fields)).map _)
    rw [hfields, List.map_map, List.forall₂_map_left_iff, List.forall₂_map_right_iff]
    exact List.forall₂_same.mpr fun e _ => ⟨rfl, rfl⟩
  | _ => exact .nil

/-- The validators pass a step whose dates are texts as they passed the step. -/
theorem Readable.written {step : WorkflowStep} (h : Readable step) : Readable step.written where
  selector := h.selector
  metadata := by
    have hunfolding : unfolding metaEdges (.obj step.metadata) =
        unfolding metaEdges (.obj step.written.metadata) := written_alike.unfolding_eq rfl
    refine ⟨?_, ?_⟩
    · rw [← hunfolding]
      exact h.metadata.depth
    · rw [← hunfolding]
      exact h.metadata.size

/-! ## Reading what is written -/

/-- The objects are those a decoder builds of a JSON value, shared or not. -/
abbrev Decodes {ι : Type} (doc : Document ι) (n : ι) (j : Json) : Prop :=
  Unfolds doc n (.ofJson j)

section

variable {ι α : Type} {conv : Conversions} {isoformat : Timestamp → String} {doc : Document ι}
  {n : ι}

/-! ### Single values -/

theorem value_of_str {s : String} (h : Decodes doc n (.str s)) : doc.value n = .str s := by
  cases h with
  | str h => exact h

/-- A text is read as it was written. -/
theorem readText_written {s : String} (h : Decodes doc n (.str s)) :
    readText (doc.value n) = .ok s := by
  rw [value_of_str h]
  rfl

/-- A boolean is read as it was written. -/
theorem readStrictBool_written {b : Bool} (h : Decodes doc n (.bool b)) :
    readStrictBool (doc.value n) = .ok b := by
  cases h with
  | bool h =>
    rw [h]
    rfl

/-- A member of an enumeration is found again by its value. -/
theorem readEnum_written {members : List α} {value : α → String} {a : α}
    (hfind : members.find? (value · == value a) = some a) (h : Decodes doc n (.str (value a))) :
    readEnum members value (doc.value n) = .ok a := by
  simp only [readEnum, readText_written h, hfind]

/-- Only null is written as null. -/
theorem json_of_null {j : Json} (h : Decodes doc n j) (hv : doc.value n = .null) : j = .null := by
  cases j with
  | null => rfl
  | num x =>
    cases x with
    | int i => cases h with | int h => rw [hv] at h; cases h
    | float x => cases h with | float h => rw [hv] at h; cases h
    | nonfinite => cases h
  | bool b => cases h with | bool h => rw [hv] at h; cases h
  | str s => cases h with | str h => rw [hv] at h; cases h
  | arr xs => cases h with | list h _ _ => rw [hv] at h; cases h
  | obj kvs => cases h with | dict h _ _ => rw [hv] at h; cases h

/-- A field is null where null was written for it. -/
theorem readOptional_written {read : Value ι → Read α} {dump : α → Json} {o : Option α}
    (hnull : ∀ a, dump a ≠ .null)
    (hread : ∀ a, o = some a → Decodes doc n (dump a) → read (doc.value n) = .ok a)
    (h : Decodes doc n (dumpOption dump o)) : readOptional read (doc.value n) = .ok o := by
  cases o with
  | none =>
    cases h with
    | null h =>
      rw [h]
      rfl
  | some a =>
    have hne : doc.value n ≠ .null := fun hv => hnull a (json_of_null h hv)
    unfold readOptional
    split
    · next hv => exact absurd hv hne
    · rw [hread a rfl h]
      rfl

/-- An identifier passes its check again. -/
theorem readIdentifier_written {field s : String} (hs : pyBlank s = false)
    (h : Decodes doc n (.str s)) : readIdentifier field (doc.value n) = .ok ⟨s, hs⟩ :=
  checked_eq_ok.mpr ⟨_, readText_written h, notBlank_eq_ok.mpr rfl⟩

theorem value_of_int {i : Int} (h : Decodes doc n (.num (.int i))) : doc.value n = .int i := by
  cases h with
  | int h => exact h

/-- A priority is read of the number that was written. -/
theorem readPriority_written {k : Nat} (hk : k ≤ 100) (h : Decodes doc n (.num (.int k))) :
    readPriority conv (doc.value n) = .ok ⟨k, hk⟩ := by
  rw [value_of_int h]
  exact (percentage_eq_ok (k := ⟨k, hk⟩)).mpr rfl

/-- An orbit is read of the number that was written, or of null. -/
theorem readOrbit_written {o : Option Nat}
    (h : Decodes doc n (dumpOption (fun k : Nat => .num (.int k)) o)) :
    readOrbit conv (doc.value n) = .ok o := by
  refine Validated.andThen_eq_ok.mpr ⟨(), ?_, readOptional_written (fun k => by simp) ?_ h⟩
  · cases o with
    | none =>
      cases h with
      | null h => rw [h]; rfl
    | some k => rw [value_of_int h]; rfl
  · intro k _ hk
    rw [value_of_int hk]
    exact nonnegative_eq_ok.mpr rfl

/-- A duration is a float already, so nothing is rounded. -/
theorem readDuration_written {o : Option {d : Rat // 0 ≤ d}}
    (h : Decodes doc n (dumpOption (fun d => .num (.float d.val)) o)) :
    readDuration conv (doc.value n) = .ok o := by
  refine Validated.andThen_eq_ok.mpr ⟨(), ?_, readOptional_written (fun k => by simp) ?_ h⟩
  · cases o with
    | none =>
      cases h with
      | null h => rw [h]; rfl
    | some d =>
      cases h with
      | float h => rw [h]; rfl
  · intro d _ hd
    cases hd with
    | float hd =>
      rw [hd]
      show (if h : 0 ≤ d.val then _ else _) = _
      rw [dif_pos d.property]

/-- A timestamp is read of its text in ISO format. -/
theorem readTimestamp_written {t : Timestamp}
    (hiso : conv.datetimeOfText (isoformat t) = some (some t))
    (h : Decodes doc n (.str (isoformat t))) : readTimestamp conv (doc.value n) = .ok t := by
  rw [value_of_str h]
  exact readDatetimeText_eq_ok.mpr hiso

/-! ### Containers -/

/-- A list is read item by item, shared or not. -/
theorem readList_written {read : ι → Read α} {dump : α → Json} {f : α → α} {as : List α}
    (hread : ∀ a ∈ as, ∀ m, Decodes doc m (dump a) → read m = .ok (f a))
    (h : Decodes doc n (.arr (as.map dump))) : readList doc read n = .ok (as.map f) := by
  cases h with
  | @list _ items _ hv length_eq each =>
    rw [MetaValue.ofItems_eq, List.map_map] at length_eq each
    have hitems : readItems read items = .ok (as.map f) := by
      refine readItems_eq_ok.mpr (List.forall₂_iff_zip.mpr ⟨by simpa using length_eq, ?_⟩)
      intro m b hm
      rw [List.zip_map_right] at hm
      obtain ⟨⟨m', a⟩, hmem, heq⟩ := List.mem_map.mp hm
      cases heq
      refine hread a (List.of_mem_zip hmem).2 m' (each m' _ ?_)
      rw [List.zip_map_right]
      exact List.mem_map_of_mem (f := Prod.map id (MetaValue.ofJson ∘ dump)) hmem
    rw [readList, hv]
    exact hitems

theorem readTexts_written {ss : List String} (h : Decodes doc n (dumpStrings ss)) :
    readTexts doc n = .ok ss := by
  have hlist := readList_written (f := id) (fun _ _ _ hm => readText_written hm) h
  rwa [List.map_id] at hlist

/-- The entries of a dict that is decoded, in pairs with its fields. -/
theorem decodes_obj {kvs : List (String × Json)} (h : Decodes doc n (.obj kvs)) :
    ∃ entries, doc.value n = .dict entries ∧
      List.Forall₂ (fun e kv => e.1 = .str kv.1 ∧ Decodes doc e.2 kv.2) entries kvs := by
  cases h with
  | dict hv keys each =>
    have hentries := forall₂_of_keys keys each
    rw [MetaValue.ofFields_eq, List.forall₂_map_right_iff] at hentries
    exact ⟨_, hv, hentries⟩

/-- A dict with string keys is read entry by entry. -/
theorem readEntries_of_keys {read : ι → Read α} {entries : List (DictKey × ι)}
    {es : List (String × α)} (hv : doc.value n = .dict entries)
    (h : List.Forall₂ (fun e kv => e.1 = .str kv.1 ∧ read e.2 = .ok kv.2) entries es) :
    ∃ dict, readEntries read entries = .ok dict ∧ dict.val = es := by
  have hkeys : (es.map fun kv => DictKey.str kv.1) = entries.map Prod.fst :=
    map_eq_map_of_forall₂ (h.imp fun e kv he => he.1.symm)
  have hnodup : (es.map Prod.fst).Nodup := by
    have hentries := doc.keys_nodup n entries hv
    rw [← hkeys] at hentries
    exact List.Nodup.of_map DictKey.str (by rwa [List.map_map])
  refine ⟨⟨dictOf es, nodup_dictOf es⟩, readEntries_eq_ok.mpr ⟨es, rfl, ?_⟩, dictOf_of_nodup hnodup⟩
  refine h.imp fun e kv he => ⟨?_, he.2⟩
  rw [he.1]
  rfl

/-- A selector passes its check again. -/
theorem readSelector_written {selector : List (String × String)}
    (hlabels : LabelSelector selector)
    (h : Decodes doc n (.obj (selector.map fun e => (e.1, .str e.2)))) :
    readSelector conv doc n = .ok selector := by
  obtain ⟨entries, hv, hentries⟩ := decodes_obj h
  have htexts : List.Forall₂ (fun e kv => e.1 = .str kv.1 ∧ readText (doc.value e.2) = .ok kv.2)
      entries selector :=
    (List.forall₂_map_right_iff.mp hentries).imp fun e kv he => ⟨he.1, readText_written he.2⟩
  obtain ⟨dict, hdict, hval⟩ :=
    @readEntries_of_keys _ _ doc n (fun m => readText (doc.value m)) entries selector hv htexts
  exact readSelector_eq_ok.mpr ⟨readTextDict_eq_ok.mpr ⟨entries, dict, hv, hdict, hval⟩, hlabels⟩

/-- The objects of a dict under their keys, between its entries and what they are related to. -/
theorem exists_dict {R : ι → α → Prop} {entries : List (DictKey × ι)} {kvs : List (String × α)}
    (h : List.Forall₂ (fun e kv => e.1 = .str kv.1 ∧ R e.2 kv.2) entries kvs) :
    ∃ es : List (String × ι), List.Forall₂ (fun e kv => e.1 = .str kv.1 ∧ e.2 = kv.2) entries es ∧
      List.Forall₂ (fun e kv => e.1 = kv.1 ∧ R e.2 kv.2) es kvs := by
  induction h with
  | nil => exact ⟨[], .nil, .nil⟩
  | @cons e kv _ _ he _ ih =>
    obtain ⟨es, hentries, hkvs⟩ := ih
    exact ⟨(kv.1, e.2) :: es, .cons ⟨he.1, rfl⟩ hentries, .cons ⟨rfl, he.2⟩ hkvs⟩

/-- Metadata is read of the JSON that was written of it, dates as texts. -/
theorem readMetadata_written [DecidableEq ι] {kvs : List (String × Json)}
    (hbounds : WithinBounds (.obj (MetaValue.ofFields kvs))) (h : Decodes doc n (.obj kvs)) :
    readMetadata conv doc n = .ok (MetaValue.ofFields kvs) := by
  obtain ⟨entries, hv, hentries⟩ := decodes_obj h
  obtain ⟨es, hobjects, hfields⟩ := exists_dict hentries
  have hread : List.Forall₂ (fun e kv => e.1 = .str kv.1 ∧ (.ok e.2 : Read ι) = .ok kv.2)
      entries es := hobjects.imp fun e kv he => ⟨he.1, congrArg _ he.2⟩
  obtain ⟨dict, hdict, hval⟩ := @readEntries_of_keys _ _ doc n .ok entries es hv hread
  refine readMetadata_eq_ok.mpr ⟨entries, dict, hv, hdict, ?_, hbounds⟩
  rw [hval, MetaValue.ofFields_eq, List.forall₂_map_right_iff]
  exact hfields

/-! ### Records -/

/-- Each field of a dump is an entry of the dict that unfolds to it, and there are no others. -/
theorem written_fields {kvs : List (String × Json)} (h : Decodes doc n (.obj kvs)) :
    ∃ entries, doc.value n = .dict entries ∧
      (∀ kv ∈ kvs, ∃ m, entries.lookup (.str kv.1) = some m ∧ Decodes doc m kv.2) ∧
      ∀ e ∈ entries, ∃ s ∈ kvs.map Prod.fst, e.1 = .str s := by
  obtain ⟨entries, hv, hentries⟩ := decodes_obj h
  refine ⟨entries, hv, fun kv hkv => ?_, fun e he => ?_⟩
  · obtain ⟨⟨key, m⟩, hmem, hkey, hm⟩ := exists_of_mem_forall₂ hentries hkv
    refine ⟨m, lookup_of_mem hv ?_, hm⟩
    rw [← show key = .str kv.1 from hkey]
    exact hmem
  · obtain ⟨kv, hkv, hkey, -⟩ := exists_of_mem_forall₂ hentries.flip he
    exact ⟨kv.1, List.mem_map_of_mem hkv, hkey⟩

variable {entries : List (DictKey × ι)} {name : String} {j : Json} {read : ι → Read α} {a : α}

/-- A required field is read of what was written for it. -/
theorem required_written (h : ∃ m, entries.lookup (.str name) = some m ∧ Decodes doc m j)
    (hread : ∀ m, Decodes doc m j → read m = .ok a) : required entries name read = .ok a := by
  obtain ⟨m, hm, hj⟩ := h
  exact required_eq_ok.mpr ⟨m, hm, hread m hj⟩

/-- A field with a default is written as well, and read of that. -/
theorem defaulted_written {default : α}
    (h : ∃ m, entries.lookup (.str name) = some m ∧ Decodes doc m j)
    (hread : ∀ m, Decodes doc m j → read m = .ok a) :
    defaulted entries name default read = .ok a := by
  obtain ⟨m, hm, hj⟩ := h
  exact defaulted_eq_ok.mpr (.inl ⟨m, hm, hread m hj⟩)

/-! ### Models -/

variable [DecidableEq ι]

/-- A step is read back, but that its dates are texts. -/
theorem readStep_written {step : WorkflowStep} (hstep : Readable step)
    (h : Decodes doc n step.dump) : readStep conv doc n = .ok step.written := by
  obtain ⟨entries, hv, hfields, hknown⟩ := written_fields h
  refine readStep_eq_ok.mpr ⟨entries, hv, ?_, hknown⟩
  simp only [List.forall_mem_cons, List.not_mem_nil, IsEmpty.forall_iff, implies_true,
    and_true] at hfields
  obtain ⟨hname, himage, hphase, hclass, hfallback, hacceleration, hcommand, hargs, hmetadata,
    hselector⟩ := hfields
  exact {
    name := required_written hname fun m => readIdentifier_written _
    image := required_written himage fun m => readIdentifier_written _
    phase := defaulted_written hphase fun m => readOptional_written (by simp)
      fun a _ => readEnum_written (by cases a <;> rfl)
    resourceClass := defaulted_written hclass fun m =>
      readEnum_written (by cases step.resourceClass <;> rfl)
    fallbackResourceClass := defaulted_written hfallback fun m => readOptional_written (by simp)
      fun a _ => readEnum_written (by cases a <;> rfl)
    needsAcceleration := defaulted_written hacceleration fun m => readStrictBool_written
    command := defaulted_written hcommand fun m => readTexts_written
    args := defaulted_written hargs fun m => readTexts_written
    metadata := defaulted_written hmetadata fun m => readMetadata_written hstep.written.metadata
    preferredNodeSelector := defaulted_written hselector fun m =>
      readSelector_written hstep.selector }

/-- A service is read back, step by step. -/
theorem readService_written {service : AIService}
    (hsteps : ∀ step ∈ service.steps, Readable step) (h : Decodes doc n service.dump) :
    readService conv doc n = .ok service.written := by
  obtain ⟨entries, hv, hfields, hknown⟩ := written_fields h
  refine readService_eq_ok.mpr ⟨entries, hv, ?_, hknown⟩
  simp only [List.forall_mem_cons, List.not_mem_nil, IsEmpty.forall_iff, implies_true,
    and_true] at hfields
  obtain ⟨hid, hpriority, hlandscape, hmode, hlist⟩ := hfields
  exact {
    serviceId := required_written hid fun m => readIdentifier_written _
    priority := required_written hpriority fun m => readPriority_written _
    landscapeType := defaulted_written hlandscape fun m => readOptional_written (by simp)
      fun _ _ => readText_written
    executionMode := defaulted_written hmode fun m =>
      readEnum_written (by cases service.executionMode <;> rfl)
    steps := required_written hlist fun m hm => Validated.andThen_eq_ok.mpr ⟨service.written.steps,
      readList_written (fun step hstep m => readStep_written (hsteps step hstep)) hm,
      nonempty_eq_ok.mpr rfl⟩ }

/-- An event passes its constraints again, since they do not ask for metadata. -/
theorem readEvent_written {event : MissionEvent}
    (hiso : conv.datetimeOfText (isoformat event.timestamp) = some (some event.timestamp))
    (hsteps : ∀ service ∈ event.services, ∀ step ∈ service.steps, Readable step)
    (h : Decodes doc n (event.dump isoformat)) : readEvent conv doc n = .ok event.written := by
  obtain ⟨entries, hv, hfields, hknown⟩ := written_fields h
  refine readEvent_eq_ok.mpr (readEventFields_eq_ok.mpr ⟨entries, hv, ?_, hknown⟩)
  simp only [List.forall_mem_cons, List.not_mem_nil, IsEmpty.forall_iff, implies_true,
    and_true] at hfields
  obtain ⟨htimestamp, htype, horbit, hduration, hinstrument, hsensor, hvisible, hregion,
    hservices⟩ := hfields
  have hdumpOrbit : dumpOption (fun i : Int => .num (.int i)) (do return ↑(← event.orbit)) =
      dumpOption (fun k : Nat => .num (.int k)) event.orbit := by cases event.orbit <;> rfl
  rw [hdumpOrbit] at horbit
  exact {
    timestamp := required_written htimestamp fun m => readTimestamp_written hiso
    eventType := required_written htype fun m =>
      readEnum_written (by cases event.eventType <;> rfl)
    orbit := defaulted_written horbit fun m => readOrbit_written
    durationSeconds := by
      have hval : ∃ d : Option {d : Rat // 0 ≤ d}, d.map Subtype.val = event.durationSeconds := by
        cases hd : event.durationSeconds with
        | none => exact ⟨none, rfl⟩
        | some d => exact ⟨some ⟨d, event.duration_nonneg d hd⟩, rfl⟩
      obtain ⟨d, hval⟩ := hval
      have hdump : dumpOption (fun d : Rat => .num (.float d)) (d.map Subtype.val) =
          dumpOption (fun d => .num (.float d.val)) d := by cases d <;> rfl
      rw [← hval, hdump] at hduration
      exact ⟨d, defaulted_written hduration fun m => readDuration_written, hval⟩
    instrument := defaulted_written hinstrument fun m => readOptional_written (by simp)
      fun _ _ => readText_written
    sensor := defaulted_written hsensor fun m => readOptional_written (by simp)
      fun _ _ => readText_written
    groundVisibility := defaulted_written hvisible fun m => readStrictBool_written
    regionType := defaulted_written hregion fun m => readOptional_written (by simp)
      fun _ _ => readText_written
    services := defaulted_written hservices fun m => readList_written
      fun service hservice m => readService_written (hsteps service hservice) }

/-- A plan whose steps the validators pass is read of whatever unfolds to its dump. -/
theorem readPlan_written {plan : MissionPlan}
    (hiso : ∀ event ∈ plan.events,
      conv.datetimeOfText (isoformat event.timestamp) = some (some event.timestamp))
    (hplan : PlanReadable plan) (h : Decodes doc n (.obj (plan.dump isoformat))) :
    readPlan conv doc n = .ok plan.written := by
  obtain ⟨entries, hv, hfields, hknown⟩ := written_fields h
  refine readPlan_eq_ok.mpr ⟨entries, hv, ?_, hknown⟩
  simp only [MissionPlan.dump, List.forall_mem_cons, List.not_mem_nil, IsEmpty.forall_iff,
    implies_true, and_true] at hfields
  obtain ⟨hid, hclient, hlist⟩ := hfields
  exact {
    missionId := required_written hid fun m => readIdentifier_written _
    clientId := defaulted_written hclient fun m => readOptional_written (by simp)
      fun _ _ => readText_written
    events := required_written hlist fun m hm => Validated.andThen_eq_ok.mpr ⟨plan.written.events,
      readList_written (fun event hevent m => readEvent_written (hiso event hevent)
        (hplan event hevent)) hm, nonempty_eq_ok.mpr rfl⟩ }

end

/-- What is written of a plan that was read is read as that plan, with the dates of its metadata as
the texts they were written as, from whatever objects a decoder builds of it. -/
theorem dump_reads_back {ι ι' : Type} [DecidableEq ι] [DecidableEq ι'] {conv : Conversions}
    {isoformat : Timestamp → String} {doc : Document ι} {doc' : Document ι'} {n : ι} {n' : ι'}
    {plan : MissionPlan} (h : readPlan conv doc n = .ok plan)
    (hiso : ∀ event ∈ plan.events,
      conv.datetimeOfText (isoformat event.timestamp) = some (some event.timestamp))
    (hdump : Decodes doc' n' (.obj (plan.dump isoformat))) :
    readPlan conv doc' n' = .ok plan.written ∧
      plan.written.dump isoformat = plan.dump isoformat :=
  ⟨readPlan_written hiso (readPlan_readable h) hdump, plan.dump_written⟩

/-! A plan with a date in its metadata, and its dump, whose empty lists and dicts are shared. -/

def datedStep : WorkflowStep := { inferStep with metadata := [("launched", .date "2026-03-01")] }

def datedService : AIService :=
  { detectService with steps := [datedStep], steps_ne_nil := List.cons_ne_nil _ _ }

def datedEvent : MissionEvent where
  timestamp := noon
  eventType := .acquisition
  orbit := none
  durationSeconds := none
  instrument := some "cam"
  sensor := none
  groundVisibility := false
  regionType := none
  services := [datedService]
  duration_nonneg := none_duration_nonneg
  checked := rfl

def datedPlan : MissionPlan :=
  { repeatedPlan with events := [datedEvent], events_ne_nil := List.cons_ne_nil _ _ }

def datedValues : List (Value Nat) :=
  [.dict [(.str "mission_id", 1), (.str "events", 2)], .str "m1", .list [3],
    .dict [(.str "timestamp", 4), (.str "event_type", 5), (.str "instrument", 6),
      (.str "services", 7)],
    .datetime (some noon) "2026-03-01 12:00:00+00:00", .str "acquisition", .str "cam", .list [8],
    .dict [(.str "service_id", 9), (.str "priority", 10), (.str "steps", 11)], .str "detect",
    .int 50, .list [12],
    .dict [(.str "name", 13), (.str "image", 14), (.str "resource_class", 15),
      (.str "fallback_resource_class", 16), (.str "needs_acceleration", 17),
      (.str "metadata", 18)],
    .str "infer", .str "registry/infer", .str "gpu", .str "cpu", .bool true,
    .dict [(.str "launched", 19)], .date "2026-03-01"]

theorem keysOnce_datedValues : datedValues.all keysOnce = true := by decide

def datedDocument : Document Nat := documentOf datedValues keysOnce_datedValues

theorem readMetadata_datedDocument :
    readMetadata sampleConversions datedDocument 18 = .ok [("launched", .date "2026-03-01")] := by
  have hlaunched : datedDocument.value 19 = .date "2026-03-01" := rfl
  refine readMetadata_eq_ok.mpr ⟨[(.str "launched", 19)], ⟨[("launched", 19)], by decide⟩, rfl, rfl,
    .cons ⟨rfl, .date hlaunched⟩ .nil, withinBounds_of_leaves ?_ (by decide)⟩
  intro e he
  obtain rfl := List.mem_singleton.mp he
  rfl

theorem readStep_datedDocument :
    readStep sampleConversions datedDocument 12 = .ok datedStep := by
  refine readStep_eq_ok.mpr ⟨[(.str "name", 13), (.str "image", 14), (.str "resource_class", 15),
    (.str "fallback_resource_class", 16), (.str "needs_acceleration", 17), (.str "metadata", 18)],
    rfl, ?_, by decide⟩
  exact {
    name := rfl
    image := rfl
    phase := rfl
    resourceClass := rfl
    fallbackResourceClass := rfl
    needsAcceleration := rfl
    command := rfl
    args := rfl
    metadata := defaulted_eq_ok.mpr (.inl ⟨18, rfl, readMetadata_datedDocument⟩)
    preferredNodeSelector := rfl }

theorem readService_datedDocument :
    readService sampleConversions datedDocument 8 = .ok datedService := by
  have hsteps : readList datedDocument (readStep sampleConversions datedDocument) 11 =
      .ok [datedStep] := readItems_eq_ok.mpr (.cons readStep_datedDocument .nil)
  refine readService_eq_ok.mpr ⟨[(.str "service_id", 9), (.str "priority", 10), (.str "steps", 11)],
    rfl, ?_, by decide⟩
  exact {
    serviceId := rfl
    priority := rfl
    landscapeType := rfl
    executionMode := rfl
    steps := required_eq_ok.mpr ⟨11, rfl, Validated.andThen_eq_ok.mpr ⟨_, hsteps, rfl⟩⟩ }

theorem readEvent_datedDocument :
    readEvent sampleConversions datedDocument 3 = .ok datedEvent := by
  have hservices : readList datedDocument (readService sampleConversions datedDocument) 7 =
      .ok [datedService] := readItems_eq_ok.mpr (.cons readService_datedDocument .nil)
  refine readEvent_eq_ok.mpr (readEventFields_eq_ok.mpr ⟨[(.str "timestamp", 4),
    (.str "event_type", 5), (.str "instrument", 6), (.str "services", 7)], rfl, ?_, by decide⟩)
  exact {
    timestamp := rfl
    eventType := rfl
    orbit := rfl
    durationSeconds := ⟨none, rfl, rfl⟩
    instrument := rfl
    sensor := rfl
    groundVisibility := rfl
    regionType := rfl
    services := defaulted_eq_ok.mpr (.inl ⟨7, rfl, hservices⟩) }

theorem readPlan_datedDocument : readPlan sampleConversions datedDocument 0 = .ok datedPlan := by
  have hevents : readList datedDocument (readEvent sampleConversions datedDocument) 2 =
      .ok [datedEvent] := readItems_eq_ok.mpr (.cons readEvent_datedDocument .nil)
  refine readPlan_eq_ok.mpr ⟨[(.str "mission_id", 1), (.str "events", 2)], rfl, ?_, by decide⟩
  exact {
    missionId := rfl
    clientId := rfl
    events := required_eq_ok.mpr ⟨2, rfl, Validated.andThen_eq_ok.mpr ⟨_, hevents, rfl⟩⟩ }

def sampleIsoformat (_ : Timestamp) : String := "2026-03-01T12:00:00Z"

def dumpedValues : List (Value Nat) :=
  [.dict [(.str "mission_id", 1), (.str "client_id", 2), (.str "events", 3)], .str "m1", .null,
    .list [4],
    .dict [(.str "timestamp", 5), (.str "event_type", 6), (.str "orbit", 2),
      (.str "duration_seconds", 2), (.str "instrument", 7), (.str "sensor", 2),
      (.str "ground_visibility", 8), (.str "region_type", 2), (.str "services", 9)],
    .str "2026-03-01T12:00:00Z", .str "acquisition", .str "cam", .bool false, .list [10],
    .dict [(.str "service_id", 11), (.str "priority", 12), (.str "landscape_type", 2),
      (.str "execution_mode", 13), (.str "steps", 14)],
    .str "detect", .int 50, .str "sequential", .list [15],
    .dict [(.str "name", 16), (.str "image", 17), (.str "phase", 2), (.str "resource_class", 18),
      (.str "fallback_resource_class", 19), (.str "needs_acceleration", 20), (.str "command", 21),
      (.str "args", 21), (.str "metadata", 23), (.str "preferred_node_selector", 22)],
    .str "infer", .str "registry/infer", .str "gpu", .str "cpu", .bool true, .list [], .dict [],
    .dict [(.str "launched", 24)], .str "2026-03-01"]

theorem keysOnce_dumpedValues : dumpedValues.all keysOnce = true := by decide

def dumpedDocument : Document Nat := documentOf dumpedValues keysOnce_dumpedValues

theorem dumpedDocument_reads_back :
    readPlan sampleConversions dumpedDocument 0 = .ok datedPlan.written := by
  have hwritten : dumpedDocument.isWritten 9 0 = true := by decide
  have hdump : Decodes dumpedDocument 0 (.obj (datedPlan.dump sampleIsoformat)) :=
    unfolds_of_isWritten hwritten
  refine (dump_reads_back readPlan_datedDocument ?_ hdump).1
  intro event hevent
  obtain rfl := List.mem_singleton.mp hevent
  rfl

end MissionCompiler.Reading
