import MissionCompiler.Reading.Faithful

/-!
# Refused documents

What is wrong with a document is told all at once. Wherever a model stands in a document, what is
wrong with it is among the errors of the whole, under its place: so each key that no model knows,
and each field that is left out, has an error of its own. And an error names a place of the
document.
-/

namespace MissionCompiler.Reading

open Lib Schema Names

/-! ## Where models stand -/

inductive Model where
  | plan
  | event
  | service
  | step
deriving DecidableEq

def Model.fields : Model → List String
  | .plan => planFields
  | .event => eventFields
  | .service => serviceFields
  | .step => stepFields

/-- The fields without a default. -/
def Model.required : Model → List String
  | .plan => ["mission_id", "events"]
  | .event => ["timestamp", "event_type"]
  | .service => ["service_id", "priority", "steps"]
  | .step => ["name", "image"]

/-- The field that holds a list of other models. -/
def Model.part : Model → Option (String × Model)
  | .plan => some ("events", .event)
  | .event => some ("services", .service)
  | .service => some ("steps", .step)
  | .step => none

section

variable {ι : Type} (conv : Conversions) (doc : Document ι)

/-- The items that are read of an object as of a list. -/
def Document.items (n : ι) (items : List ι) : Prop :=
  doc.value n = .list items ∨ doc.value n = .set items

/-- The places of a document where a model is read. -/
inductive Stands (root : ι) : List Subscript → ι → Model → Prop
  | root : Stands root [] root .plan
  | part {place : List Subscript} {n m k : ι} {model part : Model} {field : String}
    {entries : List (DictKey × ι)} {items : List ι} {i : Nat} (whole : Stands root place n model)
    (hpart : model.part = some (field, part)) (hv : doc.value n = .dict entries)
    (hfield : entries.lookup (.str field) = some m) (hitems : doc.items m items)
    (hitem : items[i]? = some k) : Stands root (place ++ [.key (.str field), .index i]) k part

variable [DecidableEq ι]

/-- What is wrong with a model. -/
def errorsOf (model : Model) (n : ι) : List FieldError :=
  match model with
  | .plan => (readPlan conv doc n).errors
  | .event => (readEvent conv doc n).errors
  | .service => (readService conv doc n).errors
  | .step => (readStep conv doc n).errors

end

/-! ## Every error is told -/

section

variable {ι α : Type} {conv : Conversions} {doc : Document ι} {n : ι}
  {entries : List (DictKey × ι)}

/-- An error of a field is an error of the model, one step further up. -/
theorem mem_errors_under {step : Subscript} {x : Read α} {e : FieldError} :
    e ∈ (under step x).errors ↔ ∃ e' ∈ x.errors, e'.under step = e := by
  rw [under, Validated.errors_mapErrors, List.mem_map]

/-- What is wrong with a model is wrong with its fields, or one of its keys is unknown. -/
theorem errors_readModel {fields : List String} {body : List (DictKey × ι) → Read α}
    (hv : doc.value n = .dict entries) :
    (readModel doc fields body n).errors =
      (body entries).errors ++ entries.flatMap fun e => extraKey fields e.1 := by
  rw [readModel, hv]
  simp [extraKeys]

/-- What is wrong with a field is told under its name. -/
theorem mem_errors_required {name : String} {read : ι → Read α} {m : ι}
    (hm : entries.lookup (.str name) = some m) {e : FieldError} (h : e ∈ (read m).errors) :
    e.under (.key (.str name)) ∈ (required entries name read).errors := by
  rw [required, hm]
  exact mem_errors_under.mpr ⟨e, h, rfl⟩

/-- What is wrong with a field is told also where it could have been left out. -/
theorem mem_errors_defaulted {name : String} {default : α} {read : ι → Read α} {m : ι}
    (hm : entries.lookup (.str name) = some m) {e : FieldError} (h : e ∈ (read m).errors) :
    e.under (.key (.str name)) ∈ (defaulted entries name default read).errors := by
  rw [defaulted, hm]
  exact mem_errors_under.mpr ⟨e, h, rfl⟩

/-- A required field that is left out is told. -/
theorem missing_mem_errors {name : String} {read : ι → Read α}
    (h : entries.lookup (.str name) = none) :
    ⟨[.key (.str name)], .missing⟩ ∈ (required entries name read).errors := by
  rw [required, h]
  exact mem_errors_under.mpr ⟨⟨[], .missing⟩, List.mem_singleton.mpr rfl, rfl⟩

/-- An item's errors are told under its index. -/
theorem mem_errors_readList {read : ι → Read α} {m k : ι} {items : List ι} {i : Nat}
    (hitems : doc.items m items) (hitem : items[i]? = some k) {e : FieldError}
    (h : e ∈ (read k).errors) : e.under (.index i) ∈ (readList doc read m).errors := by
  have hread : e.under (.index i) ∈ (readItems read items).errors := by
    rw [readItems, Validated.mem_errors_all]
    refine ⟨under (.index i) (read k), ?_, mem_errors_under.mpr ⟨e, h, rfl⟩⟩
    rw [List.mem_mapIdx]
    obtain ⟨hi, hk⟩ := List.getElem?_eq_some_iff.mp hitem
    exact ⟨i, hi, by rw [hk]⟩
  unfold readList
  rcases hitems with hv | hv
  · rw [hv]
    exact hread
  · rw [hv]
    exact hread

variable [DecidableEq ι]

/-- What is wrong with a part is wrong with the whole. -/
theorem mem_errorsOf_part {model part : Model} {field : String} {m k : ι} {items : List ι} {i : Nat}
    (hpart : model.part = some (field, part)) (hv : doc.value n = .dict entries)
    (hfield : entries.lookup (.str field) = some m) (hitems : doc.items m items)
    (hitem : items[i]? = some k) {e : FieldError} (h : e ∈ errorsOf conv doc part k) :
    (e.under (.index i)).under (.key (.str field)) ∈ errorsOf conv doc model n := by
  cases model with
  | step => cases hpart
  | plan =>
    cases hpart
    have hread : (e.under (.index i)).under (.key (.str "events")) ∈ (required entries "events"
        fun n => (readList doc (readEvent conv doc) n).andThen nonempty).errors :=
      mem_errors_required hfield
        (Validated.mem_errors_andThen (mem_errors_readList hitems hitem h))
    show _ ∈ (readPlan conv doc n).errors
    rw [readPlan, errors_readModel hv]
    simp only [Validated.errors_seq, List.mem_append]
    exact .inl (.inr hread)
  | event =>
    cases hpart
    have hread : (e.under (.index i)).under (.key (.str "services")) ∈
        (defaulted entries "services" [] (readList doc (readService conv doc))).errors :=
      mem_errors_defaulted hfield (mem_errors_readList hitems hitem h)
    refine Validated.mem_errors_andThen ?_
    rw [readEventFields, errors_readModel hv]
    simp only [Validated.errors_seq, List.mem_append]
    exact .inl (.inr hread)
  | service =>
    cases hpart
    have hread : (e.under (.index i)).under (.key (.str "steps")) ∈ (required entries "steps"
        fun n => (readList doc (readStep conv doc) n).andThen nonempty).errors :=
      mem_errors_required hfield
        (Validated.mem_errors_andThen (mem_errors_readList hitems hitem h))
    show _ ∈ (readService conv doc n).errors
    rw [readService, errors_readModel hv]
    simp only [Validated.errors_seq, List.mem_append]
    exact .inl (.inr hread)

/-- What is wrong with a model is told of the plan, under the place where the model stands. -/
theorem Stands.told {root : ι} {place : List Subscript} {model : Model}
    (h : Stands doc root place n model) {e : FieldError} (he : e ∈ errorsOf conv doc model n) :
    ⟨place ++ e.loc, e.problem⟩ ∈ (readPlan conv doc root).errors := by
  induction h generalizing e with
  | root => exact he
  | part whole hpart hv hfield hitems hitem ih =>
    have hwhole := ih (mem_errorsOf_part hpart hv hfield hitems hitem he)
    simpa [FieldError.under, List.append_assoc] using hwhole

/-- An unknown key of a model is told, whatever else is wrong with it. -/
theorem extra_mem_errorsOf {model : Model} (hv : doc.value n = .dict entries) {key : DictKey}
    {m : ι} (hmem : (key, m) ∈ entries) {e : FieldError} (he : e ∈ extraKey model.fields key) :
    e ∈ errorsOf conv doc model n := by
  have hextra : e ∈ entries.flatMap fun e => extraKey model.fields e.1 :=
    List.mem_flatMap.mpr ⟨_, hmem, he⟩
  cases model with
  | plan =>
    show e ∈ (readModel doc planFields _ n).errors
    rw [errors_readModel hv]
    exact List.mem_append_right _ hextra
  | event =>
    refine Validated.mem_errors_andThen ?_
    rw [readEventFields, errors_readModel hv]
    exact List.mem_append_right _ hextra
  | service =>
    show e ∈ (readModel doc serviceFields _ n).errors
    rw [errors_readModel hv]
    exact List.mem_append_right _ hextra
  | step =>
    show e ∈ (readModel doc stepFields _ n).errors
    rw [errors_readModel hv]
    exact List.mem_append_right _ hextra

/-- A required field that is left out is told, whatever else is wrong with the model. -/
theorem missing_mem_errorsOf {model : Model} (hv : doc.value n = .dict entries) {name : String}
    (hname : name ∈ model.required) (h : entries.lookup (.str name) = none) :
    ⟨[.key (.str name)], .missing⟩ ∈ errorsOf conv doc model n := by
  cases model with
  | plan =>
    show _ ∈ (readPlan conv doc n).errors
    rw [readPlan, errors_readModel hv]
    simp only [Model.required, List.mem_cons, List.not_mem_nil, or_false] at hname
    rcases hname with rfl | rfl <;>
    simp [missing_mem_errors h]
  | event =>
    refine Validated.mem_errors_andThen ?_
    rw [readEventFields, errors_readModel hv]
    simp only [Model.required, List.mem_cons, List.not_mem_nil, or_false] at hname
    rcases hname with rfl | rfl <;>
    simp [missing_mem_errors h]
  | service =>
    show _ ∈ (readService conv doc n).errors
    rw [readService, errors_readModel hv]
    simp only [Model.required, List.mem_cons, List.not_mem_nil, or_false] at hname
    rcases hname with rfl | rfl | rfl <;>
    simp [missing_mem_errors h]
  | step =>
    show _ ∈ (readStep conv doc n).errors
    rw [readStep, errors_readModel hv]
    simp only [Model.required, List.mem_cons, List.not_mem_nil, or_false] at hname
    rcases hname with rfl | rfl <;>
    simp [missing_mem_errors h]

end

/-! ## Every error has a place -/

/-- A path leads through a document: to an object, to a field that is not there, or to a key that
is no string. -/
inductive Leads {ι : Type} (doc : Document ι) : ι → List Subscript → Prop
  | here (n : ι) : Leads doc n []
  | entry {n m : ι} {entries : List (DictKey × ι)} {key : DictKey} {path : List Subscript}
    (hv : doc.value n = .dict entries) (hm : (key, m) ∈ entries) (rest : Leads doc m path) :
    Leads doc n (.key key :: path)
  | absent {n : ι} {entries : List (DictKey × ι)} {s : String} (hv : doc.value n = .dict entries)
    (h : entries.lookup (.str s) = none) : Leads doc n [.key (.str s)]
  | badKey {n m : ι} {entries : List (DictKey × ι)} {key : DictKey}
    (hv : doc.value n = .dict entries) (hm : (key, m) ∈ entries) :
    Leads doc n [.key key, .key (.str "[key]")]
  | item {n m : ι} {items : List ι} {i : Nat} {path : List Subscript} (hitems : doc.items n items)
    (hitem : items[i]? = some m) (rest : Leads doc m path) : Leads doc n (.index i :: path)

section

variable {ι α β : Type} {conv : Conversions} {doc : Document ι} {n : ι}
  {entries : List (DictKey × ι)}

/-- What is wrong is wrong at a place below an object. -/
def Located (doc : Document ι) (n : ι) (x : Read α) : Prop := ∀ e ∈ x.errors, Leads doc n e.loc

theorem located_ok {a : α} : Located doc n (.ok a) := fun e he => by cases he

/-- A refusal is at the object itself. -/
theorem located_refuse {problem : Problem} : Located doc n (refuse problem : Read α) := by
  intro e he
  rw [List.mem_singleton.mp he]
  exact .here n

theorem Located.map {f : α → β} {x : Read α} (h : Located doc n x) : Located doc n (f <$> x) := by
  intro e he
  rw [Validated.errors_map] at he
  exact h e he

/-- Where two parts are read, each is wrong in its own places. -/
theorem Located.seq {f : Read (α → β)} {x : Read α} (hf : Located doc n f) (hx : Located doc n x) :
    Located doc n (f <*> x) := by
  intro e he
  rw [Validated.errors_seq, List.mem_append] at he
  exact he.elim (hf e) (hx e)

/-- What is checked of a value that was read is wrong where the value is. -/
theorem Located.andThen {x : Read α} {f : α → Read β} (hx : Located doc n x)
    (hf : ∀ a, Located doc n (f a)) : Located doc n (x.andThen f) := by
  intro e he
  rcases Validated.mem_errors_andThen_cases he with he | ⟨a, -, he⟩
  · exact hx e he
  · exact hf a e he

/-- A validator speaks of the object it was given. -/
theorem Located.checked {check : α → Except String β} {x : Read α} (hx : Located doc n x) :
    Located doc n (checked check x) := by
  refine hx.andThen fun a => ?_
  split
  · exact located_ok
  · exact located_refuse

/-! ### Single values -/

theorem located_readText {v : Value ι} : Located doc n (readText v) := by
  unfold readText
  split
  · exact located_ok
  · exact located_ok
  · exact located_refuse
  · exact located_refuse

theorem located_readStrictBool {v : Value ι} : Located doc n (readStrictBool v) := by
  unfold readStrictBool
  split
  · exact located_ok
  · exact located_refuse

theorem located_readEnum {members : List α} {value : α → String} {v : Value ι} :
    Located doc n (readEnum members value v) := by
  unfold readEnum
  split
  · split
    · exact located_ok
    · exact located_refuse
  · exact located_refuse

/-- A field that may be null is wrong where its value is. -/
theorem located_readOptional {read : Value ι → Read α} {v : Value ι}
    (h : Located doc n (read v)) : Located doc n (readOptional read v) := by
  unfold readOptional
  split
  · exact located_ok
  · exact h.map

theorem located_readIdentifier {field : String} {v : Value ι} :
    Located doc n (readIdentifier field v) := located_readText.checked

/-- The guard of a number names no place below it. -/
theorem located_numberGuard {booleanText field : String} {v : Value ι} :
    Located doc n (numberGuard conv booleanText field v) := by
  unfold numberGuard
  split
  · exact located_refuse
  · unfold plainDecimal
    split
    · split
      · exact located_ok
      · exact located_refuse
    · exact located_ok

theorem located_readInt {v : Value ι} : Located doc n (readInt conv v) := by
  unfold readInt
  split
  case h_3 | h_5 | h_6 =>
    split
    · exact located_ok
    · exact located_refuse
  all_goals first | exact located_ok | exact located_refuse

theorem located_readFloat {v : Value ι} : Located doc n (readFloat conv v) := by
  unfold readFloat
  split
  case h_3 | h_5 | h_6 =>
    split
    · exact located_ok
    · exact located_refuse
  all_goals first | exact located_ok | exact located_refuse

theorem located_nonnegative {i : Int} : Located doc n (nonnegative i) := by
  unfold nonnegative
  split
  · exact located_ok
  · exact located_refuse

/-- Each field of a number is wrong at the number. -/
theorem located_readPriority {v : Value ι} : Located doc n (readPriority conv v) := by
  refine located_numberGuard.andThen fun _ => located_readInt.andThen fun i =>
    located_nonnegative.andThen fun k => ?_
  split
  · exact located_ok
  · exact located_refuse

theorem located_readOrbit {v : Value ι} : Located doc n (readOrbit conv v) :=
  located_numberGuard.andThen fun _ =>
    located_readOptional (located_readInt.andThen fun _ => located_nonnegative)

theorem located_readDuration {v : Value ι} : Located doc n (readDuration conv v) := by
  refine located_numberGuard.andThen fun _ =>
    located_readOptional (located_readFloat.andThen fun x => ?_)
  split
  · exact located_ok
  · exact located_refuse

theorem located_readDatetimeText {s : String} : Located doc n (readDatetimeText conv s) := by
  unfold readDatetimeText
  split
  · exact located_ok
  · exact located_refuse
  · exact located_refuse

/-- A timestamp is wrong as a whole. -/
theorem located_readTimestamp {v : Value ι} : Located doc n (readTimestamp conv v) := by
  unfold readTimestamp
  split
  all_goals first | exact located_ok | exact located_refuse | exact located_readDatetimeText

/-! ### Containers -/

/-- What is wrong with a part is wrong below the object, by the step that leads to the part. -/
theorem Located.under {step : Subscript} {m : ι} {x : Read α} (hx : Located doc m x)
    (hstep : ∀ path, Leads doc m path → Leads doc n (step :: path)) :
    Located doc n (under step x) := by
  intro e he
  obtain ⟨e', he', rfl⟩ := mem_errors_under.mp he
  exact hstep _ (hx e' he')

/-- An item of a list is wrong at its index. -/
theorem located_readList {read : ι → Read α} (hread : ∀ m, Located doc m (read m)) :
    Located doc n (readList doc read n) := by
  have hall : ∀ items, doc.items n items → Located doc n (readItems read items) := by
    intro items hitems e he
    obtain ⟨x, hx, he⟩ := Validated.mem_errors_all.mp he
    obtain ⟨i, hi, rfl⟩ := List.mem_mapIdx.mp hx
    obtain ⟨e', he', rfl⟩ := mem_errors_under.mp he
    exact .item hitems (List.getElem?_eq_getElem hi) (hread _ e' he')
  unfold readList
  split
  · next items hv => exact hall items (.inl hv)
  · next items hv => exact hall items (.inr hv)
  · exact located_refuse

theorem located_nonempty {xs : List α} : Located doc n (nonempty xs) := by
  cases xs with
  | nil => exact located_refuse
  | cons x xs => exact located_ok

theorem located_readTexts : Located doc n (readTexts doc n) :=
  located_readList fun _ => located_readText

/-- A key is wrong at the dict, under the key and `[key]`. -/
theorem located_readKey {key : DictKey} {m : ι} (hv : doc.value n = .dict entries)
    (hm : (key, m) ∈ entries) : Located doc n (readKey key) := by
  have hrefused : ∀ problem, Located doc n
      (under (.key key) (under (.key (.str "[key]")) (refuse problem : Read String))) := by
    intro problem e he
    obtain ⟨e', he', rfl⟩ := mem_errors_under.mp he
    obtain ⟨e'', he'', rfl⟩ := mem_errors_under.mp he'
    rw [List.mem_singleton.mp he'']
    exact .badKey hv hm
  cases key with
  | str s => exact located_ok
  | bytes decoded repr =>
    cases decoded with
    | some s => exact located_ok
    | none => exact hrefused .stringUnicode
  | other identity repr => exact hrefused .stringType

/-- All that is wrong with some parts is wrong with one of them. -/
theorem located_all {xs : List (Read α)} (h : ∀ x ∈ xs, Located doc n x) :
    Located doc n (.all xs) := by
  intro e he
  obtain ⟨x, hx, he⟩ := Validated.mem_errors_all.mp he
  exact h x hx e he

/-- An entry of a dict of strings is wrong at its key, or under it. -/
theorem located_readEntries {read : ι → Read α} (hread : ∀ m, Located doc m (read m))
    (hv : doc.value n = .dict entries) : Located doc n (readEntries read entries) := by
  refine (located_all fun x hx => ?_).map
  obtain ⟨e, he, rfl⟩ := List.mem_map.mp hx
  exact (located_readKey hv he).map.seq ((hread e.2).under fun path => .entry hv he)

/-- What is wrong with a selector as a whole is told at its dict. -/
theorem located_readSelector : Located doc n (readSelector conv doc n) := by
  refine Located.checked ?_
  unfold readTextDict
  split
  · next entries hv => exact (located_readEntries (fun m => located_readText) hv).map
  · exact located_refuse

/-- What the metadata walk refuses is told at the dict. -/
theorem located_readMetadata [DecidableEq ι] : Located doc n (readMetadata conv doc n) := by
  unfold readMetadata
  split
  · next entries hv => exact (located_readEntries (fun m => located_ok) hv).checked
  · exact located_refuse

/-! ### Records -/

/-- A field is wrong under its name, which the dict has or lacks. -/
theorem located_required {name : String} {read : ι → Read α} (hv : doc.value n = .dict entries)
    (hread : ∀ m, Located doc m (read m)) : Located doc n (required entries name read) := by
  unfold required
  split
  · next m hm => exact (hread m).under fun path => .entry hv (mem_of_lookup hm)
  · next hm =>
    intro e he
    obtain ⟨e', he', rfl⟩ := mem_errors_under.mp he
    rw [List.mem_singleton.mp he']
    exact .absent hv hm

/-- A field with a default is only wrong where it is there. -/
theorem located_defaulted {name : String} {default : α} {read : ι → Read α}
    (hv : doc.value n = .dict entries) (hread : ∀ m, Located doc m (read m)) :
    Located doc n (defaulted entries name default read) := by
  unfold defaulted
  split
  · next m hm => exact (hread m).under fun path => .entry hv (mem_of_lookup hm)
  · exact located_ok

/-- An unknown key is a place of the document as well. -/
theorem located_readModel {fields : List String} {body : List (DictKey × ι) → Read α}
    (hbody : ∀ entries, doc.value n = .dict entries → Located doc n (body entries)) :
    Located doc n (readModel doc fields body n) := by
  unfold readModel
  split
  · next entries hv =>
    refine (hbody entries hv).map.seq fun e he => ?_
    rw [extraKeys, Validated.errors_ofErrors] at he
    obtain ⟨⟨key, m⟩, hmem, he⟩ := List.mem_flatMap.mp he
    cases key with
    | str s =>
      by_cases hs : s ∈ fields
      · simp [extraKey, hs] at he
      · simp only [extraKey, hs, if_false, List.mem_singleton] at he
        rw [he]
        exact .entry hv hmem (.here m)
    | _ =>
      simp only [extraKey, List.mem_singleton] at he
      rw [he]
      exact .entry hv hmem (.here m)
  · exact located_refuse

variable [DecidableEq ι]

/-- The errors of a step are at its fields, in the order they are read. -/
theorem located_readStep : Located doc n (readStep conv doc n) := by
  refine located_readModel fun entries hv => ?_
  exact (located_required hv fun _ => located_readIdentifier).map
    |>.seq (located_required hv fun _ => located_readIdentifier)
    |>.seq (located_defaulted hv fun _ => located_readOptional located_readEnum)
    |>.seq (located_defaulted hv fun _ => located_readEnum)
    |>.seq (located_defaulted hv fun _ => located_readOptional located_readEnum)
    |>.seq (located_defaulted hv fun _ => located_readStrictBool)
    |>.seq (located_defaulted hv fun _ => located_readTexts)
    |>.seq (located_defaulted hv fun _ => located_readTexts)
    |>.seq (located_defaulted hv fun _ => located_readMetadata)
    |>.seq (located_defaulted hv fun _ => located_readSelector)

/-- The errors of a service are at its fields, or below its list of steps. -/
theorem located_readService : Located doc n (readService conv doc n) := by
  refine located_readModel fun entries hv => ?_
  exact (located_required hv fun _ => located_readIdentifier).map
    |>.seq (located_required hv fun _ => located_readPriority)
    |>.seq (located_defaulted hv fun _ => located_readOptional located_readText)
    |>.seq (located_defaulted hv fun _ => located_readEnum)
    |>.seq (located_required hv fun _ =>
      (located_readList fun _ => located_readStep).andThen fun _ => located_nonempty)

/-- The errors of an event are at its fields and services, or at the event as a whole. -/
theorem located_readEvent : Located doc n (readEvent conv doc n) := by
  refine Located.checked (located_readModel fun entries hv => ?_)
  exact (located_required hv fun _ => located_readTimestamp).map
    |>.seq (located_required hv fun _ => located_readEnum)
    |>.seq (located_defaulted hv fun _ => located_readOrbit)
    |>.seq (located_defaulted hv fun _ => located_readDuration)
    |>.seq (located_defaulted hv fun _ => located_readOptional located_readText)
    |>.seq (located_defaulted hv fun _ => located_readOptional located_readText)
    |>.seq (located_defaulted hv fun _ => located_readStrictBool)
    |>.seq (located_defaulted hv fun _ => located_readOptional located_readText)
    |>.seq (located_defaulted hv fun _ => located_readList fun _ => located_readService)

/-- Every error of a plan leads into its document. -/
theorem located_readPlan : Located doc n (readPlan conv doc n) := by
  refine located_readModel fun entries hv => ?_
  exact (located_required hv fun _ => located_readIdentifier).map
    |>.seq (located_defaulted hv fun _ => located_readOptional located_readText)
    |>.seq (located_required hv fun _ =>
      (located_readList fun _ => located_readEvent).andThen fun _ => located_nonempty)

end

/-! ## Refusals -/

/-- What a `ValidationError` of a plan tells: what is wrong with each model, under its place, every
key that a model does not know and every field that is left out among it; and nothing of what is not
in the document. -/
structure Tells {ι : Type} [DecidableEq ι] (conv : Conversions) (doc : Document ι) (root : ι) :
    Prop where
  accepted : (readPlan conv doc root).errors = [] ↔ ∃ plan, readPlan conv doc root = .ok plan
  model : ∀ place n model, Stands doc root place n model → ∀ e ∈ errorsOf conv doc model n,
    ⟨place ++ e.loc, e.problem⟩ ∈ (readPlan conv doc root).errors
  unknown : ∀ place n model entries key m, Stands doc root place n model →
    doc.value n = .dict entries → (key, m) ∈ entries → (∀ s ∈ model.fields, key ≠ .str s) →
      ∃ problem, ⟨place ++ [.key key], problem⟩ ∈ (readPlan conv doc root).errors
  missing : ∀ place n model entries, Stands doc root place n model → doc.value n = .dict entries →
    ∀ s ∈ model.required, entries.lookup (.str s) = none →
      ⟨place ++ [.key (.str s)], .missing⟩ ∈ (readPlan conv doc root).errors
  located : ∀ e ∈ (readPlan conv doc root).errors, Leads doc root e.loc

/-- However much is wrong with a document, and wherever in it a model stands, the refusal tells all
of it and names places of the document. -/
theorem refusal_tells {ι : Type} [DecidableEq ι] (conv : Conversions) (doc : Document ι)
    (root : ι) : Tells conv doc root where
  accepted := Validated.errors_eq_nil
  model place n model hstands e he := hstands.told he
  unknown place n model entries key m hstands hv hmem hkey := by
    cases key with
    | str s =>
      have hs : s ∉ model.fields := fun hs => hkey s hs rfl
      have hextra : ⟨[.key (.str s)], .extraForbidden⟩ ∈ extraKey model.fields (.str s) := by
        simp [extraKey, hs]
      exact ⟨_, hstands.told (extra_mem_errorsOf hv hmem hextra)⟩
    | _ => exact ⟨_, hstands.told (extra_mem_errorsOf hv hmem (List.mem_singleton.mpr rfl))⟩
  missing place n model entries hstands hv s hs hnone :=
    hstands.told (missing_mem_errorsOf hv hs hnone)
  located := located_readPlan

end MissionCompiler.Reading
