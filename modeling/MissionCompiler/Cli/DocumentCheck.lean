import MissionCompiler.Artifact.Stale
import MissionCompiler.Schema.Metadata

/-!
# The document check of the gate

`_document_problems`, `_unreadable_documents` and the loaders they read through. A document is an
object among others, and an alias can make it its own member: the check descends through the
members of a `List` for as long as the interpreter's stack has room. What the parsers give or
raise is a parameter.
-/

namespace MissionCompiler.Cli

open Lib Schema Artifact

variable {ι : Type}

/-! ## Documents -/

/-- A loaded object, as far as the check looks at it. -/
inductive Loaded (ι : Type) where
  | none
  | str (s : String)
  | list (items : List ι)
  | dict (entries : List (DictKey × ι))
  | other (typeName : String) (truthy : Bool)

namespace Loaded

/-- `type(value).__name__`. -/
def typeName : Loaded ι → String
  | .none => "NoneType"
  | .str _ => "str"
  | .list _ => "list"
  | .dict _ => "dict"
  | .other name _ => name

def truthy : Loaded ι → Bool
  | .none => false
  | .str s => s != ""
  | .list items => !items.isEmpty
  | .dict entries => !entries.isEmpty
  | .other _ truthy => truthy

/-- A string with something in it. -/
def isText : Loaded ι → Bool
  | .str s => s != ""
  | _ => false

def eqStr (s : String) : Loaded ι → Bool
  | .str t => t == s
  | _ => false

def isNone : Loaded ι → Bool
  | .none => true
  | _ => false

end Loaded

variable (objects : ι → Loaded ι)

/-- `entries.get(key)`. -/
def getValue (entries : List (DictKey × ι)) (key : String) : Loaded ι :=
  match entries.lookup (.str key) with
  | some value => objects value
  | none => .none

/-- The end of `_document_problems`, for a document that is no `List`. -/
def metadataProblems (metadata : Loaded ι) (place : String) : List String :=
  match metadata with
  | .dict (entry :: entries) =>
    if !(getValue objects (entry :: entries) "name").truthy &&
        !(getValue objects (entry :: entries) "generateName").truthy then
      [place ++ ": has metadata but no name"]
    else []
  | _ => [place ++ ": has no metadata, or one that is not an object"]

/-- `_document_problems`, on a stack with room for so many of its calls. -/
def documentProblems : Nat → ι → String → Except Exn (List String)
  | 0, _, _ => .error .recursionError
  | room + 1, doc, place =>
    match objects doc with
    | .dict entries =>
      if !(getValue objects entries "apiVersion").isText then
        .ok [place ++ ": has no apiVersion, or one that is not a string"]
      else if !(getValue objects entries "kind").isText then
        .ok [place ++ ": has no kind, or one that is not a string"]
      else if (getValue objects entries "kind").eqStr "List" then
        match getValue objects entries "items" with
        | .list (first :: items) =>
          enumerateM (fun i item =>
            documentProblems room item (place ++ " item " ++ toString (i + 1))) 0 (first :: items)
        | _ => .ok [place ++ ": is a List with no items"]
      else .ok (metadataProblems objects (getValue objects entries "metadata") place)
    | value => .ok [place ++ ": is a " ++ value.typeName ++ ", not an object"]

/-! ## Loading -/

/-- What comes of a parser that gives no documents. Of the other exceptions, a constructor's
`ValueError` is one: for a timestamp no calendar has, or an integer too long to convert. -/
inductive LoadFailure where
  | yamlError (text : String)
  | jsonDecodeError (text : String)
  | recursionError (text : String)
  | memoryError
  | raised (e : Exn)
deriving DecidableEq

/-- `JSONDecoder.raw_decode`, which gives a value and the text after it, and
`yaml.safe_load_all`. A value has text of its own. -/
structure Parsers (ι : Type) where
  rawDecode : List Char → Except LoadFailure (ι × List Char)
  safeLoadAll : List Char → Except LoadFailure (List ι)
  consumes : ∀ text value rest, rawDecode text = .ok (value, rest) → rest.length < text.length

variable (parsers : Parsers ι)

/-- `_json_stream`. -/
def jsonStream (text : List Char) : Except LoadFailure (List ι) :=
  match _ : text.dropWhile isPySpace with
  | [] => .ok []
  | c :: cs =>
    match _ : parsers.rawDecode (c :: cs) with
    | .error failure => .error failure
    | .ok (value, rest) => do
      let docs ← jsonStream rest
      return value :: docs
termination_by text.length
decreasing_by
  have hle : (text.dropWhile isPySpace).length ≤ text.length := (List.dropWhile_sublist _).length_le
  rw [‹text.dropWhile isPySpace = c :: cs›] at hle
  exact (parsers.consumes _ _ _ ‹_›).trans_le hle

/-- `"\ufeff"`. -/
def byteOrderMark : Char := Char.ofNat 0xFEFF

/-- `_load_documents`. -/
def loadDocuments (content : String) : Except LoadFailure (List ι) :=
  let text := if content.toList.head? = some byteOrderMark then content.toList.tail
    else content.toList
  let stripped := text.dropWhile isPySpace
  if stripped.head? = some '{' then
    match jsonStream parsers stripped with
    | .ok docs => .ok docs
    -- a YAML flow mapping opens with a brace as well
    | .error (.jsonDecodeError _) => parsers.safeLoadAll text
    | .error failure => .error failure
  else parsers.safeLoadAll text

/-! ## The check -/

/-- An entry of the directory. A text is what `read_text` gives, or the reason it gives none. -/
structure StagedFile where
  name : String
  isFile : Bool
  text : Except String String

/-- A directory has each name once. -/
structure StagingDir where
  files : List StagedFile
  names_nodup : (files.map StagedFile.name).Nodup

/-- What `_unreadable_documents` raises: `ArgoLintUnavailable`, or an exception that is not. -/
inductive CheckExn where
  | unavailable (message : String)
  | raised (e : Exn)

/-- Whether the check reads an entry. -/
def StagedFile.isManifest (file : StagedFile) : Bool := file.isFile && isManifestName file.name

variable (room : Nat)

/-- The loop over the documents of a file; an empty document is passed over. -/
def docsProblems (name : String) (docs : List ι) : Except Exn (List String) :=
  enumerateM (fun i doc =>
    if (objects doc).isNone then .ok []
    else documentProblems objects room doc (name ++ " document " ++ toString (i + 1))) 0 docs

/-- The handlers around the loaders, and the check of what they give. -/
def loadedProblems (name : String) : Except LoadFailure (List ι) → Except CheckExn (List String)
  | .error (.yamlError reason) => .ok [name ++ ": cannot be parsed: " ++ reason]
  | .error (.jsonDecodeError reason) => .ok [name ++ ": cannot be parsed: " ++ reason]
  | .error (.recursionError reason) => .error (.unavailable (name ++
      " nests too deeply for the parser to read, so the gate could not decide whether it is " ++
      "valid: " ++ reason))
  | .error .memoryError => .error (.unavailable (name ++
      " could not be held in memory to be read, so the gate could not decide whether it is valid"))
  | .error (.raised e) => .error (.raised e)
  -- outside the handlers: an exception of the check itself goes through
  | .ok docs => (docsProblems objects room name docs).mapError .raised

/-- The body of the loop over the directory. -/
def fileProblems (file : StagedFile) : Except CheckExn (List String) :=
  if !file.isManifest then .ok []
  else match file.text with
    | .error reason => .ok [file.name ++ ": cannot be read: " ++ reason]
    | .ok text => loadedProblems objects room file.name (loadDocuments parsers text)

/-- The loop over the directory. -/
def filesProblems : List StagedFile → Except CheckExn (List String)
  | [] => .ok []
  | file :: files => do
    let here ← fileProblems objects parsers room file
    let rest ← filesProblems files
    return here ++ rest

/-- `_unreadable_documents`. -/
def unreadableDocuments (dir : StagingDir) : Except CheckExn (List String) :=
  filesProblems objects parsers room (dir.files.insertionSort fun f g => f.name ≤ g.name)

/-! ## What the check is for -/

/-- A document says what it is: its version, and of which kind it is. -/
structure Header (doc : ι) (kind : String) (entries : List (DictKey × ι)) : Prop where
  object : objects doc = .dict entries
  versioned : (getValue objects entries "apiVersion").isText = true
  kind_eq : getValue objects entries "kind" = .str kind
  kind_ne : kind ≠ ""

/-- A document that can be applied: a `List` with members, each of which can be, or an object
with a name. -/
inductive Applicable : ι → Prop
  | list {doc first : ι} {items : List ι} {entries : List (DictKey × ι)}
      (header : Header objects doc "List" entries)
      (members : getValue objects entries "items" = .list (first :: items))
      (applicable : ∀ item ∈ first :: items, Applicable item) : Applicable doc
  | object {doc : ι} {kind : String} {entries metadata : List (DictKey × ι)}
      (header : Header objects doc kind entries) (single : kind ≠ "List")
      (described : getValue objects entries "metadata" = .dict metadata) (nonempty : metadata ≠ [])
      (named : (getValue objects metadata "name").truthy = true ∨
        (getValue objects metadata "generateName").truthy = true) : Applicable doc

/-- The members the check descends to. -/
def listMembers (doc : ι) : List ι :=
  match objects doc with
  | .dict entries =>
    if (getValue objects entries "apiVersion").isText &&
        (getValue objects entries "kind").eqStr "List" then
      match getValue objects entries "items" with
      | .list items => items
      | _ => []
    else []
  | _ => []

/-- The members with their positions, as edges of the graph of documents. -/
def memberEdges (doc : ι) : List (Nat × ι) := (listMembers objects doc).zipIdx.map Prod.swap

/-- Lists are nested in a document at least so deep. One that is its own member has no bottom. -/
def NestedTo (depth : Nat) (doc : ι) : Prop :=
  ∃ path ∈ unfolding (memberEdges objects) doc, depth ≤ path.length

theorem nestedTo_zero (doc : ι) : NestedTo objects 0 doc :=
  ⟨[], ⟨doc, .here doc⟩, Nat.zero_le _⟩

theorem nestedTo_succ {depth : Nat} {doc : ι} :
    NestedTo objects (depth + 1) doc ↔
      ∃ item ∈ listMembers objects doc, NestedTo objects depth item := by
  have hmember : ∀ item, item ∈ listMembers objects doc ↔
      ∃ k, (k, item) ∈ memberEdges objects doc := by
    intro item
    have hall := List.zipIdx_map_fst 0 (listMembers objects doc)
    constructor
    · intro h
      rw [← hall] at h
      obtain ⟨e, he, rfl⟩ := List.mem_map.mp h
      exact ⟨e.2, List.mem_map.mpr ⟨e, he, rfl⟩⟩
    · intro ⟨k, h⟩
      obtain ⟨e, he, heq⟩ := List.mem_map.mp h
      obtain ⟨-, rfl⟩ := Prod.mk.inj heq
      exact List.fst_mem_of_mem_zipIdx he
  constructor
  · intro ⟨path, ⟨t, hpath⟩, hlength⟩
    cases path with
    | nil => exact absurd hlength (Nat.not_succ_le_zero _)
    | cons k path =>
      obtain ⟨item, hedge, hrest⟩ := At.cons_iff.mp hpath
      exact ⟨item, (hmember item).mpr ⟨k, hedge⟩, path, ⟨t, hrest⟩, Nat.le_of_succ_le_succ hlength⟩
  · intro ⟨item, hitem, path, ⟨t, hpath⟩, hlength⟩
    obtain ⟨k, hedge⟩ := (hmember item).mp hitem
    exact ⟨k :: path, ⟨t, At.cons_iff.mpr ⟨item, hedge, hpath⟩⟩, Nat.succ_le_succ hlength⟩

/-- A `List` below itself nests as deep as one likes. -/
theorem nestedTo_of_cycle {doc : ι}
    (h : Relation.TransGen (Child (memberEdges objects)) doc doc) (depth : Nat) :
    NestedTo objects depth doc := by
  obtain ⟨path, hpath, hlength⟩ := exists_at_of_cycle h depth
  exact ⟨path, ⟨doc, hpath⟩, hlength⟩

/-! ## One document -/

theorem Loaded.isText_iff {value : Loaded ι} :
    value.isText = true ↔ ∃ s, value = .str s ∧ s ≠ "" := by
  cases value <;> simp [Loaded.isText]

theorem Loaded.eqStr_iff {value : Loaded ι} {s : String} :
    value.eqStr s = true ↔ value = .str s := by
  cases value <;> simp [Loaded.eqStr]

theorem metadataProblems_eq_nil {metadata : Loaded ι} {place : String} :
    metadataProblems objects metadata place = [] ↔ ∃ entries, metadata = .dict entries ∧
      entries ≠ [] ∧ ((getValue objects entries "name").truthy = true ∨
        (getValue objects entries "generateName").truthy = true) := by
  unfold metadataProblems
  split
  · next entry entries =>
    have hsplit : (!(getValue objects (entry :: entries) "name").truthy &&
        !(getValue objects (entry :: entries) "generateName").truthy) = false ↔
          (getValue objects (entry :: entries) "name").truthy = true ∨
            (getValue objects (entry :: entries) "generateName").truthy = true := by
      cases (getValue objects (entry :: entries) "name").truthy <;> simp
    constructor
    · intro h
      split at h
      · cases h
      · next hnamed => exact ⟨_, rfl, by simp, hsplit.mp (Bool.eq_false_iff.mpr hnamed)⟩
    · intro ⟨entries', heq, _, hnamed⟩
      obtain rfl := Loaded.dict.inj heq
      rw [hsplit.mpr hnamed]
      rfl
  · next hother =>
    constructor
    · intro h
      cases h
    intro ⟨entries, heq, hne, _⟩
    cases entries with
    | nil => exact absurd rfl hne
    | cons entry entries => exact absurd heq (hother entry entries)

/-- A document that can be applied, by the tests of one call. -/
theorem applicable_iff {doc : ι} (place : String) :
    Applicable objects doc ↔ ∃ entries, objects doc = .dict entries ∧
      (getValue objects entries "apiVersion").isText = true ∧
      (getValue objects entries "kind").isText = true ∧
      if (getValue objects entries "kind").eqStr "List" then
        ∃ first items, getValue objects entries "items" = .list (first :: items) ∧
          ∀ item ∈ first :: items, Applicable objects item
      else metadataProblems objects (getValue objects entries "metadata") place = [] := by
  constructor
  · intro h
    cases h with
    | list header members applicable =>
      refine ⟨_, header.object, header.versioned,
        Loaded.isText_iff.mpr ⟨_, header.kind_eq, header.kind_ne⟩, ?_⟩
      rw [if_pos (Loaded.eqStr_iff.mpr header.kind_eq)]
      exact ⟨_, _, members, applicable⟩
    | object header single described nonempty named =>
      refine ⟨_, header.object, header.versioned,
        Loaded.isText_iff.mpr ⟨_, header.kind_eq, header.kind_ne⟩, ?_⟩
      rw [if_neg, metadataProblems_eq_nil]
      · exact ⟨_, described, nonempty, named⟩
      · intro hlist
        have hkind := header.kind_eq.symm.trans (Loaded.eqStr_iff.mp hlist)
        exact single (Loaded.str.inj hkind)
  · intro ⟨entries, hobject, hversioned, hkind, hrest⟩
    obtain ⟨kind, hkind, hne⟩ := Loaded.isText_iff.mp hkind
    have header : Header objects doc kind entries := ⟨hobject, hversioned, hkind, hne⟩
    by_cases hlist : kind = "List"
    · subst hlist
      rw [if_pos (Loaded.eqStr_iff.mpr hkind)] at hrest
      obtain ⟨first, items, hmembers, happlicable⟩ := hrest
      exact .list header hmembers happlicable
    · rw [if_neg, metadataProblems_eq_nil] at hrest
      · obtain ⟨metadata, hdescribed, hnonempty, hnamed⟩ := hrest
        exact .object header hlist hdescribed hnonempty hnamed
      · intro htest
        exact hlist (Loaded.str.inj (hkind.symm.trans (Loaded.eqStr_iff.mp htest)))

/-- What one call does: it checks the members of a `List`, and decides about any other document
by itself. -/
theorem documentProblems_succ (room : Nat) (doc : ι) (place : String) :
    (∃ first items, listMembers objects doc = first :: items ∧
      documentProblems objects (room + 1) doc place = enumerateM (fun i item =>
        documentProblems objects room item (place ++ " item " ++ toString (i + 1))) 0
          (first :: items) ∧
      (Applicable objects doc ↔ ∀ item ∈ first :: items, Applicable objects item)) ∨
    (listMembers objects doc = [] ∧ ∃ problems,
      documentProblems objects (room + 1) doc place = .ok problems ∧
      (problems = [] ↔ Applicable objects doc)) := by
  rw [applicable_iff objects place, documentProblems, listMembers]
  cases hobject : objects doc with
  | dict entries =>
    simp only [Loaded.dict.injEq, exists_eq_left']
    cases hversioned : (getValue objects entries "apiVersion").isText with
    | false => exact .inr ⟨by simp, _, rfl, by simp⟩
    | true =>
      cases hkind : (getValue objects entries "kind").isText with
      | false =>
        have hlist : (getValue objects entries "kind").eqStr "List" = false := by
          rw [Bool.eq_false_iff]
          intro hlist
          rw [Loaded.eqStr_iff.mp hlist] at hkind
          cases hkind
        exact .inr ⟨by simp [hlist], _, rfl, by simp⟩
      | true =>
        cases hlist : (getValue objects entries "kind").eqStr "List" with
        | false => exact .inr ⟨by simp, _, rfl, by simp⟩
        | true =>
          cases hmembers : getValue objects entries "items" with
          | list items =>
            cases items with
            | nil => exact .inr ⟨by simp, _, rfl, by simp⟩
            | cons first items => exact .inl ⟨first, items, by simp, rfl, by simp⟩
          | _ => exact .inr ⟨by simp, _, rfl, by simp⟩
  | _ => exact .inr ⟨rfl, _, rfl, by simp⟩

/-- A call overflows the stack exactly when the lists of its document nest beyond it. -/
theorem documentProblems_raises (room : Nat) (doc : ι) (place : String) :
    (∃ e, documentProblems objects room doc place = .error e) ↔ NestedTo objects room doc := by
  induction room generalizing doc place with
  | zero => exact ⟨fun _ => nestedTo_zero objects doc, fun _ => ⟨_, rfl⟩⟩
  | succ room ih =>
    rw [nestedTo_succ]
    rcases documentProblems_succ objects room doc place with
      ⟨first, items, hmembers, hcall, _⟩ | ⟨hmembers, problems, hcall, _⟩
    · rw [hcall, hmembers]
      exact enumerateM_raises _ 0 fun i item _ => ih item _
    · rw [hcall, hmembers]
      simp

/-- A call that fits the stack finds nothing exactly in a document that can be applied. -/
theorem documentProblems_eq_nil {room : Nat} {doc : ι} (h : ¬ NestedTo objects room doc)
    (place : String) :
    documentProblems objects room doc place = .ok [] ↔ Applicable objects doc := by
  induction room generalizing doc place with
  | zero => exact absurd (nestedTo_zero objects doc) h
  | succ room ih =>
    rw [nestedTo_succ] at h
    rcases documentProblems_succ objects room doc place with
      ⟨first, items, hmembers, hcall, happlicable⟩ | ⟨_, problems, hcall, happlicable⟩
    · rw [hcall, happlicable]
      apply enumerateM_eq_nil
      intro i item hitem
      apply ih
      intro hnested
      exact h ⟨item, by rwa [hmembers], hnested⟩
    · rw [hcall, ← happlicable]
      exact ⟨Except.ok.inj, congrArg _⟩

/-! ## One file -/

/-- A document that is empty, or can be applied. -/
def Fine (doc : ι) : Prop := (objects doc).isNone = true ∨ Applicable objects doc

/-- A document whose check overflows the stack. -/
def TooDeep (doc : ι) : Prop := (objects doc).isNone = false ∧ NestedTo objects room doc

theorem docsProblems_raises (name : String) (docs : List ι) :
    (∃ e, docsProblems objects room name docs = .error e) ↔
      ∃ doc ∈ docs, TooDeep objects room doc := by
  apply enumerateM_raises
  intro i doc _
  cases hnone : (objects doc).isNone with
  | true => simp [TooDeep, hnone]
  | false =>
    rw [if_neg Bool.false_ne_true, documentProblems_raises, TooDeep, hnone]
    simp

theorem docsProblems_eq_nil (name : String) {docs : List ι}
    (h : ¬ ∃ doc ∈ docs, TooDeep objects room doc) :
    docsProblems objects room name docs = .ok [] ↔ ∀ doc ∈ docs, Fine objects doc := by
  apply enumerateM_eq_nil
  intro i doc hdoc
  cases hnone : (objects doc).isNone with
  | true => simp [Fine, hnone]
  | false =>
    rw [if_neg Bool.false_ne_true, documentProblems_eq_nil, Fine, hnone]
    · simp
    · intro hnested
      exact h ⟨doc, hdoc, hnone, hnested⟩

/-- What the loaders make of a file the check reads. -/
def Reads (file : StagedFile) (result : Except LoadFailure (List ι)) : Prop :=
  file.isManifest = true ∧ ∃ text, file.text = .ok text ∧ loadDocuments parsers text = result

/-- A file that ends the check without a verdict: a parser had no stack or no memory for it. -/
def Stops (file : StagedFile) : Prop :=
  (∃ reason, Reads parsers file (.error (.recursionError reason))) ∨
    Reads parsers file (.error .memoryError)

/-- A file that breaks the check off: a parser raises what nobody expects of it, or lists nest
too deeply in a document of the file. -/
def Breaks (file : StagedFile) : Prop :=
  (∃ e, Reads parsers file (.error (.raised e))) ∨
    ∃ docs, Reads parsers file (.ok docs) ∧ ∃ doc ∈ docs, TooDeep objects room doc

/-- A file that is not read, or has only documents that can be applied. -/
def Clean (file : StagedFile) : Prop :=
  file.isManifest = true → ∃ docs, Reads parsers file (.ok docs) ∧ ∀ doc ∈ docs, Fine objects doc

/-- The ways a file can go. -/
inductive FileOutcome (file : StagedFile) : Prop
  | stops (message : String) (stops : Stops parsers file)
      (ends : fileProblems objects parsers room file = .error (.unavailable message))
  | breaks (e : Exn) (breaks : Breaks objects parsers room file)
      (raises : fileProblems objects parsers room file = .error (.raised e))
  | told (problems : List String) (notStops : ¬ Stops parsers file)
      (notBreaks : ¬ Breaks objects parsers room file)
      (told : fileProblems objects parsers room file = .ok problems)
      (clean_iff : problems = [] ↔ Clean objects parsers file)

theorem Reads.unique {file : StagedFile} {result result' : Except LoadFailure (List ι)}
    (h : Reads parsers file result) (h' : Reads parsers file result') : result = result' := by
  obtain ⟨_, text, htext, hload⟩ := h
  obtain ⟨_, text', htext', hload'⟩ := h'
  obtain rfl := Except.ok.inj (htext.symm.trans htext')
  exact hload.symm.trans hload'

section

variable {objects parsers room} {file : StagedFile} {result : Except LoadFailure (List ι)}

theorem Reads.stops_iff (h : Reads parsers file result) :
    Stops parsers file ↔
      (∃ reason, result = .error (.recursionError reason)) ∨ result = .error .memoryError := by
  constructor
  · intro hstops
    rcases hstops with ⟨reason, hreads⟩ | hreads
    · exact .inl ⟨reason, h.unique parsers hreads⟩
    · exact .inr (h.unique parsers hreads)
  · intro hresult
    rcases hresult with ⟨reason, rfl⟩ | rfl
    · exact .inl ⟨reason, h⟩
    · exact .inr h

theorem Reads.breaks_iff (h : Reads parsers file result) :
    Breaks objects parsers room file ↔ (∃ e, result = .error (.raised e)) ∨
      ∃ docs, result = .ok docs ∧ ∃ doc ∈ docs, TooDeep objects room doc := by
  constructor
  · intro hbreaks
    rcases hbreaks with ⟨e, hreads⟩ | ⟨docs, hreads, hdeep⟩
    · exact .inl ⟨e, h.unique parsers hreads⟩
    · exact .inr ⟨docs, h.unique parsers hreads, hdeep⟩
  · intro hresult
    rcases hresult with ⟨e, rfl⟩ | ⟨docs, rfl, hdeep⟩
    · exact .inl ⟨e, h⟩
    · exact .inr ⟨docs, h, hdeep⟩

theorem Reads.clean_iff (h : Reads parsers file result) :
    Clean objects parsers file ↔ ∃ docs, result = .ok docs ∧ ∀ doc ∈ docs, Fine objects doc := by
  constructor
  · intro hclean
    obtain ⟨docs, hreads, hfine⟩ := hclean h.1
    exact ⟨docs, h.unique parsers hreads, hfine⟩
  · intro ⟨docs, hresult, hfine⟩ _
    exact ⟨docs, hresult ▸ h, hfine⟩

/-- A file that none of the parsers is asked about. -/
theorem not_stops_of_not_reads (h : ∀ result, ¬ Reads parsers file result) :
    ¬ Stops parsers file ∧ ¬ Breaks objects parsers room file := by
  constructor
  · intro hstops
    rcases hstops with ⟨reason, hreads⟩ | hreads
    · exact h _ hreads
    · exact h _ hreads
  · intro hbreaks
    rcases hbreaks with ⟨e, hreads⟩ | ⟨docs, hreads, _⟩
    · exact h _ hreads
    · exact h _ hreads

end

/-- A file the loaders are not asked about. -/
theorem fileOutcome_of_not_reads {file : StagedFile} (problems : List String)
    (h : ∀ result, ¬ Reads parsers file result)
    (hcall : fileProblems objects parsers room file = .ok problems)
    (hmanifest : problems = [] ↔ file.isManifest = false) :
    FileOutcome objects parsers room file := by
  obtain ⟨hstops, hbreaks⟩ := not_stops_of_not_reads h
  refine .told problems hstops hbreaks hcall ?_
  rw [hmanifest, Clean]
  constructor
  · intro hnot htrue
    rw [hnot] at htrue
    cases htrue
  · intro hclean
    by_contra htrue
    obtain ⟨docs, hreads, _⟩ := hclean (Bool.not_eq_false _ ▸ htrue)
    exact h _ hreads

/-- A file whose loading told of a problem, or of one only by an exception. -/
theorem fileOutcome_of_reads {file : StagedFile} {result : Except LoadFailure (List ι)}
    (h : Reads parsers file result)
    (hcall : fileProblems objects parsers room file =
      loadedProblems objects room file.name result) : FileOutcome objects parsers room file := by
  cases result with
  | error failure =>
    cases failure with
    | recursionError reason => exact .stops _ (h.stops_iff.mpr (.inl ⟨reason, rfl⟩)) hcall
    | memoryError => exact .stops _ (h.stops_iff.mpr (.inr rfl)) hcall
    | raised e => exact .breaks e (h.breaks_iff.mpr (.inl ⟨e, rfl⟩)) hcall
    | _ =>
      refine .told _ (fun hstops => ?_) (fun hbreaks => ?_) hcall ?_
      · rcases h.stops_iff.mp hstops with ⟨_, heq⟩ | heq
        · cases heq
        · cases heq
      · rcases h.breaks_iff.mp hbreaks with ⟨_, heq⟩ | ⟨_, heq, _⟩
        · cases heq
        · cases heq
      · rw [h.clean_iff]
        simp
  | ok docs =>
    have hnotStops : ¬ Stops parsers file := by
      intro hstops
      rcases h.stops_iff.mp hstops with ⟨_, heq⟩ | heq
      · cases heq
      · cases heq
    by_cases hdeep : ∃ doc ∈ docs, TooDeep objects room doc
    · obtain ⟨e, he⟩ := (docsProblems_raises objects room file.name docs).mpr hdeep
      rw [loadedProblems, he] at hcall
      exact .breaks e (h.breaks_iff.mpr (.inr ⟨docs, rfl, hdeep⟩)) hcall
    · have hclean := docsProblems_eq_nil objects room file.name hdeep
      cases hdocs : docsProblems objects room file.name docs with
      | error e =>
        exact absurd ((docsProblems_raises objects room file.name docs).mp ⟨e, hdocs⟩) hdeep
      | ok problems =>
        rw [loadedProblems, hdocs] at hcall
        rw [hdocs] at hclean
        refine .told problems hnotStops (fun hbreaks => ?_) hcall ?_
        · rcases h.breaks_iff.mp hbreaks with ⟨_, heq⟩ | ⟨docs', heq, hdeep'⟩
          · cases heq
          · obtain rfl := Except.ok.inj heq
            exact hdeep hdeep'
        · rw [h.clean_iff]
          simp only [Except.ok.injEq, exists_eq_left'] at hclean ⊢
          exact hclean

theorem fileOutcome (file : StagedFile) : FileOutcome objects parsers room file := by
  cases hmanifest : file.isManifest with
  | false =>
    apply fileOutcome_of_not_reads objects parsers room []
    · intro result hreads
      rw [hreads.1] at hmanifest
      cases hmanifest
    · rw [fileProblems, hmanifest]
      rfl
    · exact ⟨fun _ => hmanifest, fun _ => rfl⟩
  | true =>
    cases htext : file.text with
    | error reason =>
      apply fileOutcome_of_not_reads objects parsers room [_]
      · intro result ⟨_, text, hok, _⟩
        rw [htext] at hok
        cases hok
      · rw [fileProblems, hmanifest, htext]
        rfl
      · simp [hmanifest]
    | ok text =>
      have hreads : Reads parsers file (loadDocuments parsers text) := ⟨hmanifest, text, htext, rfl⟩
      apply fileOutcome_of_reads objects parsers room hreads
      · rw [fileProblems, hmanifest, htext]
        rfl

/-! ## The directory -/

/-- The check answers: with the problems it found, or that it could not decide. -/
def Answers (result : Except CheckExn (List String)) : Prop :=
  (∃ problems, result = .ok problems) ∨ ∃ message, result = .error (.unavailable message)

section

variable {objects parsers room} {file : StagedFile} {files : List StagedFile}
  {problems : List String}

/-- After a file that was told of, the rest of the directory decides. -/
theorem filesProblems_told (files : List StagedFile)
    (h : fileProblems objects parsers room file = .ok problems) :
    (Answers (filesProblems objects parsers room (file :: files)) ↔
      Answers (filesProblems objects parsers room files)) ∧
    (filesProblems objects parsers room (file :: files) = .ok [] ↔
      problems = [] ∧ filesProblems objects parsers room files = .ok []) := by
  have hrun : filesProblems objects parsers room (file :: files) =
      (filesProblems objects parsers room files).map (problems ++ ·) := by
    rw [filesProblems, h]
    cases filesProblems objects parsers room files <;> rfl
  rw [hrun]
  cases filesProblems objects parsers room files with
  | error e => simp [Answers, Except.map]
  | ok rest => simp [Answers, Except.map]

theorem filesProblems_error {e : CheckExn}
    (h : fileProblems objects parsers room file = .error e) :
    filesProblems objects parsers room (file :: files) = .error e := by
  rw [filesProblems, h]
  rfl

theorem not_answers_raised (e : Exn) : ¬ Answers (.error (.raised e)) := by
  intro h
  rcases h with ⟨problems, h⟩ | ⟨message, h⟩
  · cases h
  · cases h

theorem Stops.not_clean (h : Stops parsers file) : ¬ Clean objects parsers file := by
  intro hclean
  rcases h with ⟨reason, hreads⟩ | hreads
  · obtain ⟨docs, hresult, _⟩ := hreads.clean_iff.mp hclean
    cases hresult
  · obtain ⟨docs, hresult, _⟩ := hreads.clean_iff.mp hclean
    cases hresult

theorem Stops.not_breaks (h : Stops parsers file) : ¬ Breaks objects parsers room file := by
  intro hbreaks
  rcases h with ⟨reason, hreads⟩ | hreads
  · rcases hreads.breaks_iff.mp hbreaks with ⟨_, hresult⟩ | ⟨_, hresult, _⟩
    · cases hresult
    · cases hresult
  · rcases hreads.breaks_iff.mp hbreaks with ⟨_, hresult⟩ | ⟨_, hresult, _⟩
    · cases hresult
    · cases hresult

/-- Whether the check answers is decided by the first file, in the order of names, that is not
told of. -/
theorem filesProblems_answers (h : files.Pairwise fun f g => f.name < g.name) :
    Answers (filesProblems objects parsers room files) ↔
      ∀ f ∈ files, Breaks objects parsers room f →
        ∃ g ∈ files, Stops parsers g ∧ g.name < f.name := by
  induction files with
  | nil =>
    refine ⟨fun _ f hf => absurd hf List.not_mem_nil, fun _ => .inl ⟨[], rfl⟩⟩
  | cons file files ih =>
    obtain ⟨hbelow, hsorted⟩ := List.pairwise_cons.mp h
    cases fileOutcome objects parsers room file with
    | stops message stops ends =>
      rw [filesProblems_error ends]
      refine ⟨fun _ f hf hbreaks => ?_, fun _ => .inr ⟨message, rfl⟩⟩
      rcases List.mem_cons.mp hf with rfl | hf
      · exact absurd hbreaks stops.not_breaks
      · exact ⟨file, List.mem_cons_self, stops, hbelow f hf⟩
    | breaks e breaks raises =>
      rw [filesProblems_error raises]
      refine ⟨fun hanswers => absurd hanswers (not_answers_raised e), fun hall => ?_⟩
      obtain ⟨g, hg, _, hlt⟩ := hall file List.mem_cons_self breaks
      rcases List.mem_cons.mp hg with rfl | hg
      · exact absurd hlt (lt_irrefl _)
      · exact absurd hlt (hbelow g hg).not_gt
    | told problems notStops notBreaks told clean_iff =>
      rw [(filesProblems_told files told).1, ih hsorted]
      constructor
      · intro hall f hf hbreaks
        rcases List.mem_cons.mp hf with rfl | hf
        · exact absurd hbreaks notBreaks
        · obtain ⟨g, hg, hstops⟩ := hall f hf hbreaks
          exact ⟨g, List.mem_cons_of_mem _ hg, hstops⟩
      · intro hall f hf hbreaks
        obtain ⟨g, hg, hstops, hlt⟩ := hall f (List.mem_cons_of_mem _ hf) hbreaks
        rcases List.mem_cons.mp hg with rfl | hg
        · exact absurd hstops notStops
        · exact ⟨g, hg, hstops, hlt⟩

/-- A check that answers finds nothing exactly in a directory of clean files. -/
theorem filesProblems_eq_nil (h : Answers (filesProblems objects parsers room files)) :
    filesProblems objects parsers room files = .ok [] ↔ ∀ f ∈ files, Clean objects parsers f := by
  induction files with
  | nil => exact ⟨fun _ f hf => absurd hf List.not_mem_nil, fun _ => rfl⟩
  | cons file files ih =>
    cases fileOutcome objects parsers room file with
    | stops message stops ends =>
      rw [filesProblems_error ends]
      constructor
      · intro hnil
        cases hnil
      · intro hall
        exact absurd (hall file List.mem_cons_self) stops.not_clean
    | breaks e breaks raises =>
      rw [filesProblems_error raises] at h
      exact absurd h (not_answers_raised e)
    | told problems notStops notBreaks told clean_iff =>
      obtain ⟨hanswers, hnil⟩ := filesProblems_told files told
      rw [hnil, clean_iff, ih (hanswers.mp h), List.forall_mem_cons]

end

/-- The entries are checked in the order of their names. -/
theorem sorted_files (dir : StagingDir) :
    (dir.files.insertionSort fun f g => f.name ≤ g.name).Pairwise fun f g => f.name < g.name := by
  have hle : (dir.files.insertionSort fun f g => f.name ≤ g.name).Pairwise
      fun f g => f.name ≤ g.name := by
    have htotal : Std.Total fun f g : StagedFile => f.name ≤ g.name := ⟨fun f g => le_total _ _⟩
    have htrans : IsTrans StagedFile fun f g => f.name ≤ g.name := ⟨fun _ _ _ => le_trans⟩
    exact List.pairwise_insertionSort _ _
  have hne : (dir.files.insertionSort fun f g => f.name ≤ g.name).Pairwise
      fun f g => f.name ≠ g.name := by
    have hperm :=
      (List.perm_insertionSort (fun f g => f.name ≤ g.name) dir.files).map StagedFile.name
    exact List.pairwise_map.mp (hperm.nodup_iff.mpr dir.names_nodup)
  exact hle.imp₂ (fun _ _ => lt_of_le_of_ne) hne

/-- No file breaks the check off before one ends it. -/
def ChecksThrough (dir : StagingDir) : Prop :=
  ∀ file ∈ dir.files, Breaks objects parsers room file →
    ∃ earlier ∈ dir.files, Stops parsers earlier ∧ earlier.name < file.name

theorem unreadableDocuments_answers (dir : StagingDir) :
    Answers (unreadableDocuments objects parsers room dir) ↔
      ChecksThrough objects parsers room dir := by
  rw [unreadableDocuments, filesProblems_answers (sorted_files dir), ChecksThrough]
  simp only [List.mem_insertionSort]

/-- What the gate expects of its check: it always answers, and it finds nothing exactly where
every document of every manifest is empty or can be applied. -/
structure DocumentCheck (dir : StagingDir) : Prop where
  answers : Answers (unreadableDocuments objects parsers room dir)
  verdict : unreadableDocuments objects parsers room dir = .ok [] ↔
    ∀ file ∈ dir.files, Clean objects parsers file

/-- The check does what the gate expects unless a file breaks it off: one that makes a parser
raise what the handlers do not name, or a `List` that nests beyond the stack, as every one does
that is below itself. -/
theorem documentCheck_iff (dir : StagingDir) :
    DocumentCheck objects parsers room dir ↔ ChecksThrough objects parsers room dir := by
  rw [← unreadableDocuments_answers]
  constructor
  · exact DocumentCheck.answers
  · intro hanswers
    refine ⟨hanswers, ?_⟩
    rw [unreadableDocuments, filesProblems_eq_nil hanswers]
    simp only [List.mem_insertionSort]

/-! A `List` that is its own member, and a date that no calendar has. -/

def selfListedText : String := "&l {apiVersion: v1, kind: List, items: [*l]}"

def impossibleDateText : String := "kind: 2024-13-45"

def sampleObjects : Nat → Loaded Nat
  | 0 => .dict [(.str "apiVersion", 1), (.str "kind", 2), (.str "items", 3)]
  | 1 => .str "v1"
  | 2 => .str "List"
  | 3 => .list [0]
  | _ => .none

/-- Parsers that know the two texts. -/
def sampleParsers : Parsers Nat where
  rawDecode _ := .error (.jsonDecodeError "Expecting value")
  safeLoadAll text :=
    if text = selfListedText.toList then .ok [0]
    else if text = impossibleDateText.toList then .error (.raised .valueError)
    else .error (.yamlError "")
  consumes := by
    intro text value rest h
    cases h

def oneFile (text : String) : StagingDir :=
  ⟨[⟨"manifest.yaml", true, .ok text⟩], List.nodup_singleton _⟩

/-- The interpreter's default limit is a thousand calls. -/
theorem self_listed_and_impossible_date :
    ¬ DocumentCheck sampleObjects sampleParsers 1000 (oneFile selfListedText) ∧
      ¬ DocumentCheck sampleObjects sampleParsers 1000 (oneFile impossibleDateText) := by
  have hbreaks : ∀ text, Breaks sampleObjects sampleParsers 1000
      ⟨"manifest.yaml", true, .ok text⟩ →
        ¬ DocumentCheck sampleObjects sampleParsers 1000 (oneFile text) := by
    intro text hbreaks hcheck
    have hanswers := (unreadableDocuments_answers _ _ _ _).mp hcheck.answers
    obtain ⟨earlier, hearlier, _, hlt⟩ := hanswers _ List.mem_cons_self hbreaks
    rw [List.mem_singleton.mp hearlier] at hlt
    exact absurd hlt (lt_irrefl _)
  constructor
  · apply hbreaks
    refine .inr ⟨[0], ⟨by decide, selfListedText, rfl, by decide +kernel⟩, 0, List.mem_cons_self,
      rfl, ?_⟩
    apply nestedTo_of_cycle
    exact .single ⟨0, by decide⟩
  · apply hbreaks
    exact .inl ⟨.valueError, by decide, impossibleDateText, rfl, by decide +kernel⟩

end MissionCompiler.Cli
