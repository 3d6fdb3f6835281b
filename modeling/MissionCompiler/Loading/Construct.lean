import MissionCompiler.Lib.Python
import Mathlib.Data.Finset.Insert
import Mathlib.Logic.Function.Basic

/-!
# The strict loader

`_StrictLoader` over the constructor of PyYAML it extends. A composed document is a graph of nodes,
aliases being further ways to a node; a loader rewrites the pairs of its mappings in place
(`flatten_mapping`), and fills the lists and dicts it has begun in the order it began them. Keys are
compared as a set compares them.
-/

namespace MissionCompiler.Loading

open Lib

/-! ## Documents -/

/-- A composed node of a default tag. The plain scalar `<<` has a tag of its own. -/
inductive Node (ι : Type) where
  | scalar
  | merge
  | sequence (items : List ι)
  | mapping (pairs : List (ι × ι))

/-- A composed document, and what the constructors of its scalars give. -/
structure Document (ι κ ε : Type) where
  root : ι
  node : ι → Node ι
  construct : ι → Except ε κ

variable {ι κ ε : Type}

namespace Document

variable (doc : Document ι κ ε)

/-- `node.value` of a mapping, as it was composed. -/
def pairs (node : ι) : List (ι × ι) :=
  match doc.node node with
  | .mapping pairs => pairs
  | _ => []

def isMerge (node : ι) : Bool :=
  match doc.node node with
  | .merge => true
  | _ => false

def isMapping (node : ι) : Bool :=
  match doc.node node with
  | .mapping _ => true
  | _ => false

/-- What the value of a `<<` is made of, whether it is written as one or a list. -/
def candidates (value : ι) : List ι :=
  match doc.node value with
  | .sequence items => items
  | _ => [value]

end Document

/-! ## Loaders -/

/-- What a load raises. The last is no exception: a load that was given too little fuel. -/
inductive Failure (ι κ ε : Type) where
  | scalar (e : ε)
  | undefinedTag (node : ι)
  | unhashableKey (mapping keyNode : ι)
  | notMergeable (source : ι)
  | duplicateKey (mapping keyNode : ι) (key : κ)
  | duplicateMergeKey (mapping keyNode : ι)
  | mergesItself (mapping : ι)
  | unfinished

/-- What a step of a loader comes to. -/
abbrev Attempt (ι κ ε : Type) := Except (Failure ι κ ε)

/-- `node.value` of the mappings of a document. -/
abbrev Values (ι : Type) := ι → List (ι × ι)

/-- A constructed object: a scalar's, or the list or dict of a node. -/
inductive Datum (ι κ : Type) where
  | scalar (value : κ)
  | object (node : ι)
deriving DecidableEq

/-- The entries of a dict, in its order. -/
abbrev Dict (ι κ : Type) := List (κ × Datum ι κ)

/-- What a list or a dict holds. -/
inductive Content (ι κ : Type) where
  | list (items : List (Datum ι κ))
  | dict (entries : Dict ι κ)

/-- A loader at work: `node.value` of each mapping, the lists and dicts that have been begun, those
that are yet to be filled, what the others hold, and `_scanned_mappings`. -/
structure Loader (ι κ : Type) where
  value : Values ι
  constructed : Finset ι
  generators : List ι
  content : ι → Option (Content ι κ)
  scanned : Finset ι

section

variable [DecidableEq ι] (doc : Document ι κ ε)

namespace Loader

/-- The list or dict of a node is begun once. -/
def start (node : ι) (s : Loader ι κ) : Loader ι κ :=
  if node ∈ s.constructed then s
  else { s with
    constructed := insert node s.constructed
    generators := s.generators ++ [node] }

def fill (node : ι) (content : Content ι κ) (s : Loader ι κ) : Loader ι κ :=
  { s with content := Function.update s.content node (some content) }

end Loader

/-! ## Constructing -/

/-- `construct_object`, never deep. A scalar is constructed the same each time, so the constructed
scalars are not kept. -/
def constructObject (node : ι) (s : Loader ι κ) : Attempt ι κ ε (Datum ι κ × Loader ι κ) :=
  match doc.node node with
  | .scalar => match doc.construct node with
    | .ok value => .ok (.scalar value, s)
    | .error e => .error (.scalar e)
  | .merge => .error (.undefinedTag node)
  | _ => .ok (.object node, s.start node)

/-- `construct_sequence`. -/
def constructSequence : List ι → Loader ι κ → Attempt ι κ ε (List (Datum ι κ) × Loader ι κ)
  | [], s => .ok ([], s)
  | node :: rest, s => do
    let (datum, s) ← constructObject doc node s
    let (data, s) ← constructSequence rest s
    return (datum :: data, s)

/-- `mapping[key] = value`, which keeps the place and the key of an entry that is there. -/
def setItem [BEq κ] (key : κ) (value : Datum ι κ) : Dict ι κ → Dict ι κ
  | [] => [(key, value)]
  | entry :: rest =>
    if entry.1 == key then (entry.1, value) :: rest else entry :: setItem key value rest

/-- The body of `BaseConstructor.construct_mapping`. -/
def constructPairs [BEq κ] (mapping : ι) :
    List (ι × ι) → Dict ι κ → Loader ι κ → Attempt ι κ ε (Dict ι κ × Loader ι κ)
  | [], entries, s => .ok (entries, s)
  | pair :: rest, entries, s => do
    let (key, s) ← constructObject doc pair.1 s
    match key with
    | .object _ => .error (.unhashableKey mapping pair.1)
    | .scalar key => do
      let (value, s) ← constructObject doc pair.2 s
      constructPairs mapping rest (setItem key value entries) s

/-! ## Flattening -/

/-- The value of the first merge key of a mapping, and its other pairs. -/
def takeMerge : List (ι × ι) → Option (ι × List (ι × ι))
  | [] => none
  | pair :: rest =>
    if doc.isMerge pair.1 then some (pair.2, rest)
    else (takeMerge rest).map fun taken => (taken.1, pair :: taken.2)

/-- The loop over the mappings that a merge key pulls from: each is flattened, and their pairs are
put together, those of the last one first. -/
def spliceSources (flatten : ι → Values ι → Attempt ι κ ε (Values ι)) :
    List ι → Values ι → Attempt ι κ ε (List (ι × ι) × Values ι)
  | [], value => .ok ([], value)
  | source :: rest, value =>
    if doc.isMapping source then do
      let flat ← flatten source value
      let (later, value) ← spliceSources flatten rest flat
      return (later ++ flat source, value)
    else .error (.notMergeable source)

/-- `flatten_mapping`, with what it has merged so far. What is before `index` has no merge key, so
the next one found from there is the first of the mapping. -/
def flattenMapping : Nat → ι → List (ι × ι) → Values ι →
    Attempt ι κ ε (Values ι)
  | 0, _, _, _ => .error .unfinished
  | fuel + 1, node, merge, value =>
    match takeMerge doc (value node) with
    | none => .ok (Function.update value node (merge ++ value node))
    | some (source, rest) => do
      let (spliced, value) ← spliceSources doc (fun source => flattenMapping fuel source [])
        (doc.candidates source) (Function.update value node rest)
      flattenMapping fuel node (merge ++ spliced) value

/-- `SafeConstructor.construct_mapping`. -/
def safeConstructMapping [BEq κ] (fuel : Nat) (node : ι) (s : Loader ι κ) :
    Attempt ι κ ε (Dict ι κ × Loader ι κ) := do
  let value ← flattenMapping doc fuel node [] s.value
  constructPairs doc node (value node) [] { s with value := value }

/-! ## The scan -/

/-- `_merge_sources`. -/
def mergeSources (value : ι) : List ι := (doc.candidates value).filter doc.isMapping

/-- The loop over the sources of one merge key. -/
def scanSources (refuse : ι → Loader ι κ → Attempt ι κ ε (Loader ι κ)) :
    List ι → Loader ι κ → Attempt ι κ ε (Loader ι κ)
  | [], s => .ok s
  | source :: rest, s => do
    let s ← refuse source s
    scanSources refuse rest s

/-- The loop of `_refuse_repeated_keys` over the pairs of a mapping. A key that no set can hold ends
it. -/
def scanPairs [BEq κ] (refuse : ι → Loader ι κ → Attempt ι κ ε (Loader ι κ))
    (mapping : ι) : List (ι × ι) → List κ → Bool → Loader ι κ →
    Attempt ι κ ε (Loader ι κ)
  | [], _, _, s => .ok s
  | pair :: rest, seen, merged, s =>
    if doc.isMerge pair.1 then
      if merged then .error (.duplicateMergeKey mapping pair.1)
      else do
        let s ← scanSources refuse (mergeSources doc pair.2) s
        scanPairs refuse mapping rest seen true s
    else do
      let (key, s) ← constructObject doc pair.1 s
      match key with
      | .object _ => .ok s
      | .scalar key =>
        if seen.any (· == key) then .error (.duplicateKey mapping pair.1 key)
        else scanPairs refuse mapping rest (key :: seen) merged s

/-- `_refuse_repeated_keys`. -/
def refuseRepeatedKeys [BEq κ] : Nat → Finset ι → ι → Loader ι κ →
    Attempt ι κ ε (Loader ι κ)
  | 0, _, _, _ => .error .unfinished
  | fuel + 1, visiting, node, s =>
    if node ∈ visiting then .error (.mergesItself node)
    else if node ∈ s.scanned then .ok s
    else scanPairs doc (refuseRepeatedKeys fuel (insert node visiting)) node (s.value node) [] false
      { s with scanned := insert node s.scanned }

/-- `_StrictLoader.construct_mapping`. -/
def strictConstructMapping [BEq κ] (fuel : Nat) (node : ι) (s : Loader ι κ) :
    Attempt ι κ ε (Dict ι κ × Loader ι κ) := do
  let s ← refuseRepeatedKeys doc fuel ∅ node s
  safeConstructMapping doc fuel node s

/-! ## Loading -/

/-- The rest of `construct_yaml_seq` and `construct_yaml_map`, once they are resumed. -/
def resume (constructMapping : ι → Loader ι κ → Attempt ι κ ε (Dict ι κ × Loader ι κ))
    (node : ι) (s : Loader ι κ) : Attempt ι κ ε (Loader ι κ) :=
  match doc.node node with
  | .sequence items => do
    let (data, s) ← constructSequence doc items s
    return s.fill node (.list data)
  | .mapping _ => do
    let (entries, s) ← constructMapping node s
    return s.fill node (.dict entries)
  | _ => .ok s

/-- The loop of `construct_document`: what the generators of one round begin, the next fills. -/
def resumeAll (constructMapping : ι → Loader ι κ → Attempt ι κ ε (Dict ι κ × Loader ι κ)) :
    Nat → Loader ι κ → Attempt ι κ ε (Loader ι κ)
  | 0, _ => .error .unfinished
  | fuel + 1, s => match s.generators with
    | [] => .ok s
    | node :: rest => do
      let s ← resume doc constructMapping node { s with generators := rest }
      resumeAll constructMapping fuel s

/-- A value that was loaded: the object of the root, and what each list and dict holds. -/
structure Loaded (ι κ : Type) where
  root : Datum ι κ
  content : ι → Option (Content ι κ)

/-- `construct_document`. -/
def constructDocument
    (constructMapping : ι → Loader ι κ → Attempt ι κ ε (Dict ι κ × Loader ι κ)) (fuel : Nat) :
    Attempt ι κ ε (Loaded ι κ) := do
  let (root, s) ← constructObject doc doc.root ⟨doc.pairs, ∅, [], fun _ => none, ∅⟩
  let s ← resumeAll doc constructMapping fuel s
  return ⟨root, s.content⟩

variable [BEq κ] (fuel : Nat)

/-- `yaml.load(text, Loader=yaml.SafeLoader)`, of a composed document. -/
def safeLoad : Attempt ι κ ε (Loaded ι κ) :=
  constructDocument doc (safeConstructMapping doc fuel) fuel

/-- `yaml.load(text, Loader=_StrictLoader)`. -/
def strictLoad : Attempt ι κ ε (Loaded ι κ) :=
  constructDocument doc (strictConstructMapping doc fuel) fuel

end

end MissionCompiler.Loading
