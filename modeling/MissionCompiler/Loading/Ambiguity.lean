import MissionCompiler.Loading.Construct
import Mathlib.Logic.Relation

/-!
# Ambiguous documents

What the strict loader is there to refuse, said of a document as it was composed: a mapping with
the same key twice, with two merge keys, or that is merged into itself, wherever in the document it
is a value or a merge source.
-/

namespace MissionCompiler.Loading

variable {ι κ ε : Type} (doc : Document ι κ ε)

/-! ## Merging -/

/-- A merge key among pairs names a mapping. -/
def Names (pairs : List (ι × ι)) (source : ι) : Prop :=
  ∃ pair ∈ pairs, doc.isMerge pair.1 = true ∧ source ∈ mergeSources doc pair.2

/-- A mapping merges another one in. -/
def Pulls (value : Values ι) (node source : ι) : Prop := Names doc (value node) source

/-- A mapping merges another one in, directly or through others, or is that mapping. -/
abbrev Reaches (value : Values ι) : ι → ι → Prop := Relation.ReflTransGen (Pulls doc value)

/-! ## Keys -/

namespace Document

/-- The key a node stands for. A list and a dict are none, nor is a scalar that has no value. -/
def key (node : ι) : Option κ :=
  match doc.node node with
  | .scalar => match doc.construct node with
    | .ok value => some value
    | .error _ => none
  | _ => none

/-- The keys of pairs, in their order, without the merge keys. -/
def keys (pairs : List (ι × ι)) : List κ := pairs.filterMap fun pair => doc.key pair.1

/-- The merge keys among pairs. -/
def merges (pairs : List (ι × ι)) : Nat := pairs.countP fun pair => doc.isMerge pair.1

/-- `node.value` of a sequence. -/
def items (node : ι) : List ι :=
  match doc.node node with
  | .sequence items => items
  | _ => []

end Document

/-! ## Ambiguity -/

section

variable [BEq κ]

/-- No two keys of a mapping are the same, as Python compares them. -/
def DistinctKeys (node : ι) : Prop :=
  (doc.keys (doc.pairs node)).Pairwise fun a b => (a == b) = false

/-- A mapping that writes a key twice, writes `<<` twice, or merges itself. -/
inductive Faulty (node : ι) : Prop
  | repeatedKey (h : ¬ DistinctKeys doc node)
  | repeatedMerge (h : 1 < doc.merges (doc.pairs node))
  | mergesItself (h : Relation.TransGen (Pulls doc doc.pairs) node node)

/-- What a list or dict is made of: its items, its values, and the mappings it merges in. -/
inductive Gives (node part : ι) : Prop
  | item (h : part ∈ doc.items node)
  | value {key : ι} (h : (key, part) ∈ doc.pairs node) (plain : doc.isMerge key = false)
  | source (h : Pulls doc doc.pairs node part)

/-- The nodes of a document, those of its keys included. -/
inductive Occurs : ι → Prop
  | root : Occurs doc.root
  | part {node part : ι} (above : Occurs node) (h : Gives doc node part) : Occurs part
  | key {node key value : ι} (above : Occurs node) (h : (key, value) ∈ doc.pairs node) : Occurs key

/-- A node that is a value or a merge source, anywhere in the document. -/
inductive ValueOrSource : ι → Prop
  | root : ValueOrSource doc.root
  | part {node part : ι} (above : Occurs doc node) (h : Gives doc node part) : ValueOrSource part

/-- Some mapping that is a value or a merge source is faulty. -/
def Ambiguous : Prop := ∃ node, ValueOrSource doc node ∧ Faulty doc node

/-- A mapping that there is nothing against, nor against any mapping it merges in. -/
inductive Passed : ι → Prop
  | intro {node : ι} (distinct : DistinctKeys doc node) (single : doc.merges (doc.pairs node) ≤ 1)
      (sources : ∀ source, Pulls doc doc.pairs node source → Passed source) : Passed node

end

/-! ## Mappings that pass -/

variable {doc}

theorem Passed.reaches [BEq κ] {node source : ι} (h : Passed doc node)
    (hreaches : Reaches doc doc.pairs node source) : Passed doc source := by
  induction hreaches with
  | refl => exact h
  | tail _ hpulls ih =>
    cases ih with
    | intro _ _ sources => exact sources _ hpulls

/-- A mapping that passes is not merged into itself. -/
theorem Passed.acyclic [BEq κ] {node : ι} (h : Passed doc node) :
    ¬ Relation.TransGen (Pulls doc doc.pairs) node node := by
  induction h with
  | @intro node _ _ _ ih =>
    intro hcycle
    obtain ⟨next, hpulls, hback⟩ := Relation.TransGen.head'_iff.mp hcycle
    exact ih next hpulls (Relation.TransGen.tail' hback hpulls)

theorem Passed.not_faulty [BEq κ] {node : ι} (h : Passed doc node) : ¬ Faulty doc node := by
  intro hfaulty
  cases hfaulty with
  | mergesItself hcycle => exact h.acyclic hcycle
  | repeatedKey hrepeated =>
    cases h with
    | intro distinct _ _ => exact hrepeated distinct
  | repeatedMerge hrepeated =>
    cases h with
    | intro _ single _ => exact Nat.not_lt.mpr single hrepeated

end MissionCompiler.Loading
