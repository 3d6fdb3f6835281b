import Mathlib.Data.Finset.Insert
import MissionCompiler.Lib.Python
import MissionCompiler.Lib.Unfolding

/-!
# The metadata of a step

`_serialisable_metadata`, on the objects a YAML loader builds: an alias is the same object twice,
and an object may contain itself. The walk keeps a stack and the set of the containers it is in;
what it accepts is said of the tree the value unfolds to (`Serialisable`).
-/

namespace MissionCompiler.Schema

open Lib

/-! ## Objects -/

/-- A key of a dict: a string, bytes with the text they are the encoding of, if they are one, or an
object of its own that is neither. Bytes are told apart by what `repr` writes of them. -/
inductive DictKey where
  | str (s : String)
  | bytes (decoded : Option String) (repr : String)
  | other (identity : Nat) (repr : String)
deriving DecidableEq

/-- What an object is, as far as the walk looks at it. -/
inductive Obj (ι : Type) where
  | none
  | bool
  | int
  | float (finite : Bool) (text : String)
  | str
  | date
  | datetime
  | list (items : List ι)
  | dict (entries : List (DictKey × ι))
  | binary
  | set
  | other (typeName : String)

/-- What stands between the brackets of a field path: `{key!r}`. -/
inductive Subscript where
  | key (k : DictKey)
  | index (i : Nat)
deriving DecidableEq

/-- The objects of a value. A dict has each of its keys once. -/
structure Heap (ι : Type) where
  obj : ι → Obj ι
  keys_nodup : ∀ n entries, obj n = .dict entries → (entries.map Prod.fst).Nodup

namespace Obj

variable {ι : Type}

/-- `isinstance(node, dict | list)`. -/
def isContainer : Obj ι → Bool
  | .list _ | .dict _ => true
  | _ => false

/-- `node.items() if isinstance(node, dict) else enumerate(node)`. -/
def pairs : Obj ι → List (Subscript × ι)
  | .dict entries => entries.map fun e => (.key e.1, e.2)
  | .list items => items.zipIdx.map fun e => (.index e.2, e.1)
  | _ => []

end Obj

/-! ## Refusals -/

inductive MetadataRefusal where
  | tooMany
  | tooDeep (place : List Subscript)
  | binary (place : List Subscript)
  | set (place : List Subscript)
  | notFinite (place : List Subscript) (text : String)
  | notJson (place : List Subscript) (typeName : String)
  | containsItself (place : List Subscript)
  | badKey (place : List Subscript) (repr : String)

def maxMetadataDepth : Nat := 32

def maxMetadataNodes : Nat := 10000

/-- `where`, from the subscripts on the way. The `repr` of a string is Python's. -/
def placeText (reprStr : String → String) : List Subscript → String
  | [] => ""
  | .key (.str s) :: rest => "[" ++ reprStr s ++ "]" ++ placeText reprStr rest
  | .key (.bytes _ repr) :: rest => "[" ++ repr ++ "]" ++ placeText reprStr rest
  | .key (.other _ repr) :: rest => "[" ++ repr ++ "]" ++ placeText reprStr rest
  | .index i :: rest => "[" ++ toString i ++ "]" ++ placeText reprStr rest

/-- The message of the `ValueError`. -/
def MetadataRefusal.text (reprStr : String → String) : MetadataRefusal → String
  | .tooMany => "metadata holds more than " ++ toString maxMetadataNodes ++ " values"
  | .tooDeep place => "metadata" ++ placeText reprStr place ++ " is nested deeper than " ++
      toString maxMetadataDepth
  | .binary place => "metadata" ++ placeText reprStr place ++ " is binary, which has no JSON form"
  | .set place => "metadata" ++ placeText reprStr place ++
      " is a set, which has no stable JSON order"
  | .notFinite place text => "metadata" ++ placeText reprStr place ++ " is " ++ text ++
      ", which JSON cannot hold"
  | .notJson place typeName => "metadata" ++ placeText reprStr place ++ " is " ++ typeName ++
      ", which is not a JSON value"
  | .containsItself place => "metadata" ++ placeText reprStr place ++ " contains itself"
  | .badKey place repr => "metadata" ++ placeText reprStr place ++ " is keyed by " ++ repr ++
      ", and JSON objects key on strings"

/-! ## The walk -/

/-- An entry of the stack: an object to visit, or a container to leave. -/
structure StackEntry (ι : Type) where
  node : ι
  place : List Subscript
  depth : Nat
  leaving : Bool

structure Walk (ι : Type) where
  stack : List (StackEntry ι)
  onPath : Finset ι
  nodes : Nat

section

variable {ι : Type}

/-- The two bounds. -/
def checkBounds (nodes depth : Nat) (place : List Subscript) : Except MetadataRefusal Unit :=
  if maxMetadataNodes < nodes then .error .tooMany
  else if maxMetadataDepth < depth then .error (.tooDeep place)
  else .ok ()

/-- The checks of the type of an object. -/
def checkObj (place : List Subscript) : Obj ι → Except MetadataRefusal Unit
  | .binary => .error (.binary place)
  | .set => .error (.set place)
  | .float false text => .error (.notFinite place text)
  | .other typeName => .error (.notJson place typeName)
  | _ => .ok ()

/-- The loop over the keys of a dict. -/
def checkKeys (place : List Subscript) : List (DictKey × ι) → Except MetadataRefusal Unit
  | [] => .ok ()
  | (.str _, _) :: rest => checkKeys place rest
  | (.bytes _ repr, _) :: _ => .error (.badKey place repr)
  | (.other _ repr, _) :: _ => .error (.badKey place repr)

/-- The keys of a container, if it has any. -/
def checkContainer (place : List Subscript) : Obj ι → Except MetadataRefusal Unit
  | .dict entries => checkKeys place entries
  | _ => .ok ()

/-- The entries pushed for what a container holds, the last one on top. -/
def pushed (place : List Subscript) (depth : Nat) (pairs : List (Subscript × ι)) :
    List (StackEntry ι) :=
  (pairs.map fun e => ⟨e.2, place ++ [e.1], depth + 1, false⟩).reverse

variable [DecidableEq ι] (heap : Heap ι)

/-- A container is put on the path, and what it holds above the entry that takes it off. -/
def enter (e : StackEntry ι) (rest : List (StackEntry ι)) (onPath : Finset ι) (nodes : Nat) :
    Except MetadataRefusal (Walk ι) :=
  if e.node ∈ onPath then .error (.containsItself e.place)
  else do
    checkContainer e.place (heap.obj e.node)
    return ⟨pushed e.place e.depth (heap.obj e.node).pairs ++ { e with leaving := true } :: rest,
      insert e.node onPath, nodes⟩

/-- What follows the checks of an object. -/
def descend (e : StackEntry ι) (rest : List (StackEntry ι)) (onPath : Finset ι) (nodes : Nat) :
    Except MetadataRefusal (Walk ι) :=
  if (heap.obj e.node).isContainer then enter heap e rest onPath nodes
  else .ok ⟨rest, onPath, nodes⟩

/-- The body of the loop for an entry that is not left. -/
def visit (e : StackEntry ι) (rest : List (StackEntry ι)) (onPath : Finset ι) (nodes : Nat) :
    Except MetadataRefusal (Walk ι) := do
  checkBounds (nodes + 1) e.depth e.place
  checkObj e.place (heap.obj e.node)
  descend heap e rest onPath (nodes + 1)

/-- One round of `while stack`. -/
def next (walk : Walk ι) : Except MetadataRefusal (Option (Walk ι)) :=
  match walk.stack with
  | [] => .ok none
  | e :: rest =>
    if e.leaving then .ok (some ⟨rest, walk.onPath.erase e.node, walk.nodes⟩)
    else (visit heap e rest walk.onPath walk.nodes).map some

/-- The walk before its first round. -/
def Walk.start (root : ι) : Walk ι := ⟨[⟨root, [], 0, false⟩], ∅, 0⟩

end

end MissionCompiler.Schema
