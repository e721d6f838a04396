import SparseEngine.Lib.Routine
import SparseEngine.Lib.Dict

/-!
# The block-level radix tree

`RadixTreeBackend` of `prefix_cache.py`.  Edges carry a segment of one or more
block ids; a location map sends every block id to the node that holds it and
to its index in that node's segment, and a set keeps the ids of the childless
blocks.

Nodes are mutable objects with parent and child pointers, so the tree is a
heap: `nodes` maps a node's address to its fields, `nextNode` is the next
address to hand out and the root lives at address `0`.  A node that is cut off
from the tree keeps its stale fields in the heap, as a dropped object would.
-/

/-- `RadixTreeNode`: `segment`, `parent`, `children`.  A pointer is an
address. -/
structure RadixTreeNode (Id : Type) where
  segment : List Id := []
  parent : Option ℕ := none
  children : Dict Id ℕ := Dict.empty

/-- `RadixTreeBackend`: the root is the node at address `0`. -/
structure RadixTreeBackend (Id : Type) where
  nodes : ℕ → RadixTreeNode Id
  nextNode : ℕ
  locations : Dict Id (ℕ × ℕ)
  leafBlockIds : Finset Id

/-- `RadixLookupResult`. -/
structure RadixLookupResult (Id : Type) where
  hitBlockCount : ℕ
  lastBlockId : Option Id
  deriving DecidableEq

namespace RadixTreeBackend

open Routine

variable {Id : Type} [DecidableEq Id]

/-- The address of the root node. -/
def root : ℕ := 0

/-- `RadixTreeBackend()`. -/
def init : RadixTreeBackend Id where
  nodes := fun _ => {}
  nextNode := 1
  locations := Dict.empty
  leafBlockIds := ∅

/-- `self._locations[block_id] = (node, index)` for the ids of a segment, the
first of them at `index`. -/
def indexSegmentFrom (node : ℕ) : ℕ → List Id → Dict Id (ℕ × ℕ) → Dict Id (ℕ × ℕ)
  | _, [], locations => locations
  | index, blockId :: rest, locations =>
      indexSegmentFrom node (index + 1) rest (locations.set blockId (node, index))

/-- `_index_segment`. -/
def indexSegment (tree : RadixTreeBackend Id) (node : ℕ) : RadixTreeBackend Id :=
  { tree with locations := indexSegmentFrom node 0 (tree.nodes node).segment tree.locations }

/-- `_unindex_segment`. -/
def unindexSegment (tree : RadixTreeBackend Id) (segment : List Id) : RadixTreeBackend Id :=
  { tree with locations := segment.foldl Dict.erase tree.locations }

/-- `_discard_leaf`. -/
def discardLeaf (tree : RadixTreeBackend Id) (node : ℕ) : RadixTreeBackend Id :=
  match (tree.nodes node).segment.getLast? with
  | none => tree
  | some last => { tree with leafBlockIds := tree.leafBlockIds.erase last }

/-- `_add_leaf`. -/
def addLeaf (tree : RadixTreeBackend Id) (node : ℕ) : RadixTreeBackend Id :=
  match (tree.nodes node).segment.getLast? with
  | none => tree
  | some last =>
      if (tree.nodes node).children.entries = [] then
        { tree with leafBlockIds := insert last tree.leafBlockIds }
      else tree

/-- `RadixTreeNode(...)`: a new object at a fresh address. -/
def allocNode (tree : RadixTreeBackend Id) (node : RadixTreeNode Id) : RadixTreeBackend Id :=
  { tree with
    nodes := Function.update tree.nodes tree.nextNode node
    nextNode := tree.nextNode + 1 }

/-- A field update of the node at an address. -/
def modifyNode (tree : RadixTreeBackend Id) (node : ℕ)
    (update : RadixTreeNode Id → RadixTreeNode Id) : RadixTreeBackend Id :=
  { tree with nodes := Function.update tree.nodes node (update (tree.nodes node)) }

/-- `for child in children: child.parent = parent`. -/
def reparent (tree : RadixTreeBackend Id) (children : List ℕ) (parent : ℕ) :
    RadixTreeBackend Id :=
  { tree with nodes := fun node =>
      if node ∈ children then { tree.nodes node with parent := some parent }
      else tree.nodes node }

/-- `_split_after`: the node keeps the first `index + 1` ids of its segment and
a new node below it takes the rest and the children. -/
def splitAfter (tree : RadixTreeBackend Id) (node index : ℕ) : RadixTreeBackend Id :=
  let oldSegment := (tree.nodes node).segment
  match oldSegment.drop (index + 1) with
  | [] => tree
  | first :: rest =>
      let oldChildren := (tree.nodes node).children
      let suffixNode := tree.nextNode
      let tree := tree.unindexSegment oldSegment
      let tree := tree.allocNode
        { segment := first :: rest, parent := some node, children := oldChildren }
      let tree := tree.reparent oldChildren.values suffixNode
      let tree := tree.modifyNode node fun fields =>
        { fields with
          segment := oldSegment.take (index + 1)
          children := Dict.empty.set first suffixNode }
      (tree.indexSegment node).indexSegment suffixNode

/-- The tail shared by the two branches of `insert_child`: a new one-block child
of `parentNode`. -/
def addChildNode (parentNode : ℕ) (blockId : Id) (tree : RadixTreeBackend Id) :
    RadixTreeBackend Id :=
  let child := tree.nextNode
  let tree := tree.allocNode { segment := [blockId], parent := some parentNode }
  let tree := tree.modifyNode parentNode fun fields =>
    { fields with children := fields.children.set blockId child }
  (tree.indexSegment child).addLeaf child

/-- `insert_child`. -/
def insertChild (parentBlockId : Option Id) (blockId : Id) :
    Routine (RadixTreeBackend Id) Unit := do
  let tree ← read
  if (tree.locations.get? blockId).isSome then
    pure ()
  else
    match parentBlockId with
    | none => do
        raiseIf ((tree.nodes root).children.get? blockId).isSome
          (.runtimeError "Radix tree root child exists without a block location.")
        write (addChildNode root blockId)
    | some parentBlockId =>
        match tree.locations.get? parentBlockId with
        | none =>
            raise (.keyError "Prefix cache parent block id is not present in radix tree.")
        | some (parentNode, index) => do
            write fun tree => tree.splitAfter parentNode index
            write fun tree =>
              if (tree.nodes parentNode).children.entries = [] then tree.discardLeaf parentNode
              else tree
            let tree ← read
            raiseIf ((tree.nodes parentNode).children.get? blockId).isSome
              (.runtimeError "Radix tree child exists without a block location.")
            write (addChildNode parentNode blockId)

/-- The inner loop of `lookup` over one edge.  `none` is the early return. -/
def walkSegment : List Id → List Id → RadixLookupResult Id →
    RadixLookupResult Id × Option (List Id)
  | [], remaining, result => (result, some remaining)
  | _ :: _, [], result => (result, none)
  | segmentBlockId :: segment, blockId :: remaining, result =>
      if blockId = segmentBlockId then
        walkSegment segment remaining ⟨result.hitBlockCount + 1, some segmentBlockId⟩
      else (result, none)

/-- The outer loop of `lookup`.  `remaining` is `block_ids[hit_count:limit]`. -/
def lookupLoop (tree : RadixTreeBackend Id) : ℕ → ℕ → List Id → RadixLookupResult Id →
    RadixLookupResult Id
  | 0, _, _, result => result
  | _ + 1, _, [], result => result
  | fuel + 1, node, blockId :: remaining, result =>
      match (tree.nodes node).children.get? blockId with
      | none => result
      | some child =>
          match walkSegment (tree.nodes child).segment (blockId :: remaining) result with
          | (result, none) => result
          | (result, some remaining) => lookupLoop tree fuel child remaining result

/-- `lookup`. -/
def lookup (tree : RadixTreeBackend Id) (blockIds : List Id) (maxBlocks : ℤ) :
    RadixLookupResult Id :=
  let considered := blockIds.take maxBlocks.toNat
  lookupLoop tree (considered.length + 1) root considered ⟨0, none⟩

/-- The length of the common prefix of an edge and the ids still to insert. -/
def commonLength : List Id → List Id → ℕ
  | x :: xs, y :: ys => if x = y then commonLength xs ys + 1 else 0
  | _, _ => 0

/-- The branch of `insert` that adds a whole remaining path below `node`. -/
def addPath (node : ℕ) (blockId : Id) (rest : List Id) (tree : RadixTreeBackend Id) :
    RadixTreeBackend Id :=
  let tree := if (tree.nodes node).children.entries = [] then tree.discardLeaf node else tree
  let child := tree.nextNode
  let tree := tree.allocNode { segment := blockId :: rest, parent := some node }
  let tree := tree.modifyNode node fun fields =>
    { fields with children := fields.children.set blockId child }
  (tree.indexSegment child).addLeaf child

/-- The branch of `insert` that splits the edge of `child` after `common` ids: a
new node above `child` takes the common prefix, and the ids left over, if any,
become a second child of it. -/
def splitEdge (node child common : ℕ) (leftOver : List Id) (tree : RadixTreeBackend Id) :
    RadixTreeBackend Id :=
  let oldSegment := (tree.nodes child).segment
  match oldSegment.take common, oldSegment.drop common with
  | prefixHead :: prefixRest, suffixHead :: suffixRest =>
      let tree := tree.unindexSegment oldSegment
      let split := tree.nextNode
      let tree := tree.allocNode
        { segment := prefixHead :: prefixRest, parent := some node }
      let tree := tree.modifyNode node fun fields =>
        { fields with children := fields.children.set prefixHead split }
      let tree := tree.modifyNode child fun fields =>
        { fields with segment := suffixHead :: suffixRest, parent := some split }
      let tree := tree.modifyNode split fun fields =>
        { fields with children := fields.children.set suffixHead child }
      let tree :=
        match leftOver with
        | [] => tree
        | newHead :: newRest =>
            let newChild := tree.nextNode
            let tree := tree.allocNode { segment := newHead :: newRest, parent := some split }
            let tree := tree.modifyNode split fun fields =>
              { fields with children := fields.children.set newHead newChild }
            (tree.indexSegment newChild).addLeaf newChild
      (tree.indexSegment split).indexSegment child
  | _, _ => tree

/-- The loop of `insert`.  `remaining` is `block_ids[offset:]`. -/
def insertLoop : ℕ → ℕ → List Id → Routine (RadixTreeBackend Id) Unit
  | 0, _, _ => pure ()
  | _ + 1, _, [] => pure ()
  | fuel + 1, node, blockId :: rest => do
      let tree ← read
      match (tree.nodes node).children.get? blockId with
      | none => write (addPath node blockId rest)
      | some child =>
          let segment := (tree.nodes child).segment
          let common := commonLength (blockId :: rest) segment
          if common = segment.length then
            insertLoop fuel child ((blockId :: rest).drop common)
          else do
            raiseIf (common = 0)
              (.runtimeError "Radix tree child map is inconsistent with edge segment.")
            write (splitEdge node child common ((blockId :: rest).drop common))

/-- `insert`. -/
def insert (blockIds : List Id) : Routine (RadixTreeBackend Id) Unit :=
  insertLoop (blockIds.length + 1) root blockIds

/-- The writes of `remove_block`. -/
def dropBlock (blockId : Id) (node parent : ℕ) (tree : RadixTreeBackend Id) :
    RadixTreeBackend Id :=
  let tree := { tree with
    locations := tree.locations.erase blockId
    leafBlockIds := tree.leafBlockIds.erase blockId }
  match (tree.nodes node).segment with
  | [only] =>
      (tree.modifyNode parent fun fields =>
        { fields with children := fields.children.erase only }).addLeaf parent
  | segment =>
      (tree.modifyNode node fun fields => { fields with segment := segment.dropLast }).addLeaf node

/-- `remove_block`. -/
def removeBlock (blockId : Id) : Routine (RadixTreeBackend Id) Unit := do
  let tree ← read
  match tree.locations.get? blockId with
  | none => raise (.keyError "Prefix cache block id is not present in radix tree.")
  | some (node, index) => do
      raiseIf (index + 1 ≠ (tree.nodes node).segment.length ∨
          (tree.nodes node).children.entries ≠ [])
        (.runtimeError "Cannot remove a prefix cache tree block with live children.")
      match (tree.nodes node).parent with
      | none => raise (.runtimeError "Cannot remove radix tree root.")
      | some parent => write (dropBlock blockId node parent)

/-- The parent walk of `path_to_block`, collecting segments towards the root. -/
def pathLoop (tree : RadixTreeBackend Id) : ℕ → ℕ → List Id → List Id
  | 0, _, path => path
  | fuel + 1, node, path =>
      match (tree.nodes node).parent with
      | none => path
      | some parent => pathLoop tree fuel parent ((tree.nodes parent).segment ++ path)

/-- `path_to_block`. -/
def pathToBlock (tree : RadixTreeBackend Id) (blockId : Id) : Except PyError (List Id) :=
  match tree.locations.get? blockId with
  | none => .error (.keyError "Prefix cache block id is not present in radix tree.")
  | some (node, index) =>
      .ok (pathLoop tree (tree.locations.size + 1) node
        ((tree.nodes node).segment.take (index + 1)))

/-- The stack loop of `subtree_block_ids`.  The top of the stack is the head. -/
def subtreeLoop (tree : RadixTreeBackend Id) : ℕ → List ℕ → List Id → List Id
  | 0, _, result => result
  | _ + 1, [], result => result
  | fuel + 1, node :: stack, result =>
      subtreeLoop tree fuel ((tree.nodes node).children.values.reverse ++ stack)
        (result ++ (tree.nodes node).segment)

/-- `subtree_block_ids`. -/
def subtreeBlockIds (tree : RadixTreeBackend Id) (rootBlockId : Id) :
    Except PyError (List Id) :=
  match tree.locations.get? rootBlockId with
  | none => .error (.keyError "Prefix cache subtree root is not present.")
  | some (node, index) =>
      .ok (subtreeLoop tree (tree.locations.size + 1) (tree.nodes node).children.values.reverse
        ((tree.nodes node).segment.drop index))

/-- `child_count`. -/
def childCount (tree : RadixTreeBackend Id) (blockId : Id) : Except PyError ℕ :=
  match tree.locations.get? blockId with
  | none => .error (.keyError "Prefix cache block id is not present in radix tree.")
  | some (node, index) =>
      .ok (if index + 1 < (tree.nodes node).segment.length then 1
        else (tree.nodes node).children.size)

/-- `child_block_ids`. -/
def childBlockIds (tree : RadixTreeBackend Id) (blockId : Id) : Except PyError (List Id) :=
  match tree.locations.get? blockId with
  | none => .error (.keyError "Prefix cache block id is not present in radix tree.")
  | some (node, index) =>
      .ok (match (tree.nodes node).segment[index + 1]? with
        | some next => [next]
        | none => (tree.nodes node).children.values.filterMap fun child =>
            (tree.nodes child).segment.head?)

end RadixTreeBackend
