import Coinquery.Txo.BlockInsert
import Mathlib.Logic.Relation
import Mathlib.Data.Set.Basic

/-!
# Tables reachable through `block_insert`

The blocks a node hands out form one block tree: a hash names at most one block, and a block's
`previousblockhash`, when it names a block of the tree, names one exactly one height lower. A
header's `nextblockhash` is the node's view when the block was fetched, so one block may come with
different next hashes. A table
is reachable when a sequence of completed `block_insert` calls on blocks of one tree builds it
from the empty table, each call with an `in_recover` flag from a given set.
-/

namespace Coinquery
namespace Txo

open SelectInto

/-- The blocks of one block tree. -/
structure BlockTree where
  /-- The blocks of the tree. -/
  blocks : Set BlockHeader
  /-- A hash names at most one block. -/
  hash_injective : ∀ ⦃block other⦄, block ∈ blocks → other ∈ blocks → block.hash = other.hash →
    block.height = other.height ∧ block.prevHash = other.prevHash
  /-- A parent of the tree sits one height below its child. -/
  parent_height : ∀ ⦃parent child⦄, parent ∈ blocks → child ∈ blocks →
    child.prevHash = parent.hash → child.height = parent.height + 1

/-- The tree of the blocks of a list that meets the two conditions. -/
def BlockTree.ofList (blocks : List BlockHeader)
    (hash_injective : ∀ block ∈ blocks, ∀ other ∈ blocks, block.hash = other.hash →
      block.height = other.height ∧ block.prevHash = other.prevHash)
    (parent_height : ∀ parent ∈ blocks, ∀ child ∈ blocks,
      child.prevHash = parent.hash → child.height = parent.height + 1) : BlockTree where
  blocks := {block | block ∈ blocks}
  hash_injective := fun _ _ member other_member => hash_injective _ member _ other_member
  parent_height := fun _ _ member child_member => parent_height _ member _ child_member

theorem BlockTree.mem_ofList {blocks : List BlockHeader} {hash_injective parent_height}
    {block : BlockHeader} : block ∈ (ofList blocks hash_injective parent_height).blocks ↔ block ∈ blocks :=
  Iff.rfl

/-- One completed `block_insert` call on a block of `tree` with a flag from `recovers`. -/
def InsertStep (tree : BlockTree) (recovers : Set Bool) (before after : Table) : Prop :=
  ∃ (pick : Pick BlockRow) (fuel : Nat) (header : BlockHeader) (inRecover : Bool) (id : Nat),
    header ∈ tree.blocks ∧ inRecover ∈ recovers ∧
      blockInsert pick fuel before header inRecover = some (.ok (after, id))

/-- Tables built from the empty table by completed `block_insert` calls. -/
def Reachable (tree : BlockTree) (recovers : Set Bool) (table : Table) : Prop :=
  Relation.ReflTransGen (InsertStep tree recovers) Table.empty table

theorem Reachable.empty {tree : BlockTree} {recovers : Set Bool} :
    Reachable tree recovers Table.empty :=
  Relation.ReflTransGen.refl

theorem Reachable.step {tree : BlockTree} {recovers : Set Bool} {before after : Table}
    (reach : Reachable tree recovers before) {pick : Pick BlockRow} {fuel : Nat}
    {header : BlockHeader} {inRecover : Bool} {id : Nat} (member : header ∈ tree.blocks)
    (allowed : inRecover ∈ recovers)
    (insert : blockInsert pick fuel before header inRecover = some (.ok (after, id))) :
    Reachable tree recovers after :=
  Relation.ReflTransGen.tail reach ⟨pick, fuel, header, inRecover, id, member, allowed, insert⟩

/-- A property that holds of the empty table and survives every completed call holds of every
reachable table. -/
theorem Reachable.induction {tree : BlockTree} {recovers : Set Bool} (property : Table → Prop)
    (empty : property Table.empty)
    (preserve : ∀ (pick : Pick BlockRow) fuel before after header inRecover id,
      header ∈ tree.blocks → inRecover ∈ recovers → property before →
        blockInsert pick fuel before header inRecover = some (.ok (after, id)) → property after)
    {table : Table} (reach : Reachable tree recovers table) : property table := by
  induction reach with
  | refl => exact empty
  | tail _ step holds =>
      obtain ⟨pick, fuel, header, inRecover, id, member, allowed, insert⟩ := step
      exact preserve pick fuel _ _ header inRecover id member allowed holds insert

end Txo
end Coinquery
