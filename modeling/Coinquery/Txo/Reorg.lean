import Coinquery.Txo.LiveHeight

/-!
# Reorganisations through `block_insert`

Two statements about the live part of the `block` table and where `block_insert` departs from
them. The main-chain shape (live heights form an interval, live neighbours link both ways) breaks
when the idempotency check revives a stored block above a gap: that early return skips the
ancestor validation which the insertion of a new block runs. The reorganisation specification of a
new block breaks in the descendant walk, whose `SELECT … INTO` follows a single child of each
orphaned block, so a fork sibling can keep its walked chain live above a missing ancestor.
-/

namespace Coinquery
namespace Txo

open SelectInto

/-- The hashes of the live blocks. -/
def liveHashes (table : Table) : Set String :=
  {hash | ∃ row ∈ table.liveRows, row.blockHash = hash}

/-! ## The main-chain shape -/

/-- Live heights form one interval, and live blocks one height apart point at each other through
`last_block_hash` and `next_block_hash`. -/
def MainChainShape (table : Table) : Prop :=
  (∀ low ∈ table.liveRows, ∀ high ∈ table.liveRows, ∀ height : Int,
      low.height ≤ height → height ≤ high.height → ∃ row ∈ table.liveRows, row.height = height) ∧
    ∀ parent ∈ table.liveRows, ∀ child ∈ table.liveRows, child.height = parent.height + 1 →
      child.lastBlockHash = parent.blockHash ∧ parent.nextBlockHash = child.blockHash

/-- A genesis block with two children, `g1` and `y1`; `x2` is the child of `y1`, which is never
inserted. -/
def skipTree : BlockTree :=
  BlockTree.ofList
    [⟨"g0", 0, "", "g1"⟩, ⟨"g1", 1, "g0", ""⟩, ⟨"y1", 1, "g0", "x2"⟩, ⟨"x2", 2, "y1", ""⟩]
    (by decide) (by decide)

/-- The table after inserting `g0`, `g1` and `x2`, then `x2` once more. -/
def skipTable : Table :=
  ⟨[⟨1, "g0", 0, "", "g1", false⟩, ⟨2, "g1", 1, "g0", "x2", true⟩, ⟨3, "x2", 2, "y1", "", false⟩], 4⟩

/-- `x2` goes in above a missing parent and is orphaned with `g1`; inserting it again revives it
through the idempotency check, above the now empty height 1. -/
theorem skipTable_reachable : Reachable skipTree {false} skipTable := by
  have genesis : blockInsert Pick.first 1 Table.empty ⟨"g0", 0, "", "g1"⟩ false =
      some (.ok (⟨[⟨1, "g0", 0, "", "g1", false⟩], 2⟩, 1)) := by decide
  have child : blockInsert Pick.first 1 ⟨[⟨1, "g0", 0, "", "g1", false⟩], 2⟩
      ⟨"g1", 1, "g0", ""⟩ false =
        some (.ok (⟨[⟨1, "g0", 0, "", "g1", false⟩, ⟨2, "g1", 1, "g0", "", false⟩], 3⟩, 2)) := by
    decide
  have orphaned : blockInsert Pick.first 1
      ⟨[⟨1, "g0", 0, "", "g1", false⟩, ⟨2, "g1", 1, "g0", "", false⟩], 3⟩
      ⟨"x2", 2, "y1", ""⟩ false =
        some (.ok (⟨[⟨1, "g0", 0, "", "g1", false⟩, ⟨2, "g1", 1, "g0", "x2", true⟩,
          ⟨3, "x2", 2, "y1", "", true⟩], 4⟩, 3)) := by decide
  have revived : blockInsert Pick.first 1
      ⟨[⟨1, "g0", 0, "", "g1", false⟩, ⟨2, "g1", 1, "g0", "x2", true⟩,
        ⟨3, "x2", 2, "y1", "", true⟩], 4⟩
      ⟨"x2", 2, "y1", ""⟩ false = some (.ok (skipTable, 3)) := by decide
  exact ((((Reachable.empty : Reachable skipTree {false} Table.empty).step
    (BlockTree.mem_ofList.mpr (by decide)) rfl genesis).step
    (BlockTree.mem_ofList.mpr (by decide)) rfl child).step
    (BlockTree.mem_ofList.mpr (by decide)) rfl orphaned).step
    (BlockTree.mem_ofList.mpr (by decide)) rfl revived

theorem main_chain_shape_fails :
    ¬ ∀ (tree : BlockTree) (table : Table), Reachable tree {false} table → MainChainShape table := by
  intro shape
  have interval := (shape skipTree skipTable skipTable_reachable).1
  -- the live heights are 0 and 2, and nothing live sits at height 1
  have filled := interval ⟨1, "g0", 0, "", "g1", false⟩ (by decide)
    ⟨3, "x2", 2, "y1", "", false⟩ (by decide) 1 (by decide) (by decide)
  revert filled
  decide

/-! ## The reorganisation specification of a new block -/

/-- `ancestors` lists the stored orphaned rows `a₁ … a_k` reached from a block whose parent hash is
`hash`: each is the stored row named by the previous one's `last_block_hash`, and the list stops
where that row is missing or live. -/
inductive OrphanedAncestors (table : Table) : String → List BlockRow → Prop
  | stop {hash : String}
      (no_orphan : ∀ row ∈ table.rows, row.blockHash = hash → row.isOrphaned = false) :
      OrphanedAncestors table hash []
  | step {hash : String} {row : BlockRow} {rest : List BlockRow} (member : row ∈ table.rows)
      (named : row.blockHash = hash) (orphaned : row.isOrphaned = true)
      (above : OrphanedAncestors table row.lastBlockHash rest) :
      OrphanedAncestors table hash (row :: rest)

/-- The live set after a new block `a₀`, as the reorganisation specification gives it: with
`a_k` the last orphaned ancestor and `p` its stored parent, the live blocks up to `p` and the chain
`a₀ … a_k` relinked through `next_block_hash`; without `p`, the live blocks below the height
under `a_k`. -/
def NewBlockSpec (table : Table) (header : BlockHeader) (after : Table) : Prop :=
  ∀ ancestors, OrphanedAncestors table header.prevHash ancestors →
    let topHash := (ancestors.getLast?.map (·.blockHash)).getD header.hash
    let topHeight := (ancestors.getLast?.map (·.height)).getD header.height
    let topParent := (ancestors.getLast?.map (·.lastBlockHash)).getD header.prevHash
    let chain := header.hash :: ancestors.map (·.blockHash)
    (∀ parent ∈ table.rows, parent.blockHash = topParent →
      liveHashes after =
          {hash | ∃ row ∈ table.liveRows, row.blockHash = hash ∧ row.height ≤ parent.height} ∪
            {hash | hash ∈ chain} ∧
        (∀ row ∈ after.rows, row.blockHash = parent.blockHash → row.nextBlockHash = topHash) ∧
        ∀ link ∈ chain.zip chain.tail, ∀ row ∈ after.rows, row.blockHash = link.2 →
          row.nextBlockHash = link.1) ∧
      ((∀ row ∈ table.rows, row.blockHash ≠ topParent) →
        liveHashes after =
          {hash | ∃ row ∈ table.liveRows, row.blockHash = hash ∧ row.height < topHeight - 1})

/-- A live genesis block `z0` and a stored orphaned chain above the never inserted `p1`: `a2` and
its child `s3`. The block `b3`, a second child of `a2`, is next. -/
def forkedChainTree : BlockTree :=
  BlockTree.ofList
    [⟨"z0", 0, "", ""⟩, ⟨"p1", 1, "z0", "a2"⟩, ⟨"a2", 2, "p1", ""⟩, ⟨"s3", 3, "a2", ""⟩,
      ⟨"b3", 3, "a2", ""⟩]
    (by decide) (by decide)

/-- The table after inserting `z0`, `a2` and `s3`. -/
def forkedChainTable : Table :=
  ⟨[⟨1, "z0", 0, "", "", false⟩, ⟨2, "a2", 2, "p1", "s3", true⟩, ⟨3, "s3", 3, "a2", "", true⟩], 4⟩

theorem forkedChainTable_reachable : Reachable forkedChainTree {false} forkedChainTable := by
  have genesis : blockInsert Pick.first 1 Table.empty ⟨"z0", 0, "", ""⟩ false =
      some (.ok (⟨[⟨1, "z0", 0, "", "", false⟩], 2⟩, 1)) := by decide
  have above_gap : blockInsert Pick.first 1 ⟨[⟨1, "z0", 0, "", "", false⟩], 2⟩
      ⟨"a2", 2, "p1", ""⟩ false =
        some (.ok (⟨[⟨1, "z0", 0, "", "", false⟩, ⟨2, "a2", 2, "p1", "", true⟩], 3⟩, 2)) := by
    decide
  have child : blockInsert Pick.first 2
      ⟨[⟨1, "z0", 0, "", "", false⟩, ⟨2, "a2", 2, "p1", "", true⟩], 3⟩
      ⟨"s3", 3, "a2", ""⟩ false = some (.ok (forkedChainTable, 3)) := by decide
  exact (((Reachable.empty : Reachable forkedChainTree {false} Table.empty).step
    (BlockTree.mem_ofList.mpr (by decide)) rfl genesis).step
    (BlockTree.mem_ofList.mpr (by decide)) rfl above_gap).step
    (BlockTree.mem_ofList.mpr (by decide)) rfl child

/-- Inserting `b3` walks up to `a2`, finds `p1` missing, and the descendant walk from `a2` follows
`s3`, the first child in table order: `b3` stays live above the emptied heights 1 and 2. -/
theorem forkedChainTable_insert :
    blockInsert Pick.first 3 forkedChainTable ⟨"b3", 3, "a2", ""⟩ false =
      some (.ok (⟨[⟨1, "z0", 0, "", "", false⟩, ⟨2, "a2", 2, "p1", "b3", true⟩,
        ⟨3, "s3", 3, "a2", "", true⟩, ⟨4, "b3", 3, "a2", "", false⟩], 5⟩, 4)) := by
  decide

theorem new_block_spec_fails :
    ¬ ∀ (tree : BlockTree) (table : Table) (header : BlockHeader),
      Reachable tree {false} table → table.liveRows ≠ [] → header ∈ tree.blocks →
      (∀ row ∈ table.rows, row.blockHash ≠ header.hash) →
      (∀ row ∈ table.liveRows, row.height ≤ header.height) →
      ∀ (pick : Pick BlockRow) (fuel : Nat) (after : Table) (id : Nat),
        blockInsert pick fuel table header false = some (.ok (after, id)) →
          NewBlockSpec table header after := by
  intro spec
  have holds := spec forkedChainTree forkedChainTable ⟨"b3", 3, "a2", ""⟩
    forkedChainTable_reachable (by decide) (BlockTree.mem_ofList.mpr (by decide)) (by decide)
    (by decide) Pick.first 3 _ 4 forkedChainTable_insert
  -- the only orphaned ancestor is `a2`, whose parent `p1` was never stored
  have ancestry : OrphanedAncestors forkedChainTable "a2" [⟨2, "a2", 2, "p1", "s3", true⟩] :=
    .step (by decide) rfl rfl (.stop (by decide))
  have live_eq := (holds _ ancestry).2 (by decide)
  have b3_live : "b3" ∈ liveHashes
      ⟨[⟨1, "z0", 0, "", "", false⟩, ⟨2, "a2", 2, "p1", "b3", true⟩,
        ⟨3, "s3", 3, "a2", "", true⟩, ⟨4, "b3", 3, "a2", "", false⟩], 5⟩ :=
    ⟨⟨4, "b3", 3, "a2", "", false⟩, by decide, rfl⟩
  rw [live_eq] at b3_live
  obtain ⟨row, member, named, low⟩ := b3_live
  revert row
  decide

end Txo
end Coinquery
