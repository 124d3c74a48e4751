import Coinquery.Txo.BlockTable
import Coinquery.Library.WhileLoop

/-!
# `block_insert`

The PL/pgSQL function `block_insert(in_block, in_mined_time, in_median_time, in_recover)` of
`function-block-insert.sql`, statement by statement. Its two `WHILE` loops run through
`WhileLoop.run` with a shared fuel; each single-row `INTO` keeps the row a `Pick` chooses. The
function returns `none` when the fuel runs out, `.error` when it raises, and otherwise the new table
with the returned block id.
-/

namespace Coinquery
namespace Txo

open SelectInto

/-- The variables the ancestor walk (lines 143-178) reads and writes. -/
structure AncestorWalk where
  /-- The table as the walk has left it. -/
  table : Table
  /-- `var_next_block_hash`: the block the next ancestor must point at. -/
  nextBlockHash : Option String
  /-- `var_prev_block_hash`. -/
  prevBlockHash : Option String
  /-- `var_prev_block_height`. -/
  prevBlockHeight : Option Int
  /-- `var_prev_block_orphaned`. -/
  prevBlockOrphaned : Option Bool
  /-- `var_missing_ancestor`. -/
  missingAncestor : Bool
  deriving DecidableEq, Repr

namespace AncestorWalk

/-- `WHILE var_missing_ancestor = FALSE AND var_prev_block_orphaned = TRUE`. -/
def continues (walk : AncestorWalk) : Bool :=
  !walk.missingAncestor && walk.prevBlockOrphaned == some true

/-- The variables after a parent lookup below a block at `height`: a found parent fills the three
`var_prev_block_*` variables; a missing one leaves them NULL, sets `var_missing_ancestor` and puts
`var_prev_block_height` one below `height`. -/
def ofParent (table : Table) (nextBlockHash : Option String) (height : Option Int) :
    Option BlockRow → AncestorWalk
  | some parent =>
      ⟨table, nextBlockHash, some parent.blockHash, some parent.height, some parent.isOrphaned,
        false⟩
  | none => ⟨table, nextBlockHash, none, height.map (· - 1), none, true⟩

@[simp]
theorem ofParent_table (table : Table) (nextBlockHash : Option String) (height : Option Int)
    (parent : Option BlockRow) : (ofParent table nextBlockHash height parent).table = table := by
  cases parent <;> rfl

/-- One iteration of the ancestor walk: the orphaned ancestor `var_prev_block_*` becomes live with
its siblings orphaned, and its parent is pointed at it and looked up. -/
def step (pick : Pick BlockRow) (walk : AncestorWalk) : AncestorWalk :=
  let currentHash := walk.prevBlockHash
  let currentHeight := walk.prevBlockHeight
  let isCurrent := fun row : BlockRow =>
    sqlEq row.blockHash currentHash && sqlEq row.height currentHeight
  let siblingsOrphaned := walk.table.update
    (fun row => sqlNe row.blockHash currentHash && sqlEq row.height currentHeight)
    BlockRow.detach
  -- `RETURNING block_hash, last_block_hash INTO var_next_block_hash, var_prev_block_hash`
  let current :=
    pick.choose (siblingsOrphaned.returning isCurrent (BlockRow.adopt walk.nextBlockHash))
  let adopted := siblingsOrphaned.update isCurrent (BlockRow.adopt walk.nextBlockHash)
  let nextBlockHash := current.map (·.blockHash)
  let prevBlockHash := current.map (·.lastBlockHash)
  let prevBlockHeight := currentHeight.map (· - 1)
  let isParent := fun row : BlockRow =>
    sqlEq row.blockHash prevBlockHash && sqlEq row.height prevBlockHeight
  -- `RETURNING block_hash, height, is_orphaned INTO var_prev_block_*`
  let parent := pick.choose (adopted.returning isParent (BlockRow.setNext nextBlockHash))
  ofParent (adopted.update isParent (BlockRow.setNext nextBlockHash)) nextBlockHash currentHeight
    parent

/-- The ancestor walk with room for `fuel` iterations. -/
def run (pick : Pick BlockRow) (fuel : Nat) (walk : AncestorWalk) : Option AncestorWalk :=
  WhileLoop.run continues (step pick) fuel walk

end AncestorWalk

/-- The variables the descendant walk (lines 188-196) reads and writes. -/
structure DescendantWalk where
  /-- The table as the walk has left it. -/
  table : Table
  /-- `var_next_block_hash`: the block orphaned next. -/
  nextBlockHash : Option String
  deriving DecidableEq, Repr

namespace DescendantWalk

/-- `WHILE var_next_block_hash IS NOT NULL`. -/
def continues (walk : DescendantWalk) : Bool :=
  walk.nextBlockHash.isSome

/-- One iteration: orphan the block, then `SELECT block_hash INTO var_next_block_hash … WHERE
last_block_hash = var_next_block_hash`, which keeps one child. -/
def step (pick : Pick BlockRow) (walk : DescendantWalk) : DescendantWalk :=
  let orphaned := walk.table.update
    (fun row => sqlEq row.blockHash walk.nextBlockHash) BlockRow.orphan
  let child := pick.choose
    (orphaned.rows.filter fun row => sqlEq row.lastBlockHash walk.nextBlockHash)
  ⟨orphaned, child.map (·.blockHash)⟩

/-- The descendant walk with room for `fuel` iterations. -/
def run (pick : Pick BlockRow) (fuel : Nat) (walk : DescendantWalk) : Option DescendantWalk :=
  WhileLoop.run continues (step pick) fuel walk

end DescendantWalk

/-- Lines 40-50: a block below the last live height is refused unless `in_recover` is set. -/
def checkHeight (table : Table) (header : BlockHeader) (inRecover : Bool) : Except String Unit :=
  match table.lastBlockHeight with
  | some last =>
      if header.height < last ∧ inRecover = false then
        let hash := header.hash
        .error s!"Received block hash: {hash} is less than current last block height: {last}."
      else .ok ()
  | none => .ok ()

/-- Lines 52-69: above height 0, the live block one height lower gets the new block as its next
block, unless it already has it. -/
def linkPrevious (pick : Pick BlockRow) (table : Table) (header : BlockHeader) : Table :=
  if 0 < header.height then
    let prevHeight := header.height - 1
    let prevHash := (pick.choose
      (table.rows.filter fun row => !row.isOrphaned && row.height == prevHeight)).map (·.blockHash)
    table.update
      (fun row => sqlEq row.blockHash prevHash && row.height == prevHeight &&
        row.nextBlockHash != header.hash && !row.isOrphaned)
      (BlockRow.setNext (some header.hash))
  else table

/-- The idempotency check's condition `block_hash = in_block_hash AND height = in_height`. -/
def isStored (header : BlockHeader) (row : BlockRow) : Bool :=
  row.blockHash == header.hash && row.height == header.height

/-- Lines 71-82: a stored copy of the block becomes live with the node's next hash, and every other
block at its height is orphaned. The second component is the stored copy's id, if any. -/
def revive (pick : Pick BlockRow) (table : Table) (header : BlockHeader) : Table × Option Nat :=
  let existing := pick.choose
    (table.returning (isStored header) (BlockRow.adopt (some header.nextHash)))
  let revived := table.update (isStored header) (BlockRow.adopt (some header.nextHash))
  (revived.update (fun row => row.blockHash != header.hash && row.height == header.height)
    BlockRow.orphan, existing.map (·.id))

/-- The row lines 88-125 insert, under the id the sequence hands out. -/
def newRow (header : BlockHeader) (id : Nat) : BlockRow :=
  ⟨id, header.hash, header.height, header.prevHash, header.nextHash, false⟩

/-- Lines 127-198, run when the table had a live block: walk up the orphaned ancestors of the new
block; when the walk ends at a missing ancestor, orphan the height below it and the chain above. -/
def validateAncestors (pick : Pick BlockRow) (fuel : Nat) (table : Table) (header : BlockHeader) :
    Option Table := do
  let parent := pick.choose (table.rows.filter fun row => row.blockHash == header.prevHash)
  let walk ← AncestorWalk.run pick fuel
    (AncestorWalk.ofParent table (some header.hash) (some header.height) parent)
  if walk.missingAncestor then
    let heightOrphaned := walk.table.update
      (fun row => sqlEq row.height walk.prevBlockHeight) BlockRow.orphan
    let descendants ← DescendantWalk.run pick fuel ⟨heightOrphaned, walk.nextBlockHash⟩
    pure descendants.table
  else pure walk.table

/-- `block_insert(in_block, …, in_recover)` with room for `fuel` iterations of each loop. -/
def blockInsert (pick : Pick BlockRow) (fuel : Nat) (table : Table) (header : BlockHeader)
    (inRecover : Bool) : Option (Except String (Table × Nat)) :=
  match checkHeight table header inRecover with
  | .error message => some (.error message)
  | .ok () =>
      match revive pick (linkPrevious pick table header) header with
      | (revived, some id) => some (.ok (revived, id))
      | (revived, none) =>
          let inserted := revived.insert (newRow header)
          if table.lastBlockHeight.isSome then
            (validateAncestors pick fuel inserted header).map fun validated =>
              .ok (validated, revived.nextId)
          else some (.ok (inserted, revived.nextId))

/-! ## What a call can do -/

/-- The ancestor validation finishes in one of two ways: the walk ends at a live parent, or it ends
at a missing ancestor and the descendant walk then finishes. -/
theorem validateAncestors_eq_some {pick : Pick BlockRow} {fuel : Nat} {table : Table}
    {header : BlockHeader} {validated : Table}
    (finished : validateAncestors pick fuel table header = some validated) :
    ∃ walk, AncestorWalk.run pick fuel (AncestorWalk.ofParent table (some header.hash)
        (some header.height)
        (pick.choose (table.rows.filter fun row => row.blockHash == header.prevHash))) =
          some walk ∧
      (walk.missingAncestor = false ∧ validated = walk.table ∨
        walk.missingAncestor = true ∧ ∃ descendants, DescendantWalk.run pick fuel
          ⟨walk.table.update (fun row => sqlEq row.height walk.prevBlockHeight) BlockRow.orphan,
            walk.nextBlockHash⟩ = some descendants ∧ validated = descendants.table) := by
  simp only [validateAncestors, bind, Option.bind_eq_some_iff] at finished
  obtain ⟨walk, walk_run, rest⟩ := finished
  refine ⟨walk, walk_run, ?_⟩
  cases missing : walk.missingAncestor
  · simp only [missing, Bool.false_eq_true, if_false, pure, Option.some.injEq] at rest
    exact .inl ⟨rfl, rest.symm⟩
  · simp only [missing, if_true, pure, Option.bind_eq_some_iff, Option.some.injEq] at rest
    obtain ⟨descendants, descendants_run, table_eq⟩ := rest
    exact .inr ⟨rfl, descendants, descendants_run, table_eq.symm⟩

/-- Every way a call of `block_insert` completes: past the height check, either the block was
stored and is revived, or it is inserted into the revived table and, when the table had a live
block, its ancestors are validated. -/
theorem blockInsert_eq_ok {pick : Pick BlockRow} {fuel : Nat} {table : Table}
    {header : BlockHeader} {inRecover : Bool} {after : Table} {id : Nat}
    (insert : blockInsert pick fuel table header inRecover = some (.ok (after, id))) :
    checkHeight table header inRecover = .ok () ∧
      let revived := revive pick (linkPrevious pick table header) header
      (revived.2 = some id ∧ after = revived.1) ∨
      (revived.2 = none ∧ id = revived.1.nextId ∧
        (table.lastBlockHeight = none ∧ after = revived.1.insert (newRow header) ∨
          table.lastBlockHeight.isSome ∧
            validateAncestors pick fuel (revived.1.insert (newRow header)) header =
              some after)) := by
  unfold blockInsert at insert
  split at insert
  · simp at insert
  · rename_i check
    refine ⟨check, ?_⟩
    split at insert
    · rename_i revived stored revive_eq
      simp only [Option.some.injEq, Except.ok.injEq, Prod.mk.injEq] at insert
      exact .inl ⟨by rw [revive_eq, insert.2], by rw [revive_eq, insert.1]⟩
    · rename_i revived revive_eq
      rw [revive_eq]
      refine .inr ⟨rfl, ?_⟩
      split at insert
      · rename_i live
        simp only [Option.map_eq_some_iff, Except.ok.injEq, Prod.mk.injEq] at insert
        obtain ⟨validated, validate_eq, after_eq, id_eq⟩ := insert
        exact ⟨id_eq.symm, .inr ⟨live, after_eq ▸ validate_eq⟩⟩
      · rename_i no_live
        simp only [Option.some.injEq, Except.ok.injEq, Prod.mk.injEq] at insert
        refine ⟨insert.2.symm, .inl ⟨?_, insert.1.symm⟩⟩
        simpa using no_live

/-! ## Fuel is only room -/

theorem validateAncestors_mono {pick : Pick BlockRow} {fuel more : Nat} {table : Table}
    {header : BlockHeader} {validated : Table}
    (finished : validateAncestors pick fuel table header = some validated) (le : fuel ≤ more) :
    validateAncestors pick more table header = some validated := by
  obtain ⟨walk, walk_run, ends⟩ := validateAncestors_eq_some finished
  have walk_more := WhileLoop.run_mono walk_run le
  simp only [validateAncestors, bind, Option.bind_eq_some_iff]
  refine ⟨walk, walk_more, ?_⟩
  rcases ends with ⟨missing, rfl⟩ | ⟨missing, descendants, descendants_run, rfl⟩
  · simp [missing, pure]
  · simp only [missing, if_true, pure, Option.bind_eq_some_iff, Option.some.injEq]
    exact ⟨descendants, WhileLoop.run_mono descendants_run le, rfl⟩

/-- A call that completes with some fuel completes the same way with more. -/
theorem blockInsert_mono {pick : Pick BlockRow} {fuel more : Nat} {table : Table}
    {header : BlockHeader} {inRecover : Bool} {result : Except String (Table × Nat)}
    (finished : blockInsert pick fuel table header inRecover = some result) (le : fuel ≤ more) :
    blockInsert pick more table header inRecover = some result := by
  unfold blockInsert at finished ⊢
  split at finished
  · exact finished
  · split at finished
    · exact finished
    · by_cases live : table.lastBlockHeight.isSome = true
      · simp only [live, if_true, Option.map_eq_some_iff] at finished ⊢
        obtain ⟨validated, validate_eq, rfl⟩ := finished
        exact ⟨validated, validateAncestors_mono validate_eq le, rfl⟩
      · simp only [live, Bool.false_eq_true, if_false] at finished ⊢
        exact finished

end Txo
end Coinquery
