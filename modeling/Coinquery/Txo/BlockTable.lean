import Coinquery.Library.SelectInto
import Mathlib.Data.List.Nodup

/-!
# The `block` table

Rows of the `block` table of the `txo` schema (`table-block@v1.0.5.sql`), restricted to the columns
that `block_insert` reads or writes, and the statement forms `block_insert` runs on it: `UPDATE …
WHERE` with its `RETURNING` rows, and `INSERT` with the `BIGSERIAL` id. PL/pgSQL variables may be
NULL; a comparison with a NULL variable in a `WHERE` clause matches no row.
-/

namespace Coinquery
namespace Txo

open SelectInto

/-- The fields of `utxo.BlockHeader` that `block_insert` reads from its `in_block` argument. The Go
struct has no `omitempty` tags, so the two hash links are always present (empty for a missing
link). -/
structure BlockHeader where
  /-- `in_block->>'hash'`. -/
  hash : String
  /-- `in_block->>'height'`. -/
  height : Int
  /-- `in_block->>'previousblockhash'`. -/
  prevHash : String
  /-- `in_block->>'nextblockhash'`, the node's next block when the block was fetched. -/
  nextHash : String
  deriving DecidableEq, Repr

/-- A row of the `block` table. -/
structure BlockRow where
  /-- `id BIGSERIAL PRIMARY KEY`. -/
  id : Nat
  /-- `block_hash`. -/
  blockHash : String
  /-- `height`. -/
  height : Int
  /-- `last_block_hash`, the parent's hash. -/
  lastBlockHash : String
  /-- `next_block_hash`, the child on the chain the row belongs to. -/
  nextBlockHash : String
  /-- `is_orphaned`. -/
  isOrphaned : Bool
  deriving DecidableEq, Repr

/-- The `block` table: its rows in storage order and the next value of the `id` sequence. -/
structure Table where
  /-- The stored rows. -/
  rows : List BlockRow
  /-- The value `nextval` hands to the next `INSERT`. -/
  nextId : Nat
  deriving DecidableEq, Repr

/-- `column = variable` in a `WHERE` clause: NULL matches nothing. -/
def sqlEq {α : Type} [DecidableEq α] (column : α) (value : Option α) : Bool :=
  value == some column

/-- `column != variable` in a `WHERE` clause: NULL matches nothing either. -/
def sqlNe {α : Type} [DecidableEq α] (column : α) : Option α → Bool
  | some value => column != value
  | none => false

@[simp]
theorem sqlEq_some {α : Type} [DecidableEq α] (column value : α) :
    sqlEq column (some value) = (column == value) := by
  simp [sqlEq, eq_comm]

@[simp]
theorem sqlEq_none {α : Type} [DecidableEq α] (column : α) : sqlEq column none = false := rfl

@[simp]
theorem sqlNe_some {α : Type} [DecidableEq α] (column value : α) :
    sqlNe column (some value) = (column != value) := rfl

@[simp]
theorem sqlNe_none {α : Type} [DecidableEq α] (column : α) : sqlNe column none = false := rfl

namespace BlockRow

/-- `SET is_orphaned = true`. -/
@[simps]
def orphan (row : BlockRow) : BlockRow := { row with isOrphaned := true }

/-- `SET (next_block_hash, is_orphaned) = ('', TRUE)`, for the siblings of a walked ancestor. -/
@[simps]
def detach (row : BlockRow) : BlockRow := { row with nextBlockHash := "", isOrphaned := true }

/-- `SET next_block_hash = next`. The statements that write a NULL variable match no row, so the
kept value is never used. -/
@[simps]
def setNext (next : Option String) (row : BlockRow) : BlockRow :=
  { row with nextBlockHash := next.getD row.nextBlockHash }

/-- `SET (next_block_hash, is_orphaned) = (next, FALSE)`. -/
@[simps]
def adopt (next : Option String) (row : BlockRow) : BlockRow :=
  { row with nextBlockHash := next.getD row.nextBlockHash, isOrphaned := false }

/-- The key `(block_hash, height)` that the idempotency check looks a block up by. -/
def key (row : BlockRow) : String × Int := (row.blockHash, row.height)

end BlockRow

namespace Table

/-- The table before the first block: no rows, the sequence at its start value 1. -/
def empty : Table := ⟨[], 1⟩

/-- `UPDATE block SET … WHERE cond`. -/
@[simps]
def update (table : Table) (cond : BlockRow → Bool) (set : BlockRow → BlockRow) : Table :=
  { table with rows := table.rows.map fun row => if cond row then set row else row }

/-- The rows `UPDATE … WHERE cond … RETURNING` yields: the matching rows after the update. -/
def returning (table : Table) (cond : BlockRow → Bool) (set : BlockRow → BlockRow) :
    List BlockRow :=
  (table.rows.filter cond).map set

/-- `INSERT INTO block … RETURNING id`: the new row takes the next value of the sequence. -/
@[simps]
def insert (table : Table) (row : Nat → BlockRow) : Table :=
  ⟨table.rows ++ [row table.nextId], table.nextId + 1⟩

/-- The rows with `is_orphaned = false`. -/
def liveRows (table : Table) : List BlockRow :=
  table.rows.filter fun row => !row.isOrphaned

/-- `SELECT height … WHERE is_orphaned = false ORDER BY height DESC LIMIT 1`, NULL on no rows. It is
also the height `Database.LastBlock` reads. -/
def lastBlockHeight (table : Table) : Option Int :=
  (table.liveRows.map (·.height)).max?

end Table

end Txo
end Coinquery
