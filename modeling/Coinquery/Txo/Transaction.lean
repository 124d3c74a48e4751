import Coinquery.Txo.BlockTable

/-!
# The `transaction`, `input` and `output` tables

The three tables (`table-transaction.sql`, `table-input.sql`, `table-output.sql`) restricted to
the columns the functions below read or write, and `transaction_insert`
(`function-transaction-insert.sql`) with `input_insert` and `output_insert`, one definition per
statement. `transaction.txid` is `UNIQUE`; `input` and `output` reference `transaction(id)` with
`ON DELETE CASCADE`, and are unique on `(transaction_id, vin)` and `(transaction_id, vout)`.

`transactionInsert` runs the whole function at once. `mem_transactionInsert` says what it can do
to a row: every row afterwards is a row from before, or a row of the inserted txid whose `block_id`
is the argument's, and `Keyed` (distinct ids below the sequence) is kept.
-/

namespace Coinquery
namespace Txo

/-- The fields of `in_tx_def` that `transaction_insert` reads: `txid` (NULL when absent), and the
`vin` and `vout` numbers of `inputs` and `outputs`. -/
structure TxDef where
  /-- `in_tx_def->>'txid'`. -/
  txid : Option String
  /-- `vin` of each element of `in_tx_def->'inputs'`. -/
  vins : List Int
  /-- `vout` of each element of `in_tx_def->'outputs'`. -/
  vouts : List Int
  deriving DecidableEq, Repr

/-- A row of the `transaction` table. -/
structure TransactionRow where
  /-- `id BIGSERIAL PRIMARY KEY`. -/
  id : Nat
  /-- `index`, NULL for a mempool transaction. -/
  index : Option Int
  /-- `block_id`, NULL for a mempool transaction. -/
  blockId : Option Int
  /-- `txid`. -/
  txid : String
  deriving DecidableEq, Repr

/-- A row of the `input` table. -/
structure InputRow where
  transactionId : Nat
  vin : Int
  deriving DecidableEq, Repr

/-- A row of the `output` table. -/
structure OutputRow where
  transactionId : Nat
  vout : Int
  deriving DecidableEq, Repr

/-- The three tables and the value the `transaction` id sequence hands out next. -/
structure TxTables where
  transactions : List TransactionRow
  inputs : List InputRow
  outputs : List OutputRow
  nextId : Nat
  deriving DecidableEq, Repr

/-- `-1` stands for NULL in `in_block_id` and `in_transaction_index`. -/
def nullIfMinusOne (value : Int) : Option Int :=
  if value = -1 then none else some value

namespace TxTables

def empty : TxTables :=
  ⟨[], [], [], 1⟩

/-- `SELECT id INTO var_transaction_id FROM transaction WHERE txid = in_tx_def->>'txid'`. -/
def selectId (tables : TxTables) (txid : String) : Option Nat :=
  (tables.transactions.find? fun row => row.txid == txid).map TransactionRow.id

/-- `INSERT INTO transaction (…) VALUES (…) RETURNING id INTO var_transaction_id`. -/
def insertTransaction (tables : TxTables) (index blockId : Option Int) (txid : String) :
    TxTables × Nat :=
  ({ tables with
      transactions := tables.transactions ++ [⟨tables.nextId, index, blockId, txid⟩]
      nextId := tables.nextId + 1 }, tables.nextId)

/-- The loop of `input_insert` and `output_insert`: one `INSERT` of `row n` for each `n`; a row
that is already stored raises `unique_violation`, which the loop catches. -/
def insertRows {α : Type} [DecidableEq α] (rows : List α) (row : Int → α) (numbers : List Int) :
    List α :=
  numbers.foldl (fun rows n => if rows.contains (row n) then rows else rows ++ [row n]) rows

/-- `input_insert(in_transaction_id, in_inputs)`. -/
def inputInsert (tables : TxTables) (transactionId : Nat) (vins : List Int) : TxTables :=
  { tables with inputs := insertRows tables.inputs (InputRow.mk transactionId) vins }

/-- `output_insert(in_transaction_id, in_outputs)`. -/
def outputInsert (tables : TxTables) (transactionId : Nat) (vouts : List Int) : TxTables :=
  { tables with outputs := insertRows tables.outputs (OutputRow.mk transactionId) vouts }

/-- `UPDATE transaction SET block_id = in_block_id, index = in_transaction_index WHERE id = …`. -/
def updateBlock (tables : TxTables) (id : Nat) (blockId index : Option Int) : TxTables :=
  { tables with
    transactions := tables.transactions.map fun row =>
      if row.id == id then { row with blockId := blockId, index := index } else row }

end TxTables

/-- `transaction_insert(in_block_id, in_tx_def, in_raw_transaction, in_transaction_index)`, run
as one transaction. A new txid is inserted with its inputs and outputs; a stored one only gets
the block of a non-NULL `in_block_id`. -/
def transactionInsert (tables : TxTables) (inBlockId : Int) (inTxDef : TxDef)
    (inTransactionIndex : Int) : Except String TxTables :=
  match inTxDef.txid with
  | none => .error "no txid supplied"
  | some txid =>
      let blockId := nullIfMinusOne inBlockId
      let index := nullIfMinusOne inTransactionIndex
      match tables.selectId txid with
      | none =>
          let inserted := tables.insertTransaction index blockId txid
          .ok ((inserted.1.inputInsert inserted.2 inTxDef.vins).outputInsert inserted.2 inTxDef.vouts)
      | some id => .ok (if blockId.isSome then tables.updateBlock id blockId index else tables)

namespace TxTables

/-! ## What the statements do to the `transaction` rows -/

theorem insertRows_cons {α : Type} [DecidableEq α] (rows : List α) (row : Int → α) (n : Int)
    (numbers : List Int) :
    insertRows rows row (n :: numbers) =
      insertRows (if rows.contains (row n) then rows else rows ++ [row n]) row numbers :=
  rfl

theorem mem_insertRows_of_mem {α : Type} [DecidableEq α] {rows : List α} {row : Int → α}
    {numbers : List Int} {stored : α} (member : stored ∈ rows) :
    stored ∈ insertRows rows row numbers := by
  induction numbers generalizing rows with
  | nil => exact member
  | cons n numbers induction =>
      rw [insertRows_cons]
      apply induction
      split
      · exact member
      · exact List.mem_append_left _ member

/-- Every row the loop inserts is stored afterwards, whether it was inserted now or before. -/
theorem row_mem_insertRows {α : Type} [DecidableEq α] {rows : List α} {row : Int → α}
    {numbers : List Int} {n : Int} (member : n ∈ numbers) : row n ∈ insertRows rows row numbers := by
  induction numbers generalizing rows with
  | nil => cases member
  | cons m numbers induction =>
      rw [insertRows_cons]
      rcases List.mem_cons.mp member with rfl | later
      · apply mem_insertRows_of_mem
        split
        · rename_i stored
          exact List.contains_iff_mem.mp stored
        · exact List.mem_append_right _ (List.mem_singleton_self _)
      · exact induction later

theorem txid_of_selectId {tables : TxTables} {txid : String} {id : Nat}
    (selected : tables.selectId txid = some id) :
    ∃ row ∈ tables.transactions, row.id = id ∧ row.txid = txid := by
  obtain ⟨row, found, rfl⟩ := Option.map_eq_some_iff.mp selected
  exact ⟨row, List.mem_of_find?_eq_some found, rfl, by simpa using List.find?_some found⟩

/-- Transaction ids are distinct and below the sequence. -/
def Keyed (tables : TxTables) : Prop :=
  (tables.transactions.map TransactionRow.id).Nodup ∧ ∀ row ∈ tables.transactions, row.id < tables.nextId

theorem Keyed.empty : Keyed empty :=
  ⟨List.nodup_nil, fun _ member => by cases member⟩

theorem Keyed.insertTransaction {tables : TxTables} (keyed : tables.Keyed) (index blockId : Option Int)
    (txid : String) : (tables.insertTransaction index blockId txid).1.Keyed := by
  obtain ⟨distinct, below⟩ := keyed
  refine ⟨?_, fun row member => ?_⟩
  · simp only [TxTables.insertTransaction, List.map_append, List.map_singleton]
    refine List.nodup_append.mpr ⟨distinct, List.nodup_singleton _, ?_⟩
    intro id old other fresh same
    obtain ⟨row, member, rfl⟩ := List.mem_map.mp old
    rw [List.mem_singleton.mp fresh] at same
    exact absurd same (Nat.ne_of_lt (below row member))
  · simp only [TxTables.insertTransaction, List.mem_append, List.mem_singleton] at member ⊢
    rcases member with old | rfl
    · exact Nat.lt_succ_of_lt (below row old)
    · exact Nat.lt_succ_self _

theorem Keyed.updateBlock {tables : TxTables} (keyed : tables.Keyed) (id : Nat)
    (blockId index : Option Int) : (tables.updateBlock id blockId index).Keyed := by
  have ids : (tables.updateBlock id blockId index).transactions.map TransactionRow.id =
      tables.transactions.map TransactionRow.id := by
    simp only [TxTables.updateBlock, List.map_map]
    apply List.map_congr_left
    intro row _
    simp only [Function.comp_apply]
    split <;> rfl
  refine ⟨ids ▸ keyed.1, fun row member => ?_⟩
  simp only [TxTables.updateBlock, List.mem_map] at member
  obtain ⟨old, old_member, rfl⟩ := member
  have below := keyed.2 old old_member
  split <;> exact below

/-- `updateBlock` changes only rows with id `id`, and sets their block. -/
theorem mem_updateBlock {tables : TxTables} {id : Nat}
    {blockId index : Option Int} {row : TransactionRow}
    (member : row ∈ (tables.updateBlock id blockId index).transactions) :
    row ∈ tables.transactions ∨ ∃ old ∈ tables.transactions, old.id = id ∧ row.id = old.id ∧
      row.txid = old.txid ∧ row.blockId = blockId := by
  simp only [TxTables.updateBlock, List.mem_map] at member
  obtain ⟨old, old_member, rfl⟩ := member
  split
  · rename_i matched
    exact .inr ⟨old, old_member, beq_iff_eq.mp matched, rfl, rfl, rfl⟩
  · exact .inl old_member

end TxTables

/-- The three ways a call of `transaction_insert` can succeed: it inserts a new txid with its
inputs and outputs, moves a stored one to a block, or leaves a stored one as it is. -/
theorem transactionInsert_cases {tables after : TxTables} {inBlockId : Int} {inTxDef : TxDef}
    {inTransactionIndex : Int}
    (inserted : transactionInsert tables inBlockId inTxDef inTransactionIndex = .ok after) :
    ∃ txid, inTxDef.txid = some txid ∧
      ((tables.selectId txid = none ∧
        after = (((tables.insertTransaction (nullIfMinusOne inTransactionIndex)
          (nullIfMinusOne inBlockId) txid).1.inputInsert tables.nextId inTxDef.vins).outputInsert
            tables.nextId inTxDef.vouts)) ∨
      ∃ id, tables.selectId txid = some id ∧
        ((nullIfMinusOne inBlockId).isSome ∧
          after = tables.updateBlock id (nullIfMinusOne inBlockId) (nullIfMinusOne inTransactionIndex) ∨
        nullIfMinusOne inBlockId = none ∧ after = tables)) := by
  unfold transactionInsert at inserted
  split at inserted
  · cases inserted
  · rename_i txid named
    refine ⟨txid, named, ?_⟩
    split at inserted
    · rename_i selected
      exact .inl ⟨selected, (Except.ok.inj inserted).symm⟩
    · rename_i id selected
      refine .inr ⟨id, selected, ?_⟩
      have updated := (Except.ok.inj inserted).symm
      split at updated
      · exact .inl ⟨‹_›, updated⟩
      · exact .inr ⟨Option.not_isSome_iff_eq_none.mp ‹_›, updated⟩

/-- With distinct ids, the row `SELECT … INTO` found is the only row with its id. -/
theorem TxTables.eq_of_selectId {tables : TxTables} (keyed : tables.Keyed) {txid : String} {id : Nat}
    (selected : tables.selectId txid = some id) {row : TransactionRow}
    (member : row ∈ tables.transactions) (same_id : row.id = id) : row.txid = txid := by
  obtain ⟨found, found_member, found_id, found_txid⟩ := TxTables.txid_of_selectId selected
  rw [List.inj_on_of_nodup_map keyed.1 member found_member (same_id.trans found_id.symm), found_txid]

/-- What `transaction_insert` can do to the `transaction` rows: a row afterwards is a row from
before, or a row of the txid of `in_tx_def` with the `block_id` of `in_block_id`. -/
theorem mem_transactionInsert {tables after : TxTables} (keyed : tables.Keyed) {inBlockId : Int}
    {inTxDef : TxDef} {inTransactionIndex : Int}
    (inserted : transactionInsert tables inBlockId inTxDef inTransactionIndex = .ok after)
    {row : TransactionRow} (member : row ∈ after.transactions) :
    row ∈ tables.transactions ∨ inTxDef.txid = some row.txid ∧ row.blockId = nullIfMinusOne inBlockId := by
  obtain ⟨txid, named, ⟨_, rfl⟩ | ⟨id, selected, ⟨_, rfl⟩ | ⟨_, rfl⟩⟩⟩ := transactionInsert_cases inserted
  · simp only [TxTables.outputInsert, TxTables.inputInsert, TxTables.insertTransaction,
      List.mem_append, List.mem_singleton] at member
    rcases member with old | rfl
    · exact .inl old
    · exact .inr ⟨named, rfl⟩
  · rcases TxTables.mem_updateBlock member with old | ⟨old, old_member, same_id, _, same_txid, block⟩
    · exact .inl old
    · -- the updated row is the one `SELECT … INTO` found, so it carries the txid
      rw [named, same_txid, TxTables.eq_of_selectId keyed selected old_member same_id]
      exact .inr ⟨rfl, block⟩
  · exact .inl member

theorem TxTables.Keyed.transactionInsert {tables after : TxTables} (keyed : tables.Keyed) {inBlockId : Int}
    {inTxDef : TxDef} {inTransactionIndex : Int}
    (inserted : transactionInsert tables inBlockId inTxDef inTransactionIndex = .ok after) :
    after.Keyed := by
  obtain ⟨txid, _, ⟨_, rfl⟩ | ⟨id, _, ⟨_, rfl⟩ | ⟨_, rfl⟩⟩⟩ := transactionInsert_cases inserted
  · exact keyed.insertTransaction (nullIfMinusOne inTransactionIndex) (nullIfMinusOne inBlockId) txid
  · exact keyed.updateBlock _ _ _
  · exact keyed

end Txo
end Coinquery
