import Coinquery.Postgres.InsertTx
import Coinquery.Library.Ledger
import Coinquery.Library.SqlList

/-!
# The queries of `Database`

The read methods of `pkg/postgres/postgres.go` on the `block`, `transaction`, `input` and `output`
tables. A join on a primary key or a `UNIQUE` column (`transaction.id`, `transaction.txid`,
`block.id`) matches at most one row, so it is a lookup (`transactionOf`, `transactionByTxid`,
`liveBlockOf`). A `LEFT JOIN` that finds nothing gives NULL columns, which Go reads as `-1` or
`""`. `NOT EXISTS` is a negated `any`. Without `ORDER BY` the rows come in table order, and where
`QueryRow` keeps the first of several rows a `Pick` chooses it. The `LIMIT`, `OFFSET` and `WHERE`
clauses Go splices into the text are taken as the values and the condition they carry.

The tables record a ledger (`Coins.Ledger`): every output that joins its transaction is a coin
under `(txid, vout)`, and every input spends the outpoint `(spent_txid, spent_vout)`. The rows of
`GetUtxosByAddrs` are the unspent coins of that ledger at the addresses asked for
(`getUtxosByAddrs_eq_unspent`).
-/

namespace Coinquery
namespace Postgres

open Jsonb Txo.Columns SelectInto

/-! ## Joins on keys -/

/-- `JOIN transaction ON … = transaction.id`. -/
def transactionOf (tables : Tables) (id : Nat) : Option TransactionRow :=
  tables.transactions.find? fun tx => tx.id == id

/-- `JOIN transaction ON … = transaction.txid`, a `UNIQUE` column. -/
def transactionByTxid (tables : Tables) (txid : String) : Option TransactionRow :=
  tables.transactions.find? fun tx => tx.txid == txid

/-- `LEFT JOIN block ON transaction.block_id = block.id AND block.is_orphaned = FALSE`, for a
transaction whose `block_id` is `blockId`. -/
def liveBlockOf (blocks : Txo.Table) (blockId : Option Int) : Option Txo.BlockRow :=
  blocks.rows.find? fun block => Txo.sqlEq (block.id : Int) blockId && !block.isOrphaned

/-- `block.height` scanned into a `sql.NullInt64`, read as `-1` when NULL. -/
def heightOrMinusOne (block : Option Txo.BlockRow) : Int :=
  (block.map (·.height)).getD (-1)

/-! ## `GetUtxosByAddrs` -/

/-- `Utxo`. Its `Timestamp` is `block.mined_time`, or the time of the call for an output outside a
live block, and is left out. -/
structure Utxo where
  vout : Int
  hex : String
  reqSigs : Int
  type : String
  address : String
  satAmount : Int
  txID : String
  blockHeight : Int
  deriving DecidableEq, Repr

/-- `EXISTS (SELECT * FROM input WHERE input.spent_txid = txid AND input.spent_vout = vout)`. -/
def spentBy (tables : Tables) (txid : String) (vout : Int) : Bool :=
  tables.inputs.any fun input => input.spentTxid == txid && input.spentVout == vout

/-- One row of `GetUtxosByAddrs`, as `rows.Scan` fills a `Utxo`. -/
def scanUtxo (blocks : Txo.Table) (tx : TransactionRow) (output : OutputRow) : Utxo :=
  ⟨output.vout, output.hex, output.reqSigs, output.outputType, output.address, output.amount,
    tx.txid, heightOrMinusOne (liveBlockOf blocks tx.blockId)⟩

/-- `GetUtxosByAddrs(addrs)`. -/
def getUtxosByAddrs (blocks : Txo.Table) (tables : Tables) (addrs : List String) : List Utxo :=
  tables.outputs.filterMap fun output =>
    (transactionOf tables output.transactionId).bind fun tx =>
      if addrs.contains output.address && !spentBy tables tx.txid output.vout then
        some (scanUtxo blocks tx output)
      else none

/-! ## `GetSpentTxDetails` -/

/-- `SpentTxDetails`. -/
structure SpentTxDetails where
  spentTxID : String
  spentIndex : Int
  spentHeight : Int
  deriving DecidableEq, Repr

/-- The rows of the query of `GetSpentTxDetails(txid, vout)`: the inputs spending the outpoint,
each with the txid of its transaction and the height of that transaction's live block. -/
def spendingRows (blocks : Txo.Table) (tables : Tables) (txid : String) (vout : Int) :
    List SpentTxDetails :=
  tables.inputs.filterMap fun input =>
    if input.spentTxid == txid && input.spentVout == vout then
      (transactionOf tables input.transactionId).map fun tx =>
        ⟨tx.txid, input.vin, heightOrMinusOne (liveBlockOf blocks tx.blockId)⟩
    else none

/-- `GetSpentTxDetails(txid, vout)`: `QueryRow` keeps one of the rows, and the method returns `nil`
when there is none. -/
def getSpentTxDetails (pick : Pick SpentTxDetails) (blocks : Txo.Table) (tables : Tables)
    (txid : String) (vout : Int) : Option SpentTxDetails :=
  pick.choose (spendingRows blocks tables txid vout)

/-! ## `GetTxIDsByAddresses` and `GetTotalTxsByAddresses` -/

/-- The condition Go appends to the `WHERE` of both branches, on the listed transaction, the
output to the address and the live block of the transaction. -/
abbrev WhereClause := TransactionRow → OutputRow → Option Txo.BlockRow → Bool

/-- The first branch of the `UNION`: a transaction for each of its outputs to the addresses. -/
def payingTransactions (blocks : Txo.Table) (tables : Tables) (addrs : List String)
    (whereClause : WhereClause) : List TransactionRow :=
  tables.outputs.filterMap fun output =>
    (transactionOf tables output.transactionId).filter fun tx =>
      addrs.contains output.address && whereClause tx output (liveBlockOf blocks tx.blockId)

/-- The second branch: a transaction for each of its inputs spending an output to the
addresses. -/
def spendingTransactions (blocks : Txo.Table) (tables : Tables) (addrs : List String)
    (whereClause : WhereClause) : List TransactionRow :=
  tables.inputs.flatMap fun input =>
    match transactionByTxid tables input.spentTxid, transactionOf tables input.transactionId with
    | some spent, some tx =>
        (tables.outputs.filter fun output =>
            output.transactionId == spent.id && output.vout == input.spentVout &&
              addrs.contains output.address && whereClause tx output (liveBlockOf blocks tx.blockId)).map
          fun _ => tx
    | _, _ => []

/-- `SELECT transaction.id, transaction.txid … UNION …` -/
def historyRows (blocks : Txo.Table) (tables : Tables) (addrs : List String)
    (whereClause : WhereClause) : List (Nat × String) :=
  SqlList.union ((payingTransactions blocks tables addrs whereClause).map fun tx => (tx.id, tx.txid))
    ((spendingTransactions blocks tables addrs whereClause).map fun tx => (tx.id, tx.txid))

/-- `GetTxIDsByAddresses(addrs, limitClause, whereClause, offsetClause)`, the clauses given by the
`LIMIT` and `OFFSET` they carry. -/
def getTxIDsByAddresses (blocks : Txo.Table) (tables : Tables) (addrs : List String)
    (limit : Option Int) (whereClause : WhereClause) (offset : Option Int) :
    Except SqlList.RowCountError (List String) := do
  let page ← SqlList.limitOffset limit offset
    (SqlList.orderByDesc (fun row => (row.1 : Int)) (historyRows blocks tables addrs whereClause))
  pure (page.map Prod.snd)

/-- `GetTotalTxsByAddresses(addrs)`: `COUNT(*)` of the `UNION` of the two branches, which select
the ids alone and have no clause of Go's. -/
def getTotalTxsByAddresses (blocks : Txo.Table) (tables : Tables) (addrs : List String) : Nat :=
  (SqlList.union ((payingTransactions blocks tables addrs fun _ _ _ => true).map (·.id))
    ((spendingTransactions blocks tables addrs fun _ _ _ => true).map (·.id))).length

/-! ## `GetTxByTxID` -/

/-- `postgres.Tx` without `Time` and `BlockTime`, which are `block.mined_time` or the time of the
call, and `Cursor`, which the method does not fill. -/
structure TxDetails where
  id : Nat
  txID : String
  hash : String
  version : Int
  size : Int
  vSize : Int
  weight : Int
  locktime : Int
  inputs : List Input
  outputs : List Output
  blockHash : String
  blockHeight : Int
  mempool : Bool
  deriving DecidableEq, Repr

/-- `GetTxByTxID(txid)`: the row of the txid with its live block, then its inputs and outputs. -/
def getTxByTxID (blocks : Txo.Table) (tables : Tables) (txid : String) : Except String TxDetails :=
  match transactionByTxid tables txid with
  | none => .error ("failed to get transaction from txid: " ++ txid ++ ": sql: no rows in result set")
  | some tx => do
      let block := liveBlockOf blocks tx.blockId
      let inputs ← (getInputsByTxID tables tx.txid).mapError fun err =>
        "failed to get transaction from txid: " ++ txid ++ ": " ++ err
      pure ⟨tx.id, tx.txid, tx.hash, tx.version, tx.size, tx.vSize, tx.weight, tx.locktime, inputs,
        getOutputsByTxID tables tx.txid (fun _ => true), (block.map (·.blockHash)).getD "",
        heightOrMinusOne block, block.isNone⟩

/-! ## The ledger the tables record -/

/-- An outpoint: a txid and the number of one of its outputs. -/
abbrev Outpoint := String × Int

/-- Every output that joins its transaction, under `(txid, vout)`, and every input, under the
outpoint `(spent_txid, spent_vout)` it names. -/
def ledger (tables : Tables) : Coins.Ledger Outpoint (TransactionRow × OutputRow) InputRow :=
  ⟨tables.outputs.filterMap fun output =>
      (transactionOf tables output.transactionId).map fun tx => ((tx.txid, output.vout), (tx, output)),
    tables.inputs.map fun input => ((input.spentTxid, input.spentVout), input)⟩

theorem spentBy_eq_true_iff {tables : Tables} {txid : String} {vout : Int} :
    spentBy tables txid vout = true ↔ (txid, vout) ∈ (ledger tables).spentKeys := by
  simp [spentBy, ledger, Coins.Ledger.spentKeys, and_comm]

theorem spentBy_eq_contains (tables : Tables) (txid : String) (vout : Int) :
    spentBy tables txid vout = (ledger tables).spentKeys.contains (txid, vout) := by
  rw [Bool.eq_iff_iff, spentBy_eq_true_iff, List.contains_iff_mem]

/-- A coin of the ledger is keyed by the txid of its transaction and the number of its output. -/
theorem key_of_mem_created {tables : Tables} {coin : Outpoint × (TransactionRow × OutputRow)}
    (member : coin ∈ (ledger tables).created) : coin.1 = (coin.2.1.txid, coin.2.2.vout) := by
  obtain ⟨output, _, joined⟩ := List.mem_filterMap.mp member
  obtain ⟨tx, _, rfl⟩ := Option.map_eq_some_iff.mp joined
  rfl

/-- `GetUtxosByAddrs` returns the unspent coins of the ledger whose address is asked for, each
with its transaction's txid and the height of its live block, or `-1`. -/
theorem getUtxosByAddrs_eq_unspent (blocks : Txo.Table) (tables : Tables) (addrs : List String) :
    getUtxosByAddrs blocks tables addrs =
      ((ledger tables).unspent.filter fun coin => addrs.contains coin.2.2.address).map
        fun coin => scanUtxo blocks coin.2.1 coin.2.2 := by
  -- the outputs vary along the induction while the inputs and transactions stay
  have general : ∀ outputs : List OutputRow,
      outputs.filterMap (fun output =>
        (transactionOf tables output.transactionId).bind fun tx =>
          if addrs.contains output.address && !spentBy tables tx.txid output.vout then
            some (scanUtxo blocks tx output)
          else none) =
        (((⟨outputs.filterMap fun output => (transactionOf tables output.transactionId).map
            fun tx => ((tx.txid, output.vout), (tx, output)), (ledger tables).spent⟩ :
              Coins.Ledger Outpoint (TransactionRow × OutputRow) InputRow).unspent.filter
          fun coin => addrs.contains coin.2.2.address).map
        fun coin => scanUtxo blocks coin.2.1 coin.2.2) := by
    intro outputs
    induction outputs with
    | nil => rfl
    | cons output rest induction =>
        simp only [Coins.Ledger.unspent] at induction ⊢
        cases joined : transactionOf tables output.transactionId with
        | none => simpa [joined] using induction
        | some tx =>
            have spent := @spentBy_eq_true_iff tables tx.txid output.vout
            by_cases asked : addrs.contains output.address = true <;>
              by_cases unspent : spentBy tables tx.txid output.vout = true <;>
              simp_all [Coins.Ledger.spentKeys]
  exact general tables.outputs

end Postgres
end Coinquery
