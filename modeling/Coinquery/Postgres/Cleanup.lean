import Coinquery.Postgres.UtxoSet
import Coinquery.Txo.Cleanup

/-!
# `delete_orphans` and `delete_invalid_txs` on the full rows

The two cleanup functions of `Txo.Cleanup`, on the rows with all their columns. On the keys they
are the key-only functions (`keys_deleteOrphans`, `keys_deleteInvalidTxs`). Run alone, the first
two `DELETE`s of `delete_orphans` remove nothing that the `ON DELETE CASCADE` of the third would
not (`deleteOrphans_eq`), so both functions are one `DELETE` of transactions with its cascade.

Such a `DELETE` forgets in the ledger of the tables the coins and the spends of the transactions
it deletes (`ledger_deleteTransactions`). An output the cleanup spares is then unspent again when
every input that spent it belonged to a deleted transaction: after a reorganisation the coins
that only orphaned transactions spent come back (`mem_getUtxosByAddrs_deleteOrphans`), and so do
the coins of a dropped mempool transaction's inputs (`mem_getUtxosByAddrs_deleteInvalidTxs`).

Calls of `transaction_insert`, `delete_orphans` and `delete_invalid_txs` run one after the other
keep the constraints the theorems on the tables assume, and the rows in the order of their ids
(`Built.invariant`): the hypothesis `Invariant tables` of the theorems on the Insight API holds of
every state serial calls reach.
-/

namespace Coinquery
namespace Txo
namespace Columns

namespace Tables

/-- `DELETE FROM transaction WHERE …`; `ON DELETE CASCADE` removes the inputs and outputs of the
deleted rows. -/
def deleteTransactions (tables : Tables) (doomed : TransactionRow → Bool) : Tables :=
  let deleted := (tables.transactions.filter doomed).map TransactionRow.id
  { tables with
    transactions := tables.transactions.filter fun row => !doomed row
    inputs := tables.inputs.filter fun input => !deleted.contains input.transactionId
    outputs := tables.outputs.filter fun output => !deleted.contains output.transactionId }

/-- The first `DELETE` of `delete_orphans`. -/
def deleteOrphanedInputs (tables : Tables) (blocks : Table) : Tables :=
  { tables with
    inputs := TxTables.withoutOrphaned blocks tables.keys tables.inputs InputRow.transactionId }

/-- The second `DELETE` of `delete_orphans`. -/
def deleteOrphanedOutputs (tables : Tables) (blocks : Table) : Tables :=
  { tables with
    outputs := TxTables.withoutOrphaned blocks tables.keys tables.outputs OutputRow.transactionId }

/-- The third `DELETE` of `delete_orphans`. -/
def deleteOrphanedTransactions (tables : Tables) (blocks : Table) : Tables :=
  tables.deleteTransactions fun row => TxTables.inOrphanedBlock blocks row.key

@[simp]
theorem deleteTransactions_transactions (tables : Tables) (doomed : TransactionRow → Bool) :
    (tables.deleteTransactions doomed).transactions = tables.transactions.filter fun row => !doomed row :=
  rfl

@[simp]
theorem deleteTransactions_inputs (tables : Tables) (doomed : TransactionRow → Bool) :
    (tables.deleteTransactions doomed).inputs = tables.inputs.filter fun input =>
      !((tables.transactions.filter doomed).map TransactionRow.id).contains input.transactionId :=
  rfl

@[simp]
theorem deleteTransactions_outputs (tables : Tables) (doomed : TransactionRow → Bool) :
    (tables.deleteTransactions doomed).outputs = tables.outputs.filter fun output =>
      !((tables.transactions.filter doomed).map TransactionRow.id).contains output.transactionId :=
  rfl

end Tables

/-- `delete_orphans()`, its three statements run back to back. -/
def deleteOrphans (blocks : Table) (tables : Tables) : Tables :=
  ((tables.deleteOrphanedInputs blocks).deleteOrphanedOutputs blocks).deleteOrphanedTransactions blocks

/-- `delete_invalid_txs(in_ids)`: `DELETE FROM transaction WHERE id = ANY(in_ids) AND block_id IS
NULL`. -/
def deleteInvalidTxs (tables : Tables) (inIds : List Nat) : Tables :=
  tables.deleteTransactions fun row => inIds.contains row.id && row.blockId.isNone

/-! ## The refinement of the key-only model -/

/-- A `DELETE` whose condition reads the key columns deletes on the keys what the key-only
`DELETE` deletes. -/
@[simp]
theorem keys_deleteTransactions (tables : Tables) (doomed : Txo.TransactionRow → Bool) :
    (tables.deleteTransactions fun row => doomed row.key).keys =
      tables.keys.deleteTransactions doomed := by
  simp only [Tables.keys, TxTables.deleteTransactions, List.filter_map, List.map_map]
  rfl

@[simp]
theorem keys_deleteOrphans (blocks : Table) (tables : Tables) :
    (deleteOrphans blocks tables).keys = Txo.deleteOrphans blocks tables.keys := by
  simp only [deleteOrphans, Txo.deleteOrphans, Tables.deleteOrphanedTransactions,
    TxTables.deleteOrphanedTransactions, keys_deleteTransactions]
  simp [Tables.deleteOrphanedInputs, Tables.deleteOrphanedOutputs, Tables.keys,
    TxTables.deleteOrphanedInputs, TxTables.deleteOrphanedOutputs, TxTables.withoutOrphaned,
    List.filter_map, Function.comp_def, InputRow.key, OutputRow.key]

@[simp]
theorem keys_deleteInvalidTxs (tables : Tables) (inIds : List Nat) :
    (deleteInvalidTxs tables inIds).keys = Txo.deleteInvalidTxs tables.keys inIds :=
  keys_deleteTransactions tables fun row => inIds.contains row.id && row.blockId.isNone

/-- The joins of the first two `DELETE`s select the transactions that the third deletes. -/
theorem orphanedTransaction_keys (blocks : Table) (tables : Tables) (transactionId : Nat) :
    TxTables.orphanedTransaction blocks tables.keys transactionId =
      ((tables.transactions.filter fun row => TxTables.inOrphanedBlock blocks row.key).map
        TransactionRow.id).contains transactionId := by
  rw [Bool.eq_iff_iff]
  simp only [TxTables.orphanedTransaction, Tables.keys, List.any_map, List.any_eq_true,
    Function.comp_apply, Bool.and_eq_true, beq_iff_eq, List.contains_iff_mem, List.mem_map,
    List.mem_filter]
  constructor
  · rintro ⟨row, member, same, orphaned⟩
    exact ⟨row, ⟨member, orphaned⟩, same⟩
  · rintro ⟨row, ⟨member, orphaned⟩, same⟩
    exact ⟨row, member, same, orphaned⟩

/-- Run alone, `delete_orphans` is its last `DELETE`: the first two remove rows that its cascade
removes as well. -/
theorem deleteOrphans_eq (blocks : Table) (tables : Tables) :
    deleteOrphans blocks tables = tables.deleteOrphanedTransactions blocks := by
  simp [deleteOrphans, Tables.deleteOrphanedInputs, Tables.deleteOrphanedOutputs,
    Tables.deleteOrphanedTransactions, Tables.deleteTransactions, TxTables.withoutOrphaned,
    orphanedTransaction_keys, List.filter_filter]

/-! ## The constraints every call keeps -/

theorem Tables.Stored.deleteTransactions {tables : Tables} {id : Nat} (stored : tables.Stored id)
    {doomed : TransactionRow → Bool}
    (spared : ((tables.transactions.filter doomed).map TransactionRow.id).contains id = false) :
    (tables.deleteTransactions doomed).Stored id := by
  obtain ⟨tx, member, rfl⟩ := stored
  refine ⟨tx, List.mem_filter.mpr ⟨member, ?_⟩, rfl⟩
  cases kept : doomed tx
  · rfl
  · have deleted : tx.id ∈ (tables.transactions.filter doomed).map TransactionRow.id :=
      List.mem_map_of_mem (List.mem_filter.mpr ⟨member, kept⟩)
    simp [deleted] at spared

theorem Tables.keyed_deleteTransactions {tables : Tables} (keyed : tables.keys.Keyed)
    (doomed : TransactionRow → Bool) : (tables.deleteTransactions doomed).keys.Keyed := by
  have distinct := keyed.1
  simp only [Tables.keys, List.map_map] at distinct
  refine ⟨?_, fun row member => ?_⟩
  · simp only [Tables.keys, Tables.deleteTransactions, List.map_map]
    exact distinct.sublist (List.filter_sublist.map _)
  · obtain ⟨tx, stored, rfl⟩ := List.mem_map.mp member
    exact keyed.2 tx.key (List.mem_map_of_mem (List.mem_filter.mp stored).1)

/-- A `DELETE` of transactions with its cascade keeps the constraints. -/
theorem Tables.Consistent.deleteTransactions {tables : Tables} (consistent : tables.Consistent)
    (doomed : TransactionRow → Bool) : (tables.deleteTransactions doomed).Consistent := by
  refine ⟨Tables.keyed_deleteTransactions consistent.keyed doomed, fun input member => ?_,
    fun output member => ?_⟩
  · obtain ⟨stored, spared⟩ := List.mem_filter.mp member
    exact (consistent.inputs_stored input stored).deleteTransactions (by simpa using spared)
  · obtain ⟨stored, spared⟩ := List.mem_filter.mp member
    exact (consistent.outputs_stored output stored).deleteTransactions (by simpa using spared)

/-- The unique indexes `idx_transaction_vin` and `idx_transaction_vout`: no two inputs of a
transaction share their `vin`, and no two outputs their `vout`. -/
structure Tables.UniqueIndexes (tables : Tables) : Prop where
  inputs : tables.keys.inputs.Nodup
  outputs : tables.keys.outputs.Nodup

/-- The loops of `input_insert` and `output_insert` skip a row whose key is stored. -/
theorem nodup_insertRows {α : Type} [DecidableEq α] {rows : List α} (distinct : rows.Nodup)
    (row : Int → α) (numbers : List Int) : (TxTables.insertRows rows row numbers).Nodup := by
  induction numbers generalizing rows with
  | nil => exact distinct
  | cons n numbers induction =>
      rw [TxTables.insertRows_cons]
      apply induction
      split
      · exact distinct
      · rename_i fresh
        refine List.nodup_append.mpr ⟨distinct, List.nodup_singleton _, ?_⟩
        intro stored member other other_member same
        rw [List.mem_singleton.mp other_member] at same
        exact fresh (List.contains_iff_mem.mpr (same ▸ member))

theorem Tables.UniqueIndexes.transactionInsert {tables after : Tables}
    (unique : tables.UniqueIndexes) {inBlockId : Int} {inTxDef : Jsonb.Json} {inRawTransaction : String}
    {inTransactionIndex : Int}
    (inserted : transactionInsert tables inBlockId inTxDef inRawTransaction inTransactionIndex =
      .ok after) :
    after.UniqueIndexes := by
  obtain ⟨vins, vouts, keys_inserted⟩ := keys_transactionInsert inserted
  simp only [Txo.transactionInsert] at keys_inserted
  split at keys_inserted
  · cases keys_inserted
  · split at keys_inserted
    · -- a new transaction: the loops add the rows of keys not stored yet
      have same := Except.ok.inj keys_inserted
      refine ⟨?_, ?_⟩ <;> rw [← same]
      · exact nodup_insertRows unique.inputs _ _
      · exact nodup_insertRows unique.outputs _ _
    · -- a stored transaction: at most its block changes
      have same := Except.ok.inj keys_inserted
      refine ⟨?_, ?_⟩ <;> rw [← same] <;> split
      · exact unique.inputs
      · exact unique.inputs
      · exact unique.outputs
      · exact unique.outputs

theorem Tables.UniqueIndexes.deleteTransactions {tables : Tables} (unique : tables.UniqueIndexes)
    (doomed : TransactionRow → Bool) : (tables.deleteTransactions doomed).UniqueIndexes :=
  ⟨unique.inputs.sublist (List.filter_sublist.map _), unique.outputs.sublist (List.filter_sublist.map _)⟩

end Columns
end Txo

namespace Postgres

open Txo.Columns

variable {tables : Tables}

theorem TxidsDistinct.deleteTransactions (distinct : TxidsDistinct tables)
    (doomed : TransactionRow → Bool) : TxidsDistinct (tables.deleteTransactions doomed) :=
  distinct.sublist (List.filter_sublist.map _)

/-! ## Calls run one after the other -/

/-- A call run alone on the tables: `transaction_insert` with any arguments that commits,
`delete_orphans` at any state of the block table, or `delete_invalid_txs`. A call that raises is
rolled back and leaves the tables as they were. -/
inductive Serial : Tables → Tables → Prop
  | transactionInsert {tables after : Tables} {inBlockId : Int} {inTxDef : Jsonb.Json}
      {inRawTransaction : String} {inTransactionIndex : Int}
      (inserted : transactionInsert tables inBlockId inTxDef inRawTransaction inTransactionIndex =
        .ok after) :
      Serial tables after
  | deleteOrphans (blocks : Txo.Table) (tables : Tables) : Serial tables (deleteOrphans blocks tables)
  | deleteInvalidTxs (tables : Tables) (inIds : List Nat) :
      Serial tables (deleteInvalidTxs tables inIds)

/-- Tables that serial calls built from the empty tables. -/
def Built (tables : Tables) : Prop :=
  Relation.ReflTransGen Serial Tables.empty tables

/-- The transaction rows stand in the order of their ids, as the sequence hands them out. -/
def IdsAscending (tables : Tables) : Prop :=
  tables.transactions.Pairwise fun row other => row.id < other.id

theorem IdsAscending.transactionInsert (consistent : tables.Consistent)
    (ascending : IdsAscending tables) {after : Tables} {inBlockId inTransactionIndex : Int}
    {inTxDef : Jsonb.Json} {inRawTransaction : String}
    (inserted : transactionInsert tables inBlockId inTxDef inRawTransaction inTransactionIndex =
      .ok after) :
    IdsAscending after := by
  obtain ⟨txid, _, ⟨_, row, withInputs, built, _, inputs_ok, outputs_ok⟩ |
    ⟨id, _, ⟨_, rfl⟩ | ⟨_, rfl⟩⟩⟩ := transactionInsert_cases inserted
  · obtain ⟨_, _, rfl⟩ := inputInsert_eq_ok.mp inputs_ok
    obtain ⟨_, _, rfl⟩ := outputInsert_eq_ok.mp outputs_ok
    -- the new row takes the next value of the sequence, above every stored id
    have row_id : row.id = tables.nextId := congrArg Txo.TransactionRow.id (transactionValues_key built)
    refine List.pairwise_append.mpr ⟨ascending, List.pairwise_singleton _ _, ?_⟩
    intro stored member new new_member
    rw [List.mem_singleton.mp new_member, row_id]
    exact Tables.Stored.below consistent.keyed ⟨stored, member, rfl⟩
  · -- moving a transaction to a block keeps every id
    refine List.pairwise_map.mpr (ascending.imp ?_)
    intro row other below
    split <;> split <;> exact below
  · exact ascending

theorem IdsAscending.deleteTransactions (ascending : IdsAscending tables)
    (doomed : TransactionRow → Bool) : IdsAscending (tables.deleteTransactions doomed) :=
  ascending.sublist List.filter_sublist

/-- What serial calls keep. -/
structure Invariant (tables : Tables) : Prop where
  consistent : tables.Consistent
  txids : TxidsDistinct tables
  ascending : IdsAscending tables
  indexes : tables.UniqueIndexes

theorem Invariant.deleteTransactions (valid : Invariant tables) (doomed : TransactionRow → Bool) :
    Invariant (tables.deleteTransactions doomed) :=
  ⟨valid.consistent.deleteTransactions doomed, valid.txids.deleteTransactions doomed,
    valid.ascending.deleteTransactions doomed, valid.indexes.deleteTransactions doomed⟩

theorem Serial.keeps {after : Tables} (step : Serial tables after) (valid : Invariant tables) :
    Invariant after := by
  cases step with
  | transactionInsert inserted =>
      exact ⟨valid.consistent.transactionInsert inserted, valid.txids.transactionInsert inserted,
        valid.ascending.transactionInsert valid.consistent inserted,
        valid.indexes.transactionInsert inserted⟩
  | deleteOrphans blocks =>
      rw [deleteOrphans_eq]
      exact valid.deleteTransactions _
  | deleteInvalidTxs inIds => exact valid.deleteTransactions _

/-- Whatever serial calls built keeps the constraints (ids distinct and below the sequence, every
input and output with its transaction, the unique indexes on `vin` and `vout`), distinct txids,
and the rows in the order of their ids. -/
theorem Built.invariant (built : Built tables) : Invariant tables := by
  induction built with
  | refl => exact ⟨Tables.Consistent.empty, List.nodup_nil, List.Pairwise.nil, ⟨List.nodup_nil, List.nodup_nil⟩⟩
  | tail _ step kept => exact step.keeps kept

/-! ## The ledger after a cascade `DELETE` -/

theorem ids_nodup (keyed : tables.keys.Keyed) : (tables.transactions.map TransactionRow.id).Nodup := by
  have distinct := keyed.1
  simp only [Tables.keys, List.map_map] at distinct
  exact distinct

theorem eq_of_id_eq (keyed : tables.keys.Keyed) {row other : TransactionRow}
    (member : row ∈ tables.transactions) (other_member : other ∈ tables.transactions)
    (same : row.id = other.id) : row = other :=
  List.inj_on_of_nodup_map (ids_nodup keyed) member other_member same

/-- With distinct ids, the join on `transaction.id` finds the one row of the id. -/
theorem transactionOf_eq_some_iff (keyed : tables.keys.Keyed) {id : Nat} {tx : TransactionRow} :
    transactionOf tables id = some tx ↔ tx ∈ tables.transactions ∧ tx.id = id := by
  constructor
  · intro found
    exact ⟨List.mem_of_find?_eq_some found, by simpa using List.find?_some found⟩
  · rintro ⟨member, rfl⟩
    cases found : transactionOf tables tx.id with
    | none =>
        have absent := List.find?_eq_none.mp found tx member
        simp at absent
    | some other =>
        have other_member : other ∈ tables.transactions := List.mem_of_find?_eq_some found
        have same : other.id = tx.id := by simpa using List.find?_some found
        rw [eq_of_id_eq keyed other_member member same]

/-- A transaction id is among the deleted ones when its row is doomed. -/
theorem contains_deleted (keyed : tables.keys.Keyed) (doomed : TransactionRow → Bool) (id : Nat) :
    ((tables.transactions.filter doomed).map TransactionRow.id).contains id =
      (transactionOf tables id).any doomed := by
  cases found : transactionOf tables id with
  | none =>
      have absent := List.find?_eq_none.mp found
      simpa using fun tx member _ same => absent tx member (by simpa using same)
  | some tx =>
      obtain ⟨member, rfl⟩ := (transactionOf_eq_some_iff keyed).mp found
      rw [Bool.eq_iff_iff]
      simp only [List.contains_iff_mem, List.mem_map, List.mem_filter, Option.any_some]
      constructor
      · rintro ⟨other, ⟨other_member, other_doomed⟩, same⟩
        rwa [← eq_of_id_eq keyed other_member member same]
      · intro tx_doomed
        exact ⟨tx, ⟨member, tx_doomed⟩, rfl⟩

theorem transactionOf_deleteTransactions (keyed : tables.keys.Keyed) (doomed : TransactionRow → Bool)
    (id : Nat) :
    transactionOf (tables.deleteTransactions doomed) id =
      (transactionOf tables id).filter fun tx => !doomed tx := by
  apply Option.ext
  intro tx
  rw [transactionOf_eq_some_iff (Tables.keyed_deleteTransactions keyed doomed),
    Option.filter_eq_some_iff, transactionOf_eq_some_iff keyed]
  simp only [Tables.deleteTransactions_transactions, List.mem_filter, Bool.not_eq_true']
  tauto

/-- A `DELETE` of transactions forgets the coins of the deleted transactions and the spends of
their inputs. -/
theorem ledger_deleteTransactions (keyed : tables.keys.Keyed) (doomed : TransactionRow → Bool) :
    ledger (tables.deleteTransactions doomed) =
      (ledger tables).forget (fun coin => !doomed coin.1) fun input =>
        !((tables.transactions.filter doomed).map TransactionRow.id).contains input.transactionId := by
  unfold ledger Coins.Ledger.forget
  congr 1
  · rw [List.filter_filterMap, Tables.deleteTransactions_outputs, List.filterMap_filter]
    apply List.filterMap_congr
    intro output _
    rw [transactionOf_deleteTransactions keyed, contains_deleted keyed]
    cases transactionOf tables output.transactionId with
    | none => simp
    | some tx => cases deleted : doomed tx <;> simp [Option.filter_some, deleted]
  · simp [List.filter_map, Function.comp_def]

/-- After a cascade `DELETE`, `GetUtxosByAddrs` lists the coins to the addresses of the
transactions that stay, each of whose spending inputs belonged to a deleted transaction. -/
theorem mem_getUtxosByAddrs_deleteTransactions (blocks : Txo.Table) (addrs : List String)
    (keyed : tables.keys.Keyed) (doomed : TransactionRow → Bool) {utxo : Utxo} :
    utxo ∈ getUtxosByAddrs blocks (tables.deleteTransactions doomed) addrs ↔
      ∃ coin ∈ (ledger tables).created, utxo = scanUtxo blocks coin.2.1 coin.2.2 ∧
        addrs.contains coin.2.2.address = true ∧ doomed coin.2.1 = false ∧
        ∀ input ∈ tables.inputs, (input.spentTxid, input.spentVout) = coin.1 →
          (transactionOf tables input.transactionId).any doomed = true := by
  -- a spend of the ledger is an input under the outpoint it names
  have spends : ∀ coin : Outpoint × (TransactionRow × OutputRow),
      (∀ spend ∈ (ledger tables).spent, spend.1 = coin.1 →
        (!((tables.transactions.filter doomed).map TransactionRow.id).contains
          spend.2.transactionId) = false) ↔
      ∀ input ∈ tables.inputs, (input.spentTxid, input.spentVout) = coin.1 →
        (transactionOf tables input.transactionId).any doomed = true := by
    intro coin
    simp only [ledger, List.forall_mem_map, contains_deleted keyed, Bool.not_eq_false']
  rw [getUtxosByAddrs_eq_unspent, ledger_deleteTransactions keyed]
  simp only [List.mem_map, List.mem_filter, Coins.Ledger.mem_unspent_forget, spends,
    Bool.not_eq_true']
  constructor
  · rintro ⟨coin, ⟨⟨created, spared, spent⟩, asked⟩, rfl⟩
    exact ⟨coin, created, rfl, asked, spared, spent⟩
  · rintro ⟨coin, created, rfl, asked, spared, spent⟩
    exact ⟨coin, ⟨⟨created, spared, spent⟩, asked⟩, rfl⟩

/-- After `delete_orphans`, `GetUtxosByAddrs` lists the coins to the addresses of the transactions
outside orphaned blocks that no transaction outside orphaned blocks spends: a coin that only
orphaned transactions spent is unspent again. -/
theorem mem_getUtxosByAddrs_deleteOrphans (blocks : Txo.Table) (addrs : List String)
    (keyed : tables.keys.Keyed) {utxo : Utxo} :
    utxo ∈ getUtxosByAddrs blocks (deleteOrphans blocks tables) addrs ↔
      ∃ coin ∈ (ledger tables).created, utxo = scanUtxo blocks coin.2.1 coin.2.2 ∧
        addrs.contains coin.2.2.address = true ∧
        Txo.TxTables.inOrphanedBlock blocks coin.2.1.key = false ∧
        ∀ input ∈ tables.inputs, (input.spentTxid, input.spentVout) = coin.1 →
          Txo.TxTables.orphanedTransaction blocks tables.keys input.transactionId = true := by
  rw [deleteOrphans_eq, Tables.deleteOrphanedTransactions,
    mem_getUtxosByAddrs_deleteTransactions blocks addrs keyed]
  simp only [orphanedTransaction_keys, contains_deleted keyed]

/-- Block `1` is live and block `2` orphaned. -/
def reorgBlocks : Txo.Table :=
  ⟨[⟨1, "h1", 1, "h0", "", false⟩, ⟨2, "h2", 2, "h1", "", true⟩], 3⟩

/-- Transaction `a` of block `1`, which pays two coins to `x`. -/
def paidTx : TransactionRow :=
  ⟨1, some 0, some 1, "a", "a", 1, 100, 100, 400, 0, ""⟩

def paidOutput (vout : Int) : OutputRow :=
  ⟨1, vout, 5, "", "", 1, "pubkeyhash", "x", none⟩

/-- `b`, in the orphaned block, spends the first coin of `a`; `c`, in no block, the second. -/
def reorgTables : Tables :=
  ⟨[paidTx, ⟨2, some 0, some 2, "b", "b", 1, 100, 100, 400, 0, ""⟩,
      ⟨3, none, none, "c", "c", 1, 100, 100, 400, 0, ""⟩],
    [⟨2, 0, "a", 0, "", "", 0, none, none⟩, ⟨3, 0, "a", 1, "", "", 0, none, none⟩],
    [paidOutput 0, paidOutput 1], 4⟩

/-- The coin that only the orphaned `b` spent is listed again after `delete_orphans`. -/
theorem deleteOrphans_returns_coin :
    scanUtxo reorgBlocks paidTx (paidOutput 0) ∉ getUtxosByAddrs reorgBlocks reorgTables ["x"] ∧
      scanUtxo reorgBlocks paidTx (paidOutput 0) ∈
        getUtxosByAddrs reorgBlocks (deleteOrphans reorgBlocks reorgTables) ["x"] := by
  refine ⟨by decide, (mem_getUtxosByAddrs_deleteOrphans reorgBlocks ["x"] ⟨by decide, by decide⟩).mpr ?_⟩
  exact ⟨(("a", 0), (paidTx, paidOutput 0)), by decide, rfl, by decide, by decide, by decide⟩

/-- After `delete_invalid_txs(in_ids)`, `GetUtxosByAddrs` lists the coins to the addresses of the
transactions that stay, each of whose spenders was a listed transaction outside any block: the
coins a dropped mempool transaction spent are unspent again. -/
theorem mem_getUtxosByAddrs_deleteInvalidTxs (blocks : Txo.Table) (addrs : List String)
    (inIds : List Nat) (keyed : tables.keys.Keyed) {utxo : Utxo} :
    utxo ∈ getUtxosByAddrs blocks (deleteInvalidTxs tables inIds) addrs ↔
      ∃ coin ∈ (ledger tables).created, utxo = scanUtxo blocks coin.2.1 coin.2.2 ∧
        addrs.contains coin.2.2.address = true ∧
        (inIds.contains coin.2.1.id && coin.2.1.blockId.isNone) = false ∧
        ∀ input ∈ tables.inputs, (input.spentTxid, input.spentVout) = coin.1 →
          (transactionOf tables input.transactionId).any
            (fun row => inIds.contains row.id && row.blockId.isNone) = true :=
  mem_getUtxosByAddrs_deleteTransactions blocks addrs keyed _

/-- The coin that the mempool transaction `c` spent is listed again once `c` is dropped. -/
theorem deleteInvalidTxs_returns_coin :
    scanUtxo reorgBlocks paidTx (paidOutput 1) ∉ getUtxosByAddrs reorgBlocks reorgTables ["x"] ∧
      scanUtxo reorgBlocks paidTx (paidOutput 1) ∈
        getUtxosByAddrs reorgBlocks (deleteInvalidTxs reorgTables [3]) ["x"] := by
  refine ⟨by decide,
    (mem_getUtxosByAddrs_deleteInvalidTxs reorgBlocks ["x"] [3] ⟨by decide, by decide⟩).mpr ?_⟩
  exact ⟨(("a", 1), (paidTx, paidOutput 1)), by decide, rfl, by decide, by decide, by decide⟩

end Postgres
end Coinquery
