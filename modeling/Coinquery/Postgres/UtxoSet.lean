import Coinquery.Postgres.Queries

/-!
# The UTXO set through `InsertTx`

`InsertTx` of a new transaction appends one transaction row and a row for each input and output
(`insertTx_appends`), so it records the transaction in the ledger of the tables: its inputs spend
the outpoints they name and its outputs are new coins (`ledger_insertTx`). Through
`getUtxosByAddrs_eq_unspent`, the outputs `GetUtxosByAddrs` lists afterwards are those it listed
before less the ones the transaction spends, and the transaction's own outputs to the addresses
that no stored input spends (`getUtxosByAddrs_insertTx`).

`InsertTx` of a txid already stored moves it to the block it is given: the coins and the spends
stay, and only the heights `GetUtxosByAddrs` reads for that transaction change
(`getUtxosByAddrs_insertTx_stored`). That is the path of a mempool transaction when its block
arrives.

The query has no `ORDER BY`, so the two results are compared as multisets (`List.Perm`): the model
reads the rows in table order, and the order of the rows is not part of either statement.
-/

namespace Coinquery
namespace Postgres

open Jsonb Txo.Columns

/-! ## What a call that succeeds stores -/

section Stores

variable {attempts : Int} {tables after : Tables} {tx : Tx} {txIndex blockId : Int}

/-- A call of `InsertTx` that succeeds converted every value and ran `transaction_insert` once,
with the block id and the index it was given. -/
theorem insertTx_transactionInsert (inserted : insertTx attempts tables tx txIndex blockId = some (.ok after)) :
    ∃ outputs, voutOutputs tx.vouts = some (.ok outputs) ∧
      transactionInsert tables blockId (txObject tx outputs) tx.hex txIndex = .ok after := by
  obtain ⟨converted, converted_ok, stored⟩ := Option.map_eq_some_iff.mp inserted
  cases converted with
  | error cause => cases stored
  | ok outputs =>
      refine ⟨outputs, converted_ok, ?_⟩
      dsimp only at stored
      rw [retrySimple_eq] at stored
      obtain ⟨inBlockId, checked_block, rest⟩ := bind_eq_ok.mp (mapError_eq_ok.mp stored)
      obtain ⟨inTransactionIndex, checked_index, executed⟩ := bind_eq_ok.mp rest
      rwa [← (check_eq_ok.mp checked_block).2, ← (check_eq_ok.mp checked_index).2] at executed

theorem fieldText_txObject (outputs : List Output) :
    (txObject tx outputs).fieldText "txid" = some tx.txId := by
  simp [txObject, Json.fieldText, Json.field]

/-- A new txid is stored as one more transaction row, in the block `in_block_id` names. -/
theorem transactionInsert_new_row {inBlockId inTransactionIndex : Int} {inTxDef : Json}
    {inRawTransaction txid : String} (named : inTxDef.fieldText "txid" = some txid)
    (fresh : tables.selectId txid = none)
    (inserted : transactionInsert tables inBlockId inTxDef inRawTransaction inTransactionIndex =
      .ok after) :
    ∃ row : TransactionRow, after.transactions = tables.transactions ++ [row] ∧
      row.blockId = Txo.nullIfMinusOne inBlockId := by
  obtain ⟨read, read_named, ⟨_, row, withInputs, built, _, inputs_ok, outputs_ok⟩ |
    ⟨id, stored, _⟩⟩ := transactionInsert_cases inserted
  · obtain ⟨_, _, rfl⟩ := inputInsert_eq_ok.mp inputs_ok
    obtain ⟨_, _, rfl⟩ := outputInsert_eq_ok.mp outputs_ok
    exact ⟨row, rfl, congrArg Txo.TransactionRow.blockId (transactionValues_key built)⟩
  · rw [Option.some.inj (read_named.symm.trans named), fresh] at stored
    cases stored

/-- On consistent tables, `InsertTx` of a new txid whose vout numbers are distinct appends the
transaction, every input it writes and every output. -/
theorem insertTx_appends (consistent : tables.Consistent) (fresh : tables.selectId tx.txId = none)
    (distinct : (tx.vouts.map Vout.n).Nodup)
    (inserted : insertTx attempts tables tx txIndex blockId = some (.ok after)) :
    ∃ row sats, row.id = tables.nextId ∧ row.txid = tx.txId ∧
      row.blockId = Txo.nullIfMinusOne blockId ∧
      List.Forall₂ (fun out s => Convert.toSatoshi out.value = some (s, none)) tx.vouts sats ∧
      after.transactions = tables.transactions ++ [row] ∧
      after.inputs = tables.inputs ++ (tx.vins.mapIdx fun k vin => vin.input k).map
        (·.row tables.nextId) ∧
      after.outputs = tables.outputs ++ (List.zipWith Vout.output tx.vouts sats).map
        (·.row tables.nextId) := by
  obtain ⟨outputs, converted, stored⟩ := insertTx_transactionInsert inserted
  obtain ⟨sats, sats_ok, rfl⟩ := voutOutputs_eq_ok converted
  obtain ⟨row, row_id, row_txid, transactions, inputs_after, outputs_after⟩ :=
    transactionInsert_txObject fresh stored
  obtain ⟨blockRow, block_transactions, block_id⟩ :=
    transactionInsert_new_row (fieldText_txObject _) fresh stored
  -- both lemmas name the one appended row
  have same_row : blockRow = row := by
    rw [transactions] at block_transactions
    exact (List.cons.inj (List.append_cancel_left block_transactions)).1.symm
  have written_distinct : ((tx.vins.mapIdx fun k vin => vin.input k).map Input.vin).Nodup := by
    rw [map_vin_mapIdx]
    exact List.nodup_range.map Nat.cast_injective
  rw [foldl_insertCatching_inputs consistent written_distinct] at inputs_after
  rw [foldl_insertCatching_outputs consistent (by rwa [map_vout_zipWith sats_ok])] at outputs_after
  exact ⟨row, sats, row_id, row_txid, same_row ▸ block_id, sats_ok, transactions, inputs_after,
    outputs_after⟩

end Stores

/-- With one row appended whose id is above every stored one, the join on `transaction.id` finds
the new row for its id and the stored row for every other. -/
theorem transactionOf_append {tables after : Tables} {row : TransactionRow}
    (transactions : after.transactions = tables.transactions ++ [row])
    (below : ∀ tx ∈ tables.transactions, tx.id < row.id) (id : Nat) :
    transactionOf after id = if id = row.id then some row else transactionOf tables id := by
  unfold transactionOf
  rw [transactions, List.find?_append]
  split
  · rename_i new
    subst new
    have none_stored : tables.transactions.find? (fun tx => tx.id == row.id) = none :=
      List.find?_eq_none.mpr fun tx member => by simpa using Nat.ne_of_lt (below tx member)
    simp [none_stored]
  · rename_i other
    cases tables.transactions.find? (fun tx => tx.id == id) <;> simp [Ne.symm other]

/-! ## The ledger after `InsertTx` -/

/-- The spends `InsertTx` records for `tx` stored as transaction `transactionId`: one for each
input, under the outpoint it names. -/
def insertedSpends (tx : Tx) (transactionId : Nat) : List (Outpoint × InputRow) :=
  (tx.vins.mapIdx fun k vin => vin.input k).map fun input =>
    ((input.spentTx, input.spentVout), input.row transactionId)

/-- The coins `InsertTx` records for `tx` stored as `row`, its outputs being worth `sats`. -/
def insertedCoins (tx : Tx) (row : TransactionRow) (sats : List Int) :
    List (Outpoint × (TransactionRow × OutputRow)) :=
  (List.zipWith Vout.output tx.vouts sats).map fun output =>
    ((tx.txId, output.vout), (row, output.row row.id))

theorem map_fst_insertedSpends (tx : Tx) (transactionId : Nat) :
    (insertedSpends tx transactionId).map Prod.fst = tx.vins.map fun vin => (vin.txId, vin.vout) := by
  apply List.ext_getElem
  · simp [insertedSpends]
  · intro k _ _
    simp [insertedSpends, Vin.input]

/-- On consistent tables, `InsertTx` of a new txid with distinct vout numbers records the
transaction in the ledger: its inputs spend the outpoints they name and its outputs are coins under
`(txid, N)`. -/
theorem ledger_insertTx {attempts : Int} {tables after : Tables} {tx : Tx} {txIndex blockId : Int}
    (consistent : tables.Consistent) (fresh : tables.selectId tx.txId = none)
    (distinct : (tx.vouts.map Vout.n).Nodup)
    (inserted : insertTx attempts tables tx txIndex blockId = some (.ok after)) :
    ∃ row sats, row.txid = tx.txId ∧ row.blockId = Txo.nullIfMinusOne blockId ∧
      List.Forall₂ (fun out s => Convert.toSatoshi out.value = some (s, none)) tx.vouts sats ∧
      ledger after = (ledger tables).record (insertedSpends tx row.id) (insertedCoins tx row sats) := by
  obtain ⟨row, sats, row_id, row_txid, row_block, sats_ok, transactions, inputs, outputs⟩ :=
    insertTx_appends consistent fresh distinct inserted
  refine ⟨row, sats, row_txid, row_block, sats_ok, ?_⟩
  have lookup := transactionOf_append transactions fun stored member =>
    row_id ▸ Tables.Stored.below consistent.keyed ⟨stored, member, rfl⟩
  have created_stored : (tables.outputs.filterMap fun output =>
      (transactionOf after output.transactionId).map fun joined =>
        ((joined.txid, output.vout), (joined, output))) =
      (ledger tables).created := by
    apply List.filterMap_congr
    intro output member
    rw [lookup, if_neg (row_id ▸ Nat.ne_of_lt (consistent.outputs_below output member))]
  have created_new : (((List.zipWith Vout.output tx.vouts sats).map (·.row tables.nextId)).filterMap
      fun output => (transactionOf after output.transactionId).map fun joined =>
        ((joined.txid, output.vout), (joined, output))) = insertedCoins tx row sats := by
    rw [List.filterMap_map, insertedCoins, ← List.filterMap_eq_map]
    apply List.filterMap_congr
    intro output _
    simp [lookup, Output.row, row_id, row_txid]
  simp only [ledger, Coins.Ledger.record, outputs, inputs, List.filterMap_append, created_stored,
    created_new, List.map_append, List.map_map, insertedSpends, row_id]
  rfl

/-- `InsertTx` of `oneInputTx` into empty tables stores `oneInputTables`. -/
theorem insertTx_oneInputTx : insertTx 1 Tables.empty oneInputTx 0 1 = some (.ok oneInputTables) := by
  simp only [insertTx, retrySimple_eq]
  decide +kernel

/-- After `InsertTx` of a new txid with distinct vout numbers on consistent tables,
`GetUtxosByAddrs` lists, in some order, the outputs it listed before that the transaction does not
spend and the transaction's outputs to the addresses that no stored input spends, in the block
`blockID` names. -/
theorem getUtxosByAddrs_insertTx (blocks : Txo.Table) (addrs : List String) {attempts : Int}
    {tables after : Tables} {tx : Tx} {txIndex blockId : Int} (consistent : tables.Consistent)
    (fresh : tables.selectId tx.txId = none) (distinct : (tx.vouts.map Vout.n).Nodup)
    (inserted : insertTx attempts tables tx txIndex blockId = some (.ok after)) :
    ∃ row sats, row.txid = tx.txId ∧ row.blockId = Txo.nullIfMinusOne blockId ∧
      List.Forall₂ (fun out s => Convert.toSatoshi out.value = some (s, none)) tx.vouts sats ∧
      (getUtxosByAddrs blocks after addrs).Perm
        ((getUtxosByAddrs blocks tables addrs).filter (fun utxo =>
            !(tx.vins.map fun vin => (vin.txId, vin.vout)).contains (utxo.txID, utxo.vout)) ++
          (((List.zipWith Vout.output tx.vouts sats).filter fun output =>
              addrs.contains output.address && !spentBy after tx.txId output.vout).map
            fun output => scanUtxo blocks row (output.row row.id))) := by
  obtain ⟨row, sats, row_txid, row_block, sats_ok, recorded⟩ :=
    ledger_insertTx consistent fresh distinct inserted
  -- in the model's table order the two lists are equal
  refine ⟨row, sats, row_txid, row_block, sats_ok, .of_eq ?_⟩
  rw [getUtxosByAddrs_eq_unspent, getUtxosByAddrs_eq_unspent, recorded, Coins.Ledger.unspent_record,
    map_fst_insertedSpends, List.filter_append, List.map_append]
  congr 1
  · -- a coin that stays is keyed by the txid and the vout its row of `GetUtxosByAddrs` shows
    rw [List.filter_filter, List.filter_map, List.filter_filter]
    congr 1
    apply List.filter_congr
    intro coin member
    rw [key_of_mem_created (Coins.Ledger.mem_unspent.mp member).1]
    simp [scanUtxo, Bool.and_comm]
  · rw [insertedCoins, List.filter_map, List.filter_map, List.map_map, List.filter_filter]
    congr 1
    apply List.filter_congr
    intro output _
    rw [spentBy_eq_contains, recorded, Coins.Ledger.spentKeys_record, map_fst_insertedSpends]
    simp [Output.row]

theorem getUtxosByAddrs_insertTx_oneInput :
    ∃ row sats, row.txid = oneInputTx.txId ∧ row.blockId = Txo.nullIfMinusOne 1 ∧
      List.Forall₂ (fun out s => Convert.toSatoshi out.value = some (s, none)) oneInputTx.vouts sats ∧
      (getUtxosByAddrs ⟨[], 1⟩ oneInputTables ["x"]).Perm
        ((getUtxosByAddrs ⟨[], 1⟩ Tables.empty ["x"]).filter (fun utxo =>
            !(oneInputTx.vins.map fun vin => (vin.txId, vin.vout)).contains (utxo.txID, utxo.vout)) ++
          (((List.zipWith Vout.output oneInputTx.vouts sats).filter fun output =>
              ["x"].contains output.address && !spentBy oneInputTables oneInputTx.txId output.vout).map
            fun output => scanUtxo ⟨[], 1⟩ row (output.row row.id))) :=
  getUtxosByAddrs_insertTx ⟨[], 1⟩ ["x"] Tables.Consistent.empty (by decide) (by decide)
    insertTx_oneInputTx

/-! ## `InsertTx` of a stored txid -/

/-- The txids of the stored transactions are distinct, as the `UNIQUE` constraint on `txid` keeps
them. -/
def TxidsDistinct (tables : Tables) : Prop :=
  (tables.transactions.map (·.txid)).Nodup

theorem TxidsDistinct.transactionInsert {tables after : Tables} (distinct : TxidsDistinct tables)
    {inBlockId inTransactionIndex : Int} {inTxDef : Json} {inRawTransaction : String}
    (inserted : transactionInsert tables inBlockId inTxDef inRawTransaction inTransactionIndex =
      .ok after) :
    TxidsDistinct after := by
  obtain ⟨txid, _, ⟨fresh, row, withInputs, built, _, inputs_ok, outputs_ok⟩ |
    ⟨id, _, ⟨_, rfl⟩ | ⟨_, rfl⟩⟩⟩ := transactionInsert_cases inserted
  · obtain ⟨_, _, rfl⟩ := inputInsert_eq_ok.mp inputs_ok
    obtain ⟨_, _, rfl⟩ := outputInsert_eq_ok.mp outputs_ok
    have row_txid : row.txid = txid := congrArg Txo.TransactionRow.txid (transactionValues_key built)
    -- `SELECT id INTO … WHERE txid = …` found no row of the new txid
    have absent : ∀ stored ∈ tables.transactions, stored.txid ≠ txid := by
      simpa [Tables.selectId, List.find?_eq_none] using fresh
    show ((tables.transactions ++ [row]).map (·.txid)).Nodup
    rw [List.map_append, List.map_singleton, row_txid]
    refine List.nodup_append.mpr ⟨distinct, List.nodup_singleton _, ?_⟩
    intro old old_member new new_member same
    obtain ⟨stored, member, rfl⟩ := List.mem_map.mp old_member
    exact absent stored member (same.trans (List.mem_singleton.mp new_member))
  · -- moving a transaction to a block keeps every txid
    unfold TxidsDistinct at distinct ⊢
    unfold Tables.updateBlock
    rw [List.map_map]
    convert distinct using 1
    apply List.map_congr_left
    intro stored _
    simp only [Function.comp_apply]
    split <;> rfl
  · exact distinct

/-- `InsertTx` of a stored txid moves the transaction to the block `blockID` names, or leaves the
tables as they are for `-1`. -/
theorem insertTx_of_stored {attempts : Int} {tables after : Tables} {tx : Tx} {txIndex blockId : Int}
    {id : Nat} (stored : tables.selectId tx.txId = some id)
    (inserted : insertTx attempts tables tx txIndex blockId = some (.ok after)) :
    after = if blockId = -1 then tables
      else tables.updateBlock id (some blockId) (Txo.nullIfMinusOne txIndex) := by
  obtain ⟨outputs, _, executed⟩ := insertTx_transactionInsert inserted
  obtain ⟨txid, named, ⟨fresh, _⟩ | ⟨found, selected, ⟨moved, rfl⟩ | ⟨unmoved, rfl⟩⟩⟩ :=
    transactionInsert_cases executed
  · rw [fieldText_txObject] at named
    obtain rfl := Option.some.inj named
    rw [stored] at fresh
    cases fresh
  · rw [fieldText_txObject] at named
    obtain rfl := Option.some.inj named
    rw [stored] at selected
    cases selected
    have block : blockId ≠ -1 := by
      intro minus_one
      simp [Txo.nullIfMinusOne, minus_one] at moved
    simp [block, Txo.nullIfMinusOne]
  · have block : blockId = -1 := by
      by_contra other
      simp [Txo.nullIfMinusOne, other] at unmoved
    simp [block]

theorem transactionOf_updateBlock (tables : Tables) (id : Nat) (blockId index : Option Int)
    (transactionId : Nat) :
    transactionOf (tables.updateBlock id blockId index) transactionId =
      (transactionOf tables transactionId).map fun row =>
        if row.id == id then { row with blockId := blockId, index := index } else row := by
  unfold transactionOf Tables.updateBlock
  rw [List.find?_map]
  congr 2
  funext row
  simp only [Function.comp_apply]
  split <;> rfl

/-- In consistent tables whose txids are distinct, the row `SELECT id INTO` finds for a txid is
the one row of that txid. -/
theorem id_eq_iff_txid_eq {tables : Tables} (consistent : tables.Consistent)
    (distinct : TxidsDistinct tables) {txid : String} {id : Nat}
    (stored : tables.selectId txid = some id) {row : TransactionRow}
    (member : row ∈ tables.transactions) : row.id = id ↔ row.txid = txid := by
  obtain ⟨found, found_member, found_id, found_txid⟩ :=
    Txo.TxTables.txid_of_selectId ((selectId_keys tables txid).trans stored)
  obtain ⟨selected, selected_member, rfl⟩ := List.mem_map.mp found_member
  have ids := consistent.keyed.1
  simp only [Tables.keys, List.map_map] at ids
  constructor
  · intro same_id
    have same : row = selected :=
      List.inj_on_of_nodup_map ids member selected_member (same_id.trans found_id.symm)
    rw [same]
    exact found_txid
  · intro same_txid
    have same : row = selected :=
      List.inj_on_of_nodup_map distinct member selected_member (same_txid.trans found_txid.symm)
    rw [same]
    exact found_id

/-- On consistent tables with distinct txids, `InsertTx` of a stored txid with a block keeps every
output `GetUtxosByAddrs` lists, as a multiset, and moves the outputs of that transaction to the
heights of the block; with `-1` nothing changes. -/
theorem getUtxosByAddrs_insertTx_stored (blocks : Txo.Table) (addrs : List String) {attempts : Int}
    {tables after : Tables} {tx : Tx} {txIndex blockId : Int} (consistent : tables.Consistent)
    (distinct : TxidsDistinct tables) {id : Nat} (stored : tables.selectId tx.txId = some id)
    (inserted : insertTx attempts tables tx txIndex blockId = some (.ok after)) :
    (getUtxosByAddrs blocks after addrs).Perm
      ((getUtxosByAddrs blocks tables addrs).map fun utxo =>
        if utxo.txID = tx.txId ∧ blockId ≠ -1 then
          { utxo with blockHeight := heightOrMinusOne (liveBlockOf blocks (some blockId)) }
        else utxo) := by
  -- in the model's table order the two lists are equal
  refine .of_eq ?_
  rw [insertTx_of_stored stored inserted]
  split
  · rename_i unmoved
    simp [unmoved]
  · rename_i moved
    unfold getUtxosByAddrs
    rw [List.map_filterMap]
    apply List.filterMap_congr
    intro output _
    rw [transactionOf_updateBlock]
    cases joined : transactionOf tables output.transactionId with
    | none => rfl
    | some row =>
        have member : row ∈ tables.transactions := List.mem_of_find?_eq_some joined
        have moves := id_eq_iff_txid_eq consistent distinct stored member
        -- the move changes no input, so what is spent stays spent
        have spent_same : spentBy (tables.updateBlock id (some blockId) (Txo.nullIfMinusOne txIndex))
            = spentBy tables := rfl
        by_cases same : row.txid = tx.txId <;>
          simp [spent_same, moves, same, moved, scanUtxo, apply_ite]

theorem consistent_oneInputTables : oneInputTables.Consistent := by
  obtain ⟨_, _, stored⟩ := insertTx_transactionInsert insertTx_oneInputTx
  exact Tables.Consistent.empty.transactionInsert stored

/-- The live block `7`. -/
def blockSeven : Txo.Table :=
  ⟨[⟨7, "h7", 7, "h6", "", false⟩], 8⟩

/-- `oneInputTx`, stored in block `1`, is inserted again with block `7`: its coin moves to the
height of block `7`. -/
theorem getUtxosByAddrs_insertTx_stored_oneInput :
    (getUtxosByAddrs blockSeven (oneInputTables.updateBlock 1 (some 7) (some 0)) ["x"]).Perm
      ((getUtxosByAddrs blockSeven oneInputTables ["x"]).map fun utxo =>
        if utxo.txID = oneInputTx.txId ∧ (7 : Int) ≠ -1 then
          { utxo with blockHeight := heightOrMinusOne (liveBlockOf blockSeven (some 7)) }
        else utxo) := by
  have inserted : insertTx 1 oneInputTables oneInputTx 0 7 =
      some (.ok (oneInputTables.updateBlock 1 (some 7) (some 0))) := by
    simp only [insertTx, retrySimple_eq]
    decide +kernel
  exact getUtxosByAddrs_insertTx_stored blockSeven ["x"] consistent_oneInputTables
    (by unfold TxidsDistinct; decide) (by decide : oneInputTables.selectId oneInputTx.txId = some 1)
    inserted

end Postgres
end Coinquery
