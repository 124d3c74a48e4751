import Coinquery.Txo.Transaction
import Mathlib.Logic.Relation

/-!
# `delete_orphans` and `delete_invalid_txs` next to `transaction_insert`

The monitor's `handleOrphans` calls `delete_orphans()` (`function-delete-orphans.sql`) after a
reorganisation; the txvalidator calls `delete_invalid_txs(ids)`; the indexer's workers call
`transaction_insert`. Each function runs as one database transaction, and under READ COMMITTED
each of its statements reads what other transactions committed before the statement began, so
the three functions interleave statement by statement.

`Cleanup` runs a set of calls, each a PL/pgSQL program counter, one statement at a time. A
statement reads and writes the shared tables at once: the model does not hold back a call's writes
until it commits. Run one after the other, the calls keep every transaction with its inputs and
outputs (`serial_keeps_transactions`, from the invariant `Complete`). Interleaved, the three
`DELETE`s of `delete_orphans` each select the orphaned transactions anew, and a transaction that
`transaction_insert` moves to a live block in between loses its inputs:
`orphan_cleanup_loses_inputs`.
-/

namespace Coinquery
namespace Txo

namespace TxTables

/-- `JOIN block ON transaction.block_id = block.id WHERE is_orphaned = true`. -/
def inOrphanedBlock (blocks : Table) (row : TransactionRow) : Bool :=
  blocks.rows.any fun block => row.blockId == some (block.id : Int) && block.isOrphaned

/-- `JOIN transaction ON transaction_id = transaction.id` followed by the join with `block`: the
transaction `transactionId` is stored in an orphaned block. -/
def orphanedTransaction (blocks : Table) (tables : TxTables) (transactionId : Nat) : Bool :=
  tables.transactions.any fun row => row.id == transactionId && inOrphanedBlock blocks row

/-- The `WHERE … IN (SELECT …)` of the first two `DELETE`s of `delete_orphans`: the rows of
`rows` whose transaction is not stored in an orphaned block are kept. -/
def withoutOrphaned {α : Type} (blocks : Table) (tables : TxTables) (rows : List α)
    (transactionId : α → Nat) : List α :=
  rows.filter fun row => !orphanedTransaction blocks tables (transactionId row)

/-- The first `DELETE` of `delete_orphans`. -/
def deleteOrphanedInputs (tables : TxTables) (blocks : Table) : TxTables :=
  { tables with inputs := withoutOrphaned blocks tables tables.inputs InputRow.transactionId }

/-- The second `DELETE` of `delete_orphans`. -/
def deleteOrphanedOutputs (tables : TxTables) (blocks : Table) : TxTables :=
  { tables with outputs := withoutOrphaned blocks tables tables.outputs OutputRow.transactionId }

/-- `DELETE FROM transaction WHERE …`; `ON DELETE CASCADE` removes the inputs and outputs of the
deleted rows. -/
def deleteTransactions (tables : TxTables) (doomed : TransactionRow → Bool) : TxTables :=
  let deleted := (tables.transactions.filter doomed).map TransactionRow.id
  { tables with
    transactions := tables.transactions.filter fun row => !doomed row
    inputs := tables.inputs.filter fun input => !deleted.contains input.transactionId
    outputs := tables.outputs.filter fun output => !deleted.contains output.transactionId }

/-- The third `DELETE` of `delete_orphans`. -/
def deleteOrphanedTransactions (tables : TxTables) (blocks : Table) : TxTables :=
  tables.deleteTransactions (inOrphanedBlock blocks)

end TxTables

/-- `delete_orphans()`, its three statements run back to back. -/
def deleteOrphans (blocks : Table) (tables : TxTables) : TxTables :=
  ((tables.deleteOrphanedInputs blocks).deleteOrphanedOutputs blocks).deleteOrphanedTransactions blocks

/-- `delete_invalid_txs(in_ids)`: `DELETE FROM transaction WHERE id = ANY(in_ids) AND block_id IS
NULL`. -/
def deleteInvalidTxs (tables : TxTables) (inIds : List Nat) : TxTables :=
  tables.deleteTransactions fun row => inIds.contains row.id && row.blockId.isNone

/-! ## Calls, statement by statement -/

/-- The block id `inBlockId` names a live block. -/
def LiveBlock (blocks : Table) (inBlockId : Int) : Prop :=
  ∃ row ∈ blocks.rows, (row.id : Int) = inBlockId ∧ row.isOrphaned = false

/-- A call of one of the three functions. -/
inductive Call
  | transactionInsert (inBlockId : Int) (inTxDef : TxDef) (inTransactionIndex : Int)
  | deleteOrphans
  | deleteInvalidTxs (inIds : List Nat)
  deriving DecidableEq, Repr

/-- A call run alone. A `transaction_insert` that raises changes nothing. -/
def Call.apply (blocks : Table) (tables : TxTables) : Call → TxTables
  | .transactionInsert inBlockId inTxDef inTransactionIndex =>
      match Txo.transactionInsert tables inBlockId inTxDef inTransactionIndex with
      | .ok after => after
      | .error _ => tables
  | .deleteOrphans => Txo.deleteOrphans blocks tables
  | .deleteInvalidTxs inIds => Txo.deleteInvalidTxs tables inIds

/-- Tables that earlier calls, each run alone, built from the empty tables. -/
def Prior (blocks : Table) : TxTables → Prop :=
  Relation.ReflTransGen (fun tables after => ∃ call : Call, after = call.apply blocks tables)
    TxTables.empty

/-- The statement a call runs next, with the values of its PL/pgSQL variables. -/
inductive Pc
  | start
  /-- `transaction_insert` found no row: the `INSERT` is next. -/
  | insert (txid : String)
  /-- `input_insert` on the new row is next. -/
  | inputs (id : Nat)
  /-- `output_insert` on the new row is next. -/
  | outputs (id : Nat)
  /-- `transaction_insert` found the row `id` and has a block: the `UPDATE` is next. -/
  | update (id : Nat)
  /-- `delete_orphans` has deleted the inputs. -/
  | deleteOutputs
  /-- `delete_orphans` has deleted the outputs. -/
  | deleteTransactions
  | done
  deriving DecidableEq, Repr

/-- The next statement of `call` at `pc`, and where the call is after it. A call without a txid
raises before it writes anything. -/
def statement (blocks : Table) (tables : TxTables) : Call → Pc → Pc × TxTables
  | .transactionInsert inBlockId inTxDef _, .start =>
      match inTxDef.txid with
      | none => (.done, tables)
      | some txid =>
          match tables.selectId txid with
          | none => (.insert txid, tables)
          | some id => (if (nullIfMinusOne inBlockId).isSome then .update id else .done, tables)
  | .transactionInsert inBlockId _ inTransactionIndex, .insert txid =>
      let inserted :=
        tables.insertTransaction (nullIfMinusOne inTransactionIndex) (nullIfMinusOne inBlockId) txid
      (.inputs inserted.2, inserted.1)
  | .transactionInsert _ inTxDef _, .inputs id => (.outputs id, tables.inputInsert id inTxDef.vins)
  | .transactionInsert _ inTxDef _, .outputs id => (.done, tables.outputInsert id inTxDef.vouts)
  | .transactionInsert inBlockId _ inTransactionIndex, .update id =>
      (.done, tables.updateBlock id (nullIfMinusOne inBlockId) (nullIfMinusOne inTransactionIndex))
  | .deleteOrphans, .start => (.deleteOutputs, tables.deleteOrphanedInputs blocks)
  | .deleteOrphans, .deleteOutputs => (.deleteTransactions, tables.deleteOrphanedOutputs blocks)
  | .deleteOrphans, .deleteTransactions => (.done, tables.deleteOrphanedTransactions blocks)
  | .deleteInvalidTxs inIds, .start => (.done, deleteInvalidTxs tables inIds)
  | _, _ => (.done, tables)

/-- Calls running side by side on the tables. -/
structure Cleanup where
  tables : TxTables
  calls : List (Call × Pc)
  deriving DecidableEq, Repr

namespace Cleanup

def start (tables : TxTables) (calls : List Call) : Cleanup :=
  ⟨tables, calls.map fun call => (call, .start)⟩

/-- Call `i` runs its next statement. -/
def next (blocks : Table) (s : Cleanup) (i : Nat) : Option Cleanup :=
  match s.calls[i]? with
  | some (call, pc) =>
      if pc = .done then none
      else
        let ran := statement blocks s.tables call pc
        some ⟨ran.2, s.calls.set i (call, ran.1)⟩
  | none => none

def run (blocks : Table) : Cleanup → List Nat → Option Cleanup
  | s, [] => some s
  | s, i :: schedule => (s.next blocks i).bind fun s' => run blocks s' schedule

def Reachable (blocks : Table) (tables : TxTables) (calls : List Call) : Cleanup → Prop :=
  Relation.ReflTransGen (fun s s' => ∃ i, s.next blocks i = some s') (start tables calls)

/-- Every call has finished. -/
def Finished (s : Cleanup) : Prop :=
  ∀ entry ∈ s.calls, entry.2 = .done

instance (s : Cleanup) : Decidable s.Finished :=
  inferInstanceAs (Decidable (∀ entry ∈ s.calls, entry.2 = .done))

theorem reachable_of_run {blocks : Table} :
    ∀ {s s' : Cleanup} (schedule : List Nat), s.run blocks schedule = some s' →
      Relation.ReflTransGen (fun s s' => ∃ i, s.next blocks i = some s') s s'
  | s, s', [], ran => by
      cases ran
      exact .refl
  | s, s', i :: schedule, ran => by
      obtain ⟨middle, stepped, rest⟩ := Option.bind_eq_some_iff.mp ran
      exact .head ⟨i, stepped⟩ (reachable_of_run schedule rest)

end Cleanup

namespace TxTables

variable {blocks : Table} {tables : TxTables} {row : TransactionRow}

theorem mem_deleteTransactions {doomed : TransactionRow → Bool} :
    row ∈ (tables.deleteTransactions doomed).transactions ↔
      row ∈ tables.transactions ∧ doomed row = false := by
  simp [deleteTransactions]

/-- The inputs and outputs of a transaction that a `DELETE` spares survive its cascade. -/
theorem mem_cascade {α : Type} {rows : List α} {transactionId : α → Nat}
    {doomed : TransactionRow → Bool} (keyed : tables.Keyed) (member : row ∈ tables.transactions)
    (spared : doomed row = false) {child : α} (stored : child ∈ rows)
    (owned : transactionId child = row.id) :
    child ∈ rows.filter fun child =>
      !((tables.transactions.filter doomed).map TransactionRow.id).contains (transactionId child) := by
  have not_deleted : row.id ∉ (tables.transactions.filter doomed).map TransactionRow.id := by
    intro deleted
    obtain ⟨other, other_member, same_id⟩ := List.mem_map.mp deleted
    obtain ⟨other_stored, other_doomed⟩ := List.mem_filter.mp other_member
    rw [List.inj_on_of_nodup_map keyed.1 other_stored member same_id, spared] at other_doomed
    cases other_doomed
  exact List.mem_filter.mpr ⟨stored, by simpa [owned] using not_deleted⟩

/-- With distinct ids, the joins of the first two `DELETE`s select a transaction only through its
own row. -/
theorem orphanedTransaction_eq_false (keyed : tables.Keyed) (member : row ∈ tables.transactions)
    (spared : inOrphanedBlock blocks row = false) : orphanedTransaction blocks tables row.id = false := by
  rw [orphanedTransaction, List.any_eq_false]
  intro other other_member selected
  simp only [Bool.and_eq_true, beq_iff_eq] at selected
  rw [List.inj_on_of_nodup_map keyed.1 other_member member selected.1, spared] at selected
  cases selected.2

theorem mem_withoutOrphaned {α : Type} {rows : List α} {transactionId : α → Nat}
    (keyed : tables.Keyed) (member : row ∈ tables.transactions)
    (spared : inOrphanedBlock blocks row = false) {child : α} (stored : child ∈ rows)
    (owned : transactionId child = row.id) :
    child ∈ withoutOrphaned blocks tables rows transactionId :=
  List.mem_filter.mpr ⟨stored, by simp [owned, orphanedTransaction_eq_false keyed member spared]⟩

/-- A transaction stored in a live block is not in an orphaned one: block ids are distinct. -/
theorem inOrphanedBlock_eq_false (ids : (blocks.rows.map BlockRow.id).Nodup) {blockId : Int}
    (live : LiveBlock blocks blockId) (stored : row.blockId = some blockId) :
    inOrphanedBlock blocks row = false := by
  obtain ⟨block, member, same, fresh⟩ := live
  rw [inOrphanedBlock, List.any_eq_false]
  intro other other_member selected
  simp only [Bool.and_eq_true, beq_iff_eq, stored, Option.some.injEq] at selected
  have same_block : other = block :=
    List.inj_on_of_nodup_map ids other_member member (by omega)
  rw [same_block, fresh] at selected
  cases selected.2

theorem Keyed.deleteTransactions (keyed : tables.Keyed) (doomed : TransactionRow → Bool) :
    (tables.deleteTransactions doomed).Keyed :=
  ⟨keyed.1.sublist (List.filter_sublist.map _),
    fun row member => keyed.2 row (mem_deleteTransactions.mp member).1⟩

/-- Every stored transaction has the inputs and outputs of its definition in `defs`. -/
def Complete (defs : String → TxDef) (tables : TxTables) : Prop :=
  ∀ row ∈ tables.transactions, (∀ vin ∈ (defs row.txid).vins, ⟨row.id, vin⟩ ∈ tables.inputs) ∧
    ∀ vout ∈ (defs row.txid).vouts, ⟨row.id, vout⟩ ∈ tables.outputs

variable {defs : String → TxDef}

theorem Complete.deleteTransactions (keyed : tables.Keyed) (complete : Complete defs tables)
    (doomed : TransactionRow → Bool) : Complete defs (tables.deleteTransactions doomed) := by
  intro row member
  obtain ⟨stored, spared⟩ := mem_deleteTransactions.mp member
  obtain ⟨inputs, outputs⟩ := complete row stored
  exact ⟨fun vin listed => mem_cascade keyed stored spared (inputs vin listed) rfl,
    fun vout listed => mem_cascade keyed stored spared (outputs vout listed) rfl⟩

end TxTables

open TxTables

variable {blocks : Table} {tables : TxTables} {defs : String → TxDef}

/-- `delete_orphans` run alone keeps the inputs and outputs of every transaction it keeps: the
first two `DELETE`s select exactly the transactions the third deletes. -/
theorem TxTables.Complete.deleteOrphans (keyed : tables.Keyed) (complete : Complete defs tables) :
    Complete defs (deleteOrphans blocks tables) := by
  intro row member
  obtain ⟨stored, spared⟩ := mem_deleteTransactions.mp member
  obtain ⟨inputs, outputs⟩ := complete row stored
  exact ⟨fun vin listed => mem_cascade keyed stored spared
      (mem_withoutOrphaned keyed stored spared (inputs vin listed) rfl) rfl,
    fun vout listed => mem_cascade keyed stored spared
      (mem_withoutOrphaned keyed stored spared (outputs vout listed) rfl) rfl⟩

theorem TxTables.Complete.transactionInsert (complete : Complete defs tables) {inBlockId : Int}
    {inTxDef : TxDef} {inTransactionIndex : Int} {after : TxTables}
    (defined : ∀ txid, inTxDef.txid = some txid → inTxDef = defs txid)
    (inserted : transactionInsert tables inBlockId inTxDef inTransactionIndex = .ok after) :
    Complete defs after := by
  obtain ⟨txid, named, ⟨_, rfl⟩ | ⟨id, _, ⟨_, rfl⟩ | ⟨_, rfl⟩⟩⟩ := transactionInsert_cases inserted
  · intro row member
    simp only [outputInsert, inputInsert, insertTransaction, List.mem_append,
      List.mem_singleton] at member ⊢
    rcases member with old | rfl
    · obtain ⟨inputs, outputs⟩ := complete row old
      exact ⟨fun vin listed => mem_insertRows_of_mem (inputs vin listed),
        fun vout listed => mem_insertRows_of_mem (outputs vout listed)⟩
    · -- the new row gets the inputs and outputs of the call's definition
      rw [← defined txid named]
      exact ⟨fun vin listed => row_mem_insertRows listed,
        fun vout listed => row_mem_insertRows listed⟩
  · intro row member
    rcases mem_updateBlock member with old | ⟨old, old_member, _, same_id, same_txid, _⟩
    · exact complete row old
    · rw [same_id, same_txid]
      exact complete old old_member
  · exact complete

/-- The transaction `txid` is stored in the block `blockId`. -/
def Attached (blockId : Int) (txid : String) (tables : TxTables) : Prop :=
  ∃ row ∈ tables.transactions, row.txid = txid ∧ row.blockId = some blockId

theorem nullIfMinusOne_of_isSome {value : Int} (named : (nullIfMinusOne value).isSome) :
    nullIfMinusOne value = some value := by
  unfold nullIfMinusOne at named ⊢
  split
  · simp_all
  · rfl

/-- A `transaction_insert` that agrees on the block of `txid` leaves it in its block. -/
theorem Attached.transactionInsert {blockId : Int} {txid : String} (keyed : tables.Keyed)
    (attached : Attached blockId txid tables) {inBlockId : Int} {inTxDef : TxDef}
    {inTransactionIndex : Int} {after : TxTables}
    (agrees : inTxDef.txid = some txid → (nullIfMinusOne inBlockId).isSome → inBlockId = blockId)
    (inserted : transactionInsert tables inBlockId inTxDef inTransactionIndex = .ok after) :
    Attached blockId txid after := by
  obtain ⟨row, member, named, stored⟩ := attached
  obtain ⟨other, other_named, ⟨_, rfl⟩ | ⟨id, selected, ⟨moved, rfl⟩ | ⟨_, rfl⟩⟩⟩ :=
    transactionInsert_cases inserted
  · exact ⟨row, by simp [outputInsert, inputInsert, insertTransaction, member], named, stored⟩
  · -- the `UPDATE` rewrites `row` only when it is the row `SELECT … INTO` found
    by_cases same_id : row.id = id
    · have same_txid := eq_of_selectId keyed selected member same_id
      have block_eq := agrees (by rw [other_named, ← same_txid, named]) moved
      refine ⟨{ row with blockId := nullIfMinusOne inBlockId, index := nullIfMinusOne inTransactionIndex },
        List.mem_map.mpr ⟨row, member, by simp [same_id]⟩, named, ?_⟩
      rw [nullIfMinusOne_of_isSome moved, block_eq]
    · exact ⟨row, List.mem_map.mpr ⟨row, member, by simp [same_id]⟩, named, stored⟩
  · exact ⟨row, member, named, stored⟩

theorem Attached.deleteTransactions {blockId : Int} {txid : String}
    (attached : Attached blockId txid tables) {doomed : TransactionRow → Bool}
    (spared : ∀ row, row.blockId = some blockId → doomed row = false) :
    Attached blockId txid (tables.deleteTransactions doomed) := by
  obtain ⟨row, member, named, stored⟩ := attached
  exact ⟨row, mem_deleteTransactions.mpr ⟨member, spared row stored⟩, named, stored⟩

/-- The calls of `serial_keeps_transactions`: every `transaction_insert` passes the definition of
its txid and a live block or `-1`, and calls with a block agree on the block of a txid. -/
structure Consistent (blocks : Table) (defs : String → TxDef) (calls : List Call) : Prop where
  defined : ∀ inBlockId inTxDef inTransactionIndex txid,
    .transactionInsert inBlockId inTxDef inTransactionIndex ∈ calls → inTxDef.txid = some txid →
      inTxDef = defs txid
  live : ∀ inBlockId inTxDef inTransactionIndex,
    .transactionInsert inBlockId inTxDef inTransactionIndex ∈ calls →
      inBlockId = -1 ∨ LiveBlock blocks inBlockId
  oneBlock : ∀ inBlockId inTxDef inTransactionIndex inBlockId' inTxDef' inTransactionIndex' txid,
    .transactionInsert inBlockId inTxDef inTransactionIndex ∈ calls →
    .transactionInsert inBlockId' inTxDef' inTransactionIndex' ∈ calls →
    inTxDef.txid = some txid → inTxDef'.txid = some txid → inBlockId ≠ -1 → inBlockId' ≠ -1 →
      inBlockId = inBlockId'

theorem transactionInsert_of_txid {inTxDef : TxDef} {txid : String} (named : inTxDef.txid = some txid)
    (tables : TxTables) (inBlockId inTransactionIndex : Int) :
    ∃ after, transactionInsert tables inBlockId inTxDef inTransactionIndex = .ok after := by
  simp only [transactionInsert, named]
  split <;> exact ⟨_, rfl⟩

/-- One call of a consistent list keeps ids distinct and every transaction complete. -/
theorem Call.apply_keeps {call : Call} {calls : List Call} (consistent : Consistent blocks defs calls)
    (listed : call ∈ calls) (keyed : tables.Keyed) (complete : Complete defs tables) :
    (call.apply blocks tables).Keyed ∧ Complete defs (call.apply blocks tables) := by
  cases call with
  | transactionInsert inBlockId inTxDef inTransactionIndex =>
      simp only [Call.apply]
      split
      · rename_i after inserted
        exact ⟨keyed.transactionInsert inserted,
          complete.transactionInsert (consistent.defined _ _ _ · listed) inserted⟩
      · exact ⟨keyed, complete⟩
  | deleteOrphans => exact ⟨keyed.deleteTransactions _, complete.deleteOrphans keyed⟩
  | deleteInvalidTxs inIds => exact ⟨keyed.deleteTransactions _, complete.deleteTransactions keyed _⟩

/-- One call of a consistent list leaves a transaction in the live block of its calls. -/
theorem Attached.apply {call : Call} {calls : List Call} {blockId : Int} {txid : String}
    (ids : (blocks.rows.map BlockRow.id).Nodup) (listed : call ∈ calls) (keyed : tables.Keyed)
    (live : LiveBlock blocks blockId)
    (agreed : ∀ inBlockId inTxDef inTransactionIndex,
      .transactionInsert inBlockId inTxDef inTransactionIndex ∈ calls → inTxDef.txid = some txid →
        inBlockId ≠ -1 → inBlockId = blockId)
    (attached : Attached blockId txid tables) : Attached blockId txid (call.apply blocks tables) := by
  cases call with
  | transactionInsert inBlockId inTxDef inTransactionIndex =>
      simp only [Call.apply]
      split
      · rename_i after inserted
        refine attached.transactionInsert keyed (fun named moved => ?_) inserted
        refine agreed _ _ _ listed named fun minus => ?_
        rw [minus] at moved
        cases moved
      · exact attached
  | deleteOrphans =>
      exact attached.deleteTransactions fun row stored => inOrphanedBlock_eq_false ids live stored
  | deleteInvalidTxs inIds =>
      refine attached.deleteTransactions fun row stored => ?_
      simp [stored]

/-- A `transaction_insert` of `txid` in a live block stores it there. -/
theorem Attached.of_apply {inBlockId : Int} {inTxDef : TxDef} {inTransactionIndex : Int}
    {txid : String} (named : inTxDef.txid = some txid) (live : LiveBlock blocks inBlockId) :
    Attached inBlockId txid ((Call.transactionInsert inBlockId inTxDef inTransactionIndex).apply blocks tables) := by
  obtain ⟨after, inserted⟩ := transactionInsert_of_txid named tables inBlockId inTransactionIndex
  have not_minus : nullIfMinusOne inBlockId = some inBlockId := by
    obtain ⟨block, _, same, _⟩ := live
    rw [nullIfMinusOne, if_neg (by omega)]
  simp only [Call.apply, inserted]
  obtain ⟨other, other_named, ⟨_, rfl⟩ | ⟨id, selected, ⟨_, rfl⟩ | ⟨none_block, _⟩⟩⟩ :=
    transactionInsert_cases inserted
  · refine ⟨⟨tables.nextId, nullIfMinusOne inTransactionIndex, nullIfMinusOne inBlockId, other⟩,
      by simp [outputInsert, inputInsert, insertTransaction], ?_, not_minus⟩
    rw [named] at other_named
    exact (Option.some.inj other_named).symm
  · obtain ⟨found, found_member, found_id, found_txid⟩ := txid_of_selectId selected
    refine ⟨{ found with blockId := nullIfMinusOne inBlockId, index := nullIfMinusOne inTransactionIndex },
      List.mem_map.mpr ⟨found, found_member, by simp [found_id]⟩, ?_, not_minus⟩
    rw [named] at other_named
    exact found_txid.trans (Option.some.inj other_named).symm
  · rw [not_minus] at none_block
    cases none_block

/-- The run lemma of `Call.apply_keeps`: the calls of a consistent list, one after the other, keep
the ids distinct and every transaction complete. -/
theorem foldl_apply_keeps {calls : List Call} (consistent : Consistent blocks defs calls) :
    ∀ (rest : List Call) (tables : TxTables), (∀ call ∈ rest, call ∈ calls) →
      tables.Keyed → Complete defs tables →
      (rest.foldl (Call.apply blocks) tables).Keyed ∧
        Complete defs (rest.foldl (Call.apply blocks) tables)
  | [], _, _, keyed, complete => ⟨keyed, complete⟩
  | call :: rest, _, within, keyed, complete => by
      obtain ⟨keyed', complete'⟩ :=
        Call.apply_keeps consistent (within call List.mem_cons_self) keyed complete
      exact foldl_apply_keeps consistent rest _
        (fun other member => within other (List.mem_cons_of_mem _ member)) keyed' complete'

/-- The run lemma of `Attached.apply`: a transaction stays in the live block of its calls. -/
theorem Attached.foldl_apply {calls : List Call} {blockId : Int} {txid : String}
    (consistent : Consistent blocks defs calls) (ids : (blocks.rows.map BlockRow.id).Nodup)
    (live : LiveBlock blocks blockId)
    (agreed : ∀ inBlockId inTxDef inTransactionIndex,
      .transactionInsert inBlockId inTxDef inTransactionIndex ∈ calls → inTxDef.txid = some txid →
        inBlockId ≠ -1 → inBlockId = blockId) :
    ∀ (rest : List Call) (tables : TxTables), (∀ call ∈ rest, call ∈ calls) →
      tables.Keyed → Complete defs tables → Attached blockId txid tables →
      Attached blockId txid (rest.foldl (Call.apply blocks) tables)
  | [], _, _, _, _, attached => attached
  | call :: rest, _, within, keyed, complete, attached => by
      have listed := within call List.mem_cons_self
      obtain ⟨keyed', complete'⟩ := Call.apply_keeps consistent listed keyed complete
      exact Attached.foldl_apply consistent ids live agreed rest _
        (fun other member => within other (List.mem_cons_of_mem _ member)) keyed' complete'
        (attached.apply ids listed keyed live agreed)

/-- From the call that stores it on, a transaction inserted in a live block stays there. -/
theorem attached_foldl_of_mem {calls : List Call} {inBlockId : Int} {inTxDef : TxDef}
    {inTransactionIndex : Int} {txid : String} (consistent : Consistent blocks defs calls)
    (ids : (blocks.rows.map BlockRow.id).Nodup) (named : inTxDef.txid = some txid)
    (live : LiveBlock blocks inBlockId)
    (agreed : ∀ b tx i, .transactionInsert b tx i ∈ calls → tx.txid = some txid → b ≠ -1 →
      b = inBlockId) :
    ∀ (rest : List Call) (tables : TxTables), (∀ call ∈ rest, call ∈ calls) →
      .transactionInsert inBlockId inTxDef inTransactionIndex ∈ rest → tables.Keyed →
      Complete defs tables → Attached inBlockId txid (rest.foldl (Call.apply blocks) tables)
  | [], _, _, member, _, _ => by cases member
  | call :: rest, _, within, member, keyed, complete => by
      obtain ⟨keyed', complete'⟩ :=
        Call.apply_keeps consistent (within call List.mem_cons_self) keyed complete
      have within' : ∀ other ∈ rest, other ∈ calls :=
        fun other member => within other (List.mem_cons_of_mem _ member)
      rcases List.mem_cons.mp member with rfl | later
      · exact Attached.foldl_apply consistent ids live agreed rest _ within' keyed' complete'
          (Attached.of_apply named live)
      · exact attached_foldl_of_mem consistent ids named live agreed rest _ within' later keyed'
          complete'

/-- Run one after the other, consistent calls leave every transaction inserted in a live block
there, with the inputs and outputs it was inserted with. -/
theorem serial_keeps_transactions (ids : (blocks.rows.map BlockRow.id).Nodup)
    (keyed : tables.Keyed) (complete : Complete defs tables) {calls : List Call}
    (consistent : Consistent blocks defs calls) :
    ∀ inBlockId inTxDef inTransactionIndex txid,
      .transactionInsert inBlockId inTxDef inTransactionIndex ∈ calls → inTxDef.txid = some txid →
      LiveBlock blocks inBlockId →
      ∃ row ∈ (calls.foldl (Call.apply blocks) tables).transactions, row.txid = txid ∧
        row.blockId = some inBlockId ∧
        (∀ vin ∈ inTxDef.vins, ⟨row.id, vin⟩ ∈ (calls.foldl (Call.apply blocks) tables).inputs) ∧
        ∀ vout ∈ inTxDef.vouts, ⟨row.id, vout⟩ ∈ (calls.foldl (Call.apply blocks) tables).outputs := by
  intro inBlockId inTxDef inTransactionIndex txid listed named live
  -- every call that names the transaction with a block names this one
  have agreed : ∀ b tx i, .transactionInsert b tx i ∈ calls → tx.txid = some txid → b ≠ -1 →
      b = inBlockId := fun b tx i member other_named not_minus =>
    consistent.oneBlock _ _ _ _ _ _ _ member listed other_named named not_minus
      (by obtain ⟨block, _, same, _⟩ := live; omega)
  obtain ⟨row, member, row_txid, stored⟩ := attached_foldl_of_mem consistent ids named live agreed
    calls tables (fun _ member => member) listed keyed complete
  obtain ⟨inputs, outputs⟩ :=
    (foldl_apply_keeps consistent calls tables (fun _ member => member) keyed complete).2 row member
  rw [row_txid, ← consistent.defined _ _ _ _ listed named] at inputs outputs
  exact ⟨row, member, row_txid, stored, inputs, outputs⟩

/-- The block table after a reorganisation at height `1`: `g0`, the orphaned `a1` and the live
`b1`. -/
def heightOneReorg : Table :=
  ⟨[⟨1, "g0", 0, "", "b1", false⟩, ⟨2, "a1", 1, "g0", "", true⟩, ⟨3, "b1", 1, "g0", "", false⟩], 4⟩

/-- `t`, with one input and one output. -/
def oneInputOneOutput : TxDef :=
  ⟨some "t", [0], [0]⟩

/-- `transaction_insert` of `t` in `b1`, then `delete_orphans`. -/
def insertThenClean : List Call :=
  [.transactionInsert 3 oneInputOneOutput 0, .deleteOrphans]

theorem mem_insertThenClean {inBlockId : Int} {inTxDef : TxDef} {inTransactionIndex : Int}
    (member : .transactionInsert inBlockId inTxDef inTransactionIndex ∈ insertThenClean) :
    inBlockId = 3 ∧ inTxDef = oneInputOneOutput ∧ inTransactionIndex = 0 := by
  simpa [insertThenClean] using member

theorem consistent_insertThenClean :
    Consistent heightOneReorg (fun _ => oneInputOneOutput) insertThenClean where
  defined _ _ _ _ member _ := (mem_insertThenClean member).2.1
  live _ _ _ member := by
    rw [(mem_insertThenClean member).1]
    exact .inr ⟨⟨3, "b1", 1, "g0", "", false⟩, by decide, rfl, rfl⟩
  oneBlock _ _ _ _ _ _ _ member member' _ _ _ _ := by
    rw [(mem_insertThenClean member).1, (mem_insertThenClean member').1]

theorem serial_keeps_transactions_insertThenClean :
    (heightOneReorg.rows.map BlockRow.id).Nodup ∧ TxTables.empty.Keyed ∧
      Complete (fun _ => oneInputOneOutput) TxTables.empty ∧
      Consistent heightOneReorg (fun _ => oneInputOneOutput) insertThenClean ∧
      ∀ inBlockId inTxDef inTransactionIndex txid,
        .transactionInsert inBlockId inTxDef inTransactionIndex ∈ insertThenClean →
        inTxDef.txid = some txid → LiveBlock heightOneReorg inBlockId →
        ∃ row ∈ (insertThenClean.foldl (Call.apply heightOneReorg) TxTables.empty).transactions,
          row.txid = txid ∧ row.blockId = some inBlockId ∧
          (∀ vin ∈ inTxDef.vins,
            ⟨row.id, vin⟩ ∈ (insertThenClean.foldl (Call.apply heightOneReorg) TxTables.empty).inputs) ∧
          ∀ vout ∈ inTxDef.vouts,
            ⟨row.id, vout⟩ ∈ (insertThenClean.foldl (Call.apply heightOneReorg) TxTables.empty).outputs := by
  have ids : (heightOneReorg.rows.map BlockRow.id).Nodup := by decide
  have complete : Complete (fun _ => oneInputOneOutput) TxTables.empty := fun _ member => by
    cases member
  exact ⟨ids, TxTables.Keyed.empty, complete, consistent_insertThenClean,
    serial_keeps_transactions ids TxTables.Keyed.empty complete consistent_insertThenClean⟩

/-- The table holds `g0`, the orphaned `a1` and the live `b1` that replaced it; `t` was stored
with `a1`. `delete_orphans` deletes `t`'s inputs; `transaction_insert` of `t` in `b1` then
finds `t` and moves it to `b1`; the second and third `DELETE`s no longer select `t`, which is
left in the live block with its outputs and without its inputs. -/
theorem orphan_cleanup_loses_inputs :
    ¬ ∀ (blocks : Table) (tables : TxTables) (calls : List Call), Prior blocks tables →
        (∀ inBlockId inTxDef inTransactionIndex,
          .transactionInsert inBlockId inTxDef inTransactionIndex ∈ calls → LiveBlock blocks inBlockId) →
        calls.count .deleteOrphans ≤ 1 →
        ∀ s, Cleanup.Reachable blocks tables calls s → s.Finished →
        ∀ inBlockId inTxDef inTransactionIndex txid,
          .transactionInsert inBlockId inTxDef inTransactionIndex ∈ calls → inTxDef.txid = some txid →
          ∃ row ∈ s.tables.transactions, row.txid = txid ∧ row.blockId = some inBlockId ∧
            (∀ vin ∈ inTxDef.vins, ⟨row.id, vin⟩ ∈ s.tables.inputs) ∧
            ∀ vout ∈ inTxDef.vouts, ⟨row.id, vout⟩ ∈ s.tables.outputs := by
  intro kept
  let blocks : Table :=
    ⟨[⟨1, "g0", 0, "", "b1", false⟩, ⟨2, "a1", 1, "g0", "", true⟩, ⟨3, "b1", 1, "g0", "", false⟩], 4⟩
  let t : TxDef := ⟨some "t", [0], [0]⟩
  let stored : TxTables := ⟨[⟨1, some 0, some 2, "t"⟩], [⟨1, 0⟩], [⟨1, 0⟩], 2⟩
  let calls : List Call := [.deleteOrphans, .transactionInsert 3 t 0]
  let final : Cleanup :=
    ⟨⟨[⟨1, some 0, some 3, "t"⟩], [], [⟨1, 0⟩], 2⟩,
      [(.deleteOrphans, .done), (.transactionInsert 3 t 0, .done)]⟩
  have prior : Prior blocks stored :=
    .single ⟨.transactionInsert 2 t 0, by decide⟩
  have live : ∀ inBlockId inTxDef inTransactionIndex,
      .transactionInsert inBlockId inTxDef inTransactionIndex ∈ calls → LiveBlock blocks inBlockId := by
    intro inBlockId inTxDef inTransactionIndex member
    simp only [calls, List.mem_cons, List.not_mem_nil, reduceCtorEq, Call.transactionInsert.injEq,
      false_or, or_false] at member
    rw [member.1]
    exact ⟨⟨3, "b1", 1, "g0", "", false⟩, by decide, rfl, rfl⟩
  -- the inputs go first, then `t` moves to `b1`, then the outputs and transactions are selected
  have ran : (Cleanup.start stored calls).run blocks [0, 1, 1, 0, 0] = some final := by
    decide
  obtain ⟨row, member, _, _, inputs, _⟩ :=
    kept blocks stored calls prior live (by decide) final (Cleanup.reachable_of_run _ ran) (by decide)
      3 t 0 "t" (by simp [calls]) rfl
  exact absurd (inputs 0 List.mem_cons_self) (by simp [final])

end Txo
end Coinquery
