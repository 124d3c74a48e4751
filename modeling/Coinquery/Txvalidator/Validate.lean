import Coinquery.Txo.Cleanup
import Coinquery.Library.SqlList
import Coinquery.Library.Strconv

/-!
# The transaction validator

`cmd/txvalidator` deletes the mempool transactions the node no longer holds. It asks for the
node's mempool `mempoolReqs` times (every node of a cluster answers with its own), reads the
transactions in no block from the id stored as `validatedTransaction` on (`GetPendingTxs`), and
calls `delete_invalid_txs` on the ids of those that no answer listed, in batches of `deleteSize`
that `dbThreads` goroutines take from a channel in any order, while the indexer and the monitor
go on calling `transaction_insert` and `delete_orphans`.

One after the other, in any order, the batches delete what one call with all the ids deletes,
and that leaves exactly the transactions in a block, below the start id, or listed by some answer,
each with its inputs and outputs (`mem_foldl_validatorCalls`). Interleaved statement by statement
with any other calls, an id keeps its txid for the whole run (`Evolves`), so a transaction a
batch deletes is one that `GetPendingTxs` listed, that no answer listed, and that is in no block
when the batch runs (`validator_deletes_only_unlisted`).

Left out: the update of `validatedTransaction` from `GetTxAtBlockTime`, which reads block times,
and the logging. A failed `Get` reads as "0", and a failed `GetPendingTxs` as no transaction.
-/

namespace Coinquery
namespace Txvalidator

open Txo

/-- `deleteSize`. -/
def deleteSize : Nat := 1

/-- `postgres.PendingTx`. -/
structure PendingTx where
  id : Nat
  txID : String
  deriving DecidableEq, Repr

/-- `GetPendingTxs(fmt.Sprintf("AND id >= %d", id))`: the transactions in no block from `id` on,
by id. -/
def getPendingTxs (tables : TxTables) (id : Int) : List PendingTx :=
  (SqlList.orderByDesc (fun row => -(row.id : Int))
      (tables.transactions.filter fun row => row.blockId.isNone && decide (id ≤ row.id))).map
    fun row => ⟨row.id, row.txid⟩

/-- `buildMempool` of every answer of `GetMempool`, in whatever order the goroutines take the lock:
the txids of any answer. -/
def buildMempool (answers : List (List String)) : List String :=
  answers.flatten

/-- The ids of the pending transactions that the mempool does not hold. -/
def invalidIDs (mempool : List String) (txs : List PendingTx) : List Nat :=
  (txs.filter fun tx => !mempool.contains tx.txID).map PendingTx.id

/-- The batches the loop queues: `invalidIDs[i:high]` for `i = 0, size, 2 * size, …` below the
length, with `high` cut to the length. -/
def deleteBatches (size : Nat) (ids : List Nat) : List (List Nat) :=
  (List.range ((ids.length + size - 1) / size)).map fun k => (ids.drop (k * size)).take size

/-- The id the validator starts from: `validatedTransaction`, or "0" when `Get` fails, through
`strconv.Atoi`; `none` when it is not a number and `log.Fatal` exits. -/
def startId (validated : Option (List UInt8)) : Option Int :=
  match Strconv.atoi (validated.getD ("0".toList.map Char.toUInt8)) with
  | (id, none) => some id
  | (_, some _) => none

/-- The calls of `delete_invalid_txs` the validator queues when it starts from `id`. -/
def validatorCalls (tables : TxTables) (answers : List (List String)) (id : Int) : List Call :=
  (deleteBatches deleteSize (invalidIDs (buildMempool answers) (getPendingTxs tables id))).map
    Call.deleteInvalidTxs

/-- The validator up to its deletes: the calls it queues, or `none` when it exits. -/
def txValidator (tables : TxTables) (answers : List (List String))
    (validated : Option (List UInt8)) : Option (List Call) :=
  (startId validated).map (validatorCalls tables answers)

/-! ## The batches one after the other -/

variable {blocks : Table} {tables : TxTables}

/-- The ids two `DELETE`s remove one after the other are those one `DELETE` removes with either
condition. -/
theorem contains_deleted_or (rows : List TransactionRow) (doomed other : TransactionRow → Bool)
    (n : Nat) :
    (((rows.filter doomed).map TransactionRow.id).contains n ||
        ((rows.filter fun row => other row && !doomed row).map TransactionRow.id).contains n) =
      ((rows.filter fun row => doomed row || other row).map TransactionRow.id).contains n := by
  rw [Bool.eq_iff_iff]
  simp only [Bool.or_eq_true, List.contains_iff_mem, List.mem_map, List.mem_filter]
  constructor
  · rintro (⟨row, ⟨stored, first⟩, rfl⟩ | ⟨row, ⟨stored, second⟩, rfl⟩)
    · exact ⟨row, ⟨stored, by simp [first]⟩, rfl⟩
    · simp only [Bool.and_eq_true, Bool.not_eq_true'] at second
      exact ⟨row, ⟨stored, by simp [second.1]⟩, rfl⟩
  · rintro ⟨row, ⟨stored, either⟩, rfl⟩
    cases first : doomed row
    · exact .inr ⟨row, ⟨stored, by simpa [first] using either⟩, rfl⟩
    · exact .inl ⟨row, ⟨stored, first⟩, rfl⟩

theorem deleteTransactions_deleteTransactions (doomed other : TransactionRow → Bool) :
    (tables.deleteTransactions doomed).deleteTransactions other =
      tables.deleteTransactions fun row => doomed row || other row := by
  simp only [TxTables.deleteTransactions, List.filter_filter, TxTables.mk.injEq]
  refine ⟨?_, ?_, ?_, trivial⟩
  · congr 1
    funext row
    cases doomed row <;> cases other row <;> rfl
  · congr 1
    funext input
    rw [← contains_deleted_or, Bool.not_or, Bool.and_comm]
  · congr 1
    funext output
    rw [← contains_deleted_or, Bool.not_or, Bool.and_comm]

theorem deleteInvalidTxs_append (tables : TxTables) (first second : List Nat) :
    deleteInvalidTxs (deleteInvalidTxs tables first) second =
      deleteInvalidTxs tables (first ++ second) := by
  simp only [deleteInvalidTxs, deleteTransactions_deleteTransactions, List.contains_append]
  congr 1
  funext row
  cases first.contains row.id <;> cases second.contains row.id <;> simp

/-- `delete_invalid_txs` reads its ids as a set. -/
theorem deleteInvalidTxs_congr (tables : TxTables) {first second : List Nat}
    (same : ∀ id, id ∈ first ↔ id ∈ second) :
    deleteInvalidTxs tables first = deleteInvalidTxs tables second := by
  have contains : ∀ id, first.contains id = second.contains id := fun id => by
    rw [Bool.eq_iff_iff, List.contains_iff_mem, List.contains_iff_mem, same]
  simp only [deleteInvalidTxs, contains]

theorem flatten_deleteBatches {size : Nat} (positive : 0 < size) (ids : List Nat) :
    (deleteBatches size ids).flatten = ids := by
  -- the first `k` batches hold the first `k * size` ids
  have prefix_batches : ∀ k, ((List.range k).map fun k => (ids.drop (k * size)).take size).flatten =
      ids.take (k * size) := by
    intro k
    induction k with
    | zero => simp
    | succ k induction =>
        rw [List.range_succ, List.map_append, List.flatten_append, induction, List.map_singleton,
          List.flatten_singleton, Nat.succ_mul, List.take_add]
  rw [deleteBatches, prefix_batches, List.take_of_length_le]
  have covered := Nat.div_add_mod (ids.length + size - 1) size
  have remainder := Nat.mod_lt (ids.length + size - 1) positive
  rw [Nat.mul_comm] at covered
  omega

/-- The batches, deleted one after the other in any order, delete what one call with all the ids
deletes. -/
theorem foldl_deleteBatches (blocks : Table) (tables : TxTables) {size : Nat} (positive : 0 < size)
    (ids : List Nat) {order : List (List Nat)} (perm : order.Perm (deleteBatches size ids)) :
    (order.map Call.deleteInvalidTxs).foldl (Call.apply blocks) tables =
      deleteInvalidTxs tables ids := by
  -- the batches in the order taken add up to a list of the same ids
  have folded : ∀ (batches : List (List Nat)) (start : TxTables),
      (batches.map Call.deleteInvalidTxs).foldl (Call.apply blocks) start =
        deleteInvalidTxs start batches.flatten := by
    intro batches
    induction batches with
    | nil =>
        intro start
        simp [deleteInvalidTxs, TxTables.deleteTransactions]
    | cons batch rest induction =>
        intro start
        rw [List.map_cons, List.foldl_cons, induction, Call.apply, deleteInvalidTxs_append,
          List.flatten_cons]
  rw [folded]
  refine deleteInvalidTxs_congr tables fun id => ?_
  rw [List.mem_flatten, ← flatten_deleteBatches positive ids, List.mem_flatten]
  constructor
  · rintro ⟨batch, listed, member⟩
    exact ⟨batch, perm.subset listed, member⟩
  · rintro ⟨batch, listed, member⟩
    exact ⟨batch, perm.symm.subset listed, member⟩

theorem mem_getPendingTxs {id : Int} {tx : PendingTx} :
    tx ∈ getPendingTxs tables id ↔
      ∃ row ∈ tables.transactions, row.blockId = none ∧ id ≤ row.id ∧ tx = ⟨row.id, row.txid⟩ := by
  rw [getPendingTxs, List.mem_map]
  simp only [(SqlList.orderByDesc_perm _ _).mem_iff, List.mem_filter, Bool.and_eq_true,
    Option.isNone_iff_eq_none, decide_eq_true_eq]
  constructor
  · rintro ⟨row, ⟨stored, pending, above⟩, rfl⟩
    exact ⟨row, stored, pending, above, rfl⟩
  · rintro ⟨row, stored, pending, above, rfl⟩
    exact ⟨row, ⟨stored, pending, above⟩, rfl⟩

/-- On tables with distinct ids, the validator queues the id of a stored transaction exactly when
it is in no block, at or above the start id, and unknown to the mempool. -/
theorem mem_invalidIDs (keyed : tables.Keyed) (answers : List (List String)) (id : Int)
    {row : TransactionRow} (stored : row ∈ tables.transactions) :
    row.id ∈ invalidIDs (buildMempool answers) (getPendingTxs tables id) ↔
      row.blockId = none ∧ id ≤ row.id ∧ row.txid ∉ buildMempool answers := by
  simp only [invalidIDs, List.mem_map, List.mem_filter, mem_getPendingTxs, Bool.not_eq_true',
    ← Bool.not_eq_true, List.contains_iff_mem]
  constructor
  · rintro ⟨tx, ⟨⟨other, other_stored, pending, above, rfl⟩, unknown⟩, same_id⟩
    rw [List.inj_on_of_nodup_map keyed.1 other_stored stored same_id] at pending above unknown
    exact ⟨pending, above, unknown⟩
  · rintro ⟨pending, above, unknown⟩
    exact ⟨⟨row.id, row.txid⟩, ⟨⟨row, stored, pending, above, rfl⟩, unknown⟩, rfl⟩

/-- On tables with distinct ids, the batches deleted one after the other in any order leave
exactly the transactions in a block, below the start id, or known to the mempool, each with its
inputs and outputs. -/
theorem mem_foldl_validatorCalls (keyed : tables.Keyed) (answers : List (List String)) (id : Int)
    {order : List (List Nat)}
    (perm : order.Perm (deleteBatches deleteSize (invalidIDs (buildMempool answers)
      (getPendingTxs tables id)))) :
    let after := (order.map Call.deleteInvalidTxs).foldl (Call.apply blocks) tables
    (∀ row, row ∈ after.transactions ↔ row ∈ tables.transactions ∧
      (row.blockId.isSome ∨ row.id < id ∨ row.txid ∈ buildMempool answers)) ∧
      (∀ row ∈ after.transactions, ∀ input ∈ tables.inputs, input.transactionId = row.id →
        input ∈ after.inputs) ∧
      ∀ row ∈ after.transactions, ∀ output ∈ tables.outputs, output.transactionId = row.id →
        output ∈ after.outputs := by
  intro after
  have result : after = deleteInvalidTxs tables
      (invalidIDs (buildMempool answers) (getPendingTxs tables id)) :=
    foldl_deleteBatches blocks tables (by decide) _ perm
  -- a stored row is spared exactly when the mempool, a block or the start id saves it
  have spared : ∀ row ∈ tables.transactions,
      ((invalidIDs (buildMempool answers) (getPendingTxs tables id)).contains row.id &&
        row.blockId.isNone) = false ↔
        row.blockId.isSome ∨ row.id < id ∨ row.txid ∈ buildMempool answers := by
    intro row stored
    rw [Bool.and_eq_false_iff, ← Bool.not_eq_true, List.contains_iff_mem,
      mem_invalidIDs keyed answers id stored]
    cases blocked : row.blockId with
    | some block => simp
    | none =>
        simp only [true_and, not_and, Decidable.not_not, Option.isNone_none, Bool.true_eq_false,
          or_false, Option.isSome_none, Bool.false_eq_true, false_or]
        constructor
        · intro saved
          by_cases above : id ≤ (row.id : Int)
          · exact .inr (saved above)
          · exact .inl (by omega)
        · rintro (below | known) above
          · omega
          · exact known
  have rows : ∀ row, row ∈ after.transactions ↔ row ∈ tables.transactions ∧
      (row.blockId.isSome ∨ row.id < id ∨ row.txid ∈ buildMempool answers) := by
    intro row
    rw [result, deleteInvalidTxs, TxTables.mem_deleteTransactions]
    constructor
    · rintro ⟨stored, kept⟩
      exact ⟨stored, (spared row stored).mp kept⟩
    · rintro ⟨stored, saved⟩
      exact ⟨stored, (spared row stored).mpr saved⟩
  refine ⟨rows, fun row kept input stored owned => ?_, fun row kept output stored owned => ?_⟩
  · obtain ⟨row_stored, saved⟩ := (rows row).mp kept
    rw [result]
    exact TxTables.mem_cascade keyed row_stored ((spared row row_stored).mpr saved) stored owned
  · obtain ⟨row_stored, saved⟩ := (rows row).mp kept
    rw [result]
    exact TxTables.mem_cascade keyed row_stored ((spared row row_stored).mpr saved) stored owned

/-- A transaction mined in block `1` with an output, and two in no block: `t2`, which the mempool
holds, and `t3`, which it dropped, with an input and an output. -/
def pendingTables : TxTables :=
  ⟨[⟨1, some 0, some 1, "t1"⟩, ⟨2, none, none, "t2"⟩, ⟨3, none, none, "t3"⟩], [⟨3, 0⟩],
    [⟨1, 0⟩, ⟨3, 0⟩], 4⟩

/-- Started from `0` with the mempool `t2`, the validator keeps `t1` and `t2`. -/
theorem mem_foldl_validatorCalls_pendingTables :
    pendingTables.Keyed ∧
      (deleteBatches deleteSize (invalidIDs (buildMempool [["t2"]])
        (getPendingTxs pendingTables 0))).Perm
        (deleteBatches deleteSize (invalidIDs (buildMempool [["t2"]])
          (getPendingTxs pendingTables 0))) ∧
      let after := ((deleteBatches deleteSize (invalidIDs (buildMempool [["t2"]])
        (getPendingTxs pendingTables 0))).map Call.deleteInvalidTxs).foldl (Call.apply Table.empty)
          pendingTables
      (∀ row, row ∈ after.transactions ↔ row ∈ pendingTables.transactions ∧
        (row.blockId.isSome ∨ row.id < (0 : Int) ∨ row.txid ∈ buildMempool [["t2"]])) ∧
        (∀ row ∈ after.transactions, ∀ input ∈ pendingTables.inputs, input.transactionId = row.id →
          input ∈ after.inputs) ∧
        ∀ row ∈ after.transactions, ∀ output ∈ pendingTables.outputs,
          output.transactionId = row.id → output ∈ after.outputs := by
  have keyed : pendingTables.Keyed := ⟨by decide, by decide⟩
  exact ⟨keyed, .refl _, mem_foldl_validatorCalls keyed [["t2"]] 0 (.refl _)⟩

/-! ## Interleaved with other calls -/

/-- What a run does to the transaction rows it started with: the sequence never goes back, and a
row with an id the sequence had issued is a row of before, with its txid. -/
def Evolves (before after : TxTables) : Prop :=
  before.nextId ≤ after.nextId ∧
    ∀ row ∈ after.transactions, row.id < before.nextId →
      ∃ old ∈ before.transactions, old.id = row.id ∧ old.txid = row.txid

namespace Evolves

theorem refl (tables : TxTables) : Evolves tables tables :=
  ⟨le_refl _, fun row member _ => ⟨row, member, rfl, rfl⟩⟩

theorem trans {first second third : TxTables} (early : Evolves first second)
    (late : Evolves second third) : Evolves first third := by
  refine ⟨early.1.trans late.1, fun row member below => ?_⟩
  obtain ⟨middle, middle_member, same_id, same_txid⟩ :=
    late.2 row member (lt_of_lt_of_le below early.1)
  obtain ⟨old, old_member, old_id, old_txid⟩ := early.2 middle middle_member (same_id ▸ below)
  exact ⟨old, old_member, old_id.trans same_id, old_txid.trans same_txid⟩

/-- A statement that writes neither the transaction rows nor the sequence. -/
theorem of_transactions {before after : TxTables} (rows : after.transactions = before.transactions)
    (next : after.nextId = before.nextId) : Evolves before after :=
  ⟨next.ge, fun row member _ => ⟨row, rows ▸ member, rfl, rfl⟩⟩

theorem deleteTransactions (tables : TxTables) (doomed : TransactionRow → Bool) :
    Evolves tables (tables.deleteTransactions doomed) :=
  ⟨le_refl _, fun row member _ => ⟨row, (List.mem_filter.mp member).1, rfl, rfl⟩⟩

theorem updateBlock (tables : TxTables) (id : Nat) (blockId index : Option Int) :
    Evolves tables (tables.updateBlock id blockId index) := by
  refine ⟨le_refl _, fun row member _ => ?_⟩
  obtain ⟨old, old_member, rfl⟩ := List.mem_map.mp member
  refine ⟨old, old_member, ?_, ?_⟩ <;> split <;> rfl

/-- The new row takes the next id of the sequence, which no row had. -/
theorem insertTransaction (tables : TxTables) (index blockId : Option Int) (txid : String) :
    Evolves tables (tables.insertTransaction index blockId txid).1 := by
  refine ⟨Nat.le_succ _, fun row member below => ?_⟩
  rcases List.mem_append.mp member with old | added
  · exact ⟨row, old, rfl, rfl⟩
  · rw [List.mem_singleton.mp added] at below
    exact absurd below (lt_irrefl _)

end Evolves

/-- Every statement of every call keeps the ids with their txids. -/
theorem evolves_statement (blocks : Table) (tables : TxTables) (call : Call) (pc : Pc) :
    Evolves tables (statement blocks tables call pc).2 := by
  cases call with
  | transactionInsert inBlockId inTxDef inTransactionIndex =>
      cases pc with
      | start =>
          -- the lookup of the txid writes nothing
          simp only [statement]
          split
          · exact .refl tables
          · split <;> exact .refl tables
      | insert txid => exact .insertTransaction tables _ _ txid
      | inputs id => exact .of_transactions rfl rfl
      | outputs id => exact .of_transactions rfl rfl
      | update id => exact .updateBlock tables id _ _
      | deleteOutputs | deleteTransactions | done => exact .refl tables
  | deleteOrphans =>
      cases pc with
      | start | deleteOutputs => exact .of_transactions rfl rfl
      | deleteTransactions => exact .deleteTransactions tables _
      | insert _ | inputs _ | outputs _ | update _ | done => exact .refl tables
  | deleteInvalidTxs inIds =>
      cases pc with
      | start => exact .deleteTransactions tables _
      | insert _ | inputs _ | outputs _ | update _ | deleteOutputs | deleteTransactions | done =>
          exact .refl tables

theorem evolves_next {s s' : Cleanup} {i : Nat} (stepped : s.next blocks i = some s') :
    Evolves s.tables s'.tables := by
  unfold Cleanup.next at stepped
  split at stepped
  · rename_i call pc _
    split at stepped
    · cases stepped
    · cases stepped
      exact evolves_statement blocks s.tables call pc
  · cases stepped

/-- A statement moves the program counter of the call it runs, and of no other. -/
theorem calls_next {s s' : Cleanup} {i : Nat} (stepped : s.next blocks i = some s') :
    s'.calls.map Prod.fst = s.calls.map Prod.fst := by
  unfold Cleanup.next at stepped
  split at stepped
  · rename_i call pc listed
    split at stepped
    · cases stepped
    · cases stepped
      obtain ⟨bound, entry⟩ := List.getElem?_eq_some_iff.mp listed
      have mapped_bound : i < (s.calls.map Prod.fst).length := by simpa using bound
      have same : (s.calls.map Prod.fst)[i] = call := by simp [entry]
      rw [List.map_set]
      conv_rhs => rw [← List.set_getElem_self mapped_bound]
      rw [same]
  · cases stepped

/-- The run lemma: from the tables a run starts with, every state it reaches keeps the ids with
their txids and runs the calls it started with. -/
theorem reachable_evolves {calls : List Call} {s : Cleanup}
    (reached : Cleanup.Reachable blocks tables calls s) :
    Evolves tables s.tables ∧ s.calls.map Prod.fst = calls := by
  induction reached with
  | refl => exact ⟨.refl tables, by simp [Cleanup.start, Function.comp_def]⟩
  | tail _ step induction =>
      obtain ⟨i, stepped⟩ := step
      exact ⟨induction.1.trans (evolves_next stepped), (calls_next stepped).trans induction.2⟩

/-- What one statement of a call of `delete_invalid_txs` deletes: rows in no block with an id of
the call. -/
theorem deleted_of_next {s s' : Cleanup} {i : Nat} {inIds : List Nat}
    (listed : (s.calls.map Prod.fst)[i]? = some (.deleteInvalidTxs inIds))
    (stepped : s.next blocks i = some s') {row : TransactionRow}
    (member : row ∈ s.tables.transactions) (deleted : row ∉ s'.tables.transactions) :
    row.id ∈ inIds ∧ row.blockId = none := by
  unfold Cleanup.next at stepped
  rw [List.getElem?_map] at listed
  cases entry : s.calls[i]? with
  | none => simp [entry] at listed
  | some called =>
      obtain ⟨call, pc⟩ := called
      simp only [entry, Option.map_some, Option.some.injEq] at listed stepped
      subst listed
      split at stepped
      · cases stepped
      · cases stepped
        cases pc with
        | start =>
            have kept := mt (TxTables.mem_deleteTransactions.mpr ∘ And.intro member) deleted
            simp only [Bool.not_eq_false, Bool.and_eq_true, List.contains_iff_mem,
              Option.isNone_iff_eq_none] at kept
            exact kept
        | insert _ | inputs _ | outputs _ | update _ | deleteOutputs | deleteTransactions | done =>
            exact absurd member deleted

/-- In every interleaving of the validator's calls with any other calls, statement by statement,
a transaction that a call of the validator deletes is in no block when it is deleted, was listed
by `GetPendingTxs` under the same id and txid, and is unknown to the mempool. -/
theorem validator_deletes_only_unlisted (keyed : tables.Keyed) (answers : List (List String))
    (id : Int) (others : List Call) {s s' : Cleanup}
    (reached : Cleanup.Reachable blocks tables (validatorCalls tables answers id ++ others) s)
    {i : Nat} (validator : i < (validatorCalls tables answers id).length)
    (stepped : s.next blocks i = some s') {row : TransactionRow}
    (member : row ∈ s.tables.transactions) (deleted : row ∉ s'.tables.transactions) :
    row.blockId = none ∧ row.txid ∉ buildMempool answers ∧
      (⟨row.id, row.txid⟩ : PendingTx) ∈ getPendingTxs tables id := by
  obtain ⟨evolves, calls⟩ := reachable_evolves reached
  set ids := invalidIDs (buildMempool answers) (getPendingTxs tables id)
  -- call `i` is the validator's batch `i`
  have batch_bound : i < (deleteBatches deleteSize ids).length := by
    simpa [validatorCalls] using validator
  have batch_listed : (s.calls.map Prod.fst)[i]? =
      some (.deleteInvalidTxs (deleteBatches deleteSize ids)[i]) := by
    rw [calls, List.getElem?_append_left validator]
    simp [validatorCalls, ids]
  obtain ⟨in_batch, pending⟩ := deleted_of_next batch_listed stepped member deleted
  have queued : row.id ∈ ids := by
    rw [← flatten_deleteBatches (by decide : 0 < deleteSize) ids, List.mem_flatten]
    exact ⟨_, List.getElem_mem _, in_batch⟩
  -- the queued id belongs to a stored row, which the run has kept with its txid
  obtain ⟨tx, listed, same_id⟩ := List.mem_map.mp queued
  obtain ⟨pending_listed, unknown⟩ := List.mem_filter.mp listed
  obtain ⟨other, other_stored, _, _, rfl⟩ := mem_getPendingTxs.mp pending_listed
  obtain ⟨old, old_stored, old_id, old_txid⟩ :=
    evolves.2 row member (same_id ▸ keyed.2 other other_stored)
  have same_row : old = other :=
    List.inj_on_of_nodup_map keyed.1 old_stored other_stored (old_id.trans same_id.symm)
  subst same_row
  refine ⟨pending, ?_, ?_⟩
  · rw [← old_txid]
    simpa using unknown
  · rw [← old_txid, ← old_id]
    exact pending_listed

/-- Run first, the validator's one batch deletes `t3`. -/
theorem validator_deletes_only_unlisted_pendingTables :
    let calls := validatorCalls pendingTables [["t2"]] 0 ++ []
    let s := Cleanup.start pendingTables calls
    let s' := (s.next Table.empty 0).getD s
    pendingTables.Keyed ∧ Cleanup.Reachable Table.empty pendingTables calls s ∧
      0 < (validatorCalls pendingTables [["t2"]] 0).length ∧ s.next Table.empty 0 = some s' ∧
      ⟨3, none, none, "t3"⟩ ∈ s.tables.transactions ∧ ⟨3, none, none, "t3"⟩ ∉ s'.tables.transactions ∧
      (none : Option Int) = none ∧ "t3" ∉ buildMempool [["t2"]] ∧
        (⟨3, "t3"⟩ : PendingTx) ∈ getPendingTxs pendingTables 0 := by
  intro calls s s'
  have keyed : pendingTables.Keyed := ⟨by decide, by decide⟩
  -- the rows in no block already ascend, so the sort of `GetPendingTxs` keeps them
  have pending : getPendingTxs pendingTables 0 = [⟨2, "t2"⟩, ⟨3, "t3"⟩] := by
    have sorted : SqlList.orderByDesc (fun row => -(row.id : Int))
        (pendingTables.transactions.filter fun row =>
          row.blockId.isNone && decide ((0 : Int) ≤ row.id)) =
          [⟨2, none, none, "t2"⟩, ⟨3, none, none, "t3"⟩] :=
      SqlList.orderByDesc_eq_of_pairwise (by decide) (by decide) (by decide)
    rw [getPendingTxs, sorted]
    rfl
  have stepped : s.next Table.empty 0 = some s' := by
    simp only [s', s, calls, validatorCalls, pending]
    decide
  have member : (⟨3, none, none, "t3"⟩ : TransactionRow) ∈ s.tables.transactions := by decide
  have deleted : (⟨3, none, none, "t3"⟩ : TransactionRow) ∉ s'.tables.transactions := by
    simp only [s', s, calls, validatorCalls, pending]
    decide
  have queued : 0 < (validatorCalls pendingTables [["t2"]] 0).length := by
    simp only [validatorCalls, pending]
    decide
  exact ⟨keyed, .refl, queued, stepped, member, deleted,
    validator_deletes_only_unlisted keyed [["t2"]] 0 [] .refl queued stepped member deleted⟩

end Txvalidator
end Coinquery
