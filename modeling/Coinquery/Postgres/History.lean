import Coinquery.Postgres.Cleanup

/-!
# The transaction history of addresses

`GetTxIDsByAddresses` lists, newest first, the transactions that pay one of the addresses or spend
an output that pays one of them, and cuts a window out of that list with the `LIMIT` and `OFFSET`
of the insight pagination; `GetTotalTxsByAddresses` counts the list. On tables whose transaction
ids are distinct and ascend in the order of the rows, as serial calls keep them
(`Built.invariant`), the `UNION` ordered by `id DESC` is the list of those transactions in reverse
order of storage (`orderByDesc_historyRows`). So a page is a window of one list
(`getTxIDsByAddresses_eq`) whose length is the count (`getTotalTxsByAddresses_eq`): with Go's empty
clause the pages at offsets `0`, `limit`, `2 * limit`, … list every transaction of the history once.
-/

namespace Coinquery
namespace Postgres

open Txo.Columns

/-- A transaction belongs to the history of the addresses when one of its outputs, or an output
one of its inputs spends, is to one of them and passes Go's clause. -/
def inHistory (blocks : Txo.Table) (tables : Tables) (addrs : List String)
    (whereClause : WhereClause) (tx : TransactionRow) : Bool :=
  let listed (output : OutputRow) :=
    addrs.contains output.address && whereClause tx output (liveBlockOf blocks tx.blockId)
  tables.outputs.any (fun output => output.transactionId == tx.id && listed output) ||
    tables.inputs.any fun input => input.transactionId == tx.id &&
      (transactionByTxid tables input.spentTxid).any fun spent =>
        tables.outputs.any fun output =>
          output.transactionId == spent.id && output.vout == input.spentVout && listed output

variable {blocks : Txo.Table} {tables : Tables} {addrs : List String} {whereClause : WhereClause}

theorem mem_payingTransactions (keyed : tables.keys.Keyed) {tx : TransactionRow} :
    tx ∈ payingTransactions blocks tables addrs whereClause ↔ tx ∈ tables.transactions ∧
      ∃ output ∈ tables.outputs, output.transactionId = tx.id ∧
        (addrs.contains output.address && whereClause tx output (liveBlockOf blocks tx.blockId)) =
          true := by
  simp only [payingTransactions, List.mem_filterMap, Option.filter_eq_some_iff,
    transactionOf_eq_some_iff keyed]
  constructor
  · rintro ⟨output, member, ⟨stored, same⟩, listed⟩
    exact ⟨stored, output, member, same.symm, listed⟩
  · rintro ⟨stored, output, member, same, listed⟩
    exact ⟨output, member, ⟨stored, same.symm⟩, listed⟩

theorem mem_spendingTransactions (keyed : tables.keys.Keyed) {tx : TransactionRow} :
    tx ∈ spendingTransactions blocks tables addrs whereClause ↔ tx ∈ tables.transactions ∧
      ∃ input ∈ tables.inputs, input.transactionId = tx.id ∧
        ∃ spent, transactionByTxid tables input.spentTxid = some spent ∧
          ∃ output ∈ tables.outputs, output.transactionId = spent.id ∧
            output.vout = input.spentVout ∧
            (addrs.contains output.address &&
              whereClause tx output (liveBlockOf blocks tx.blockId)) = true := by
  simp only [spendingTransactions, List.mem_flatMap]
  constructor
  · rintro ⟨input, member, listed⟩
    -- the row comes from an input whose spent transaction and own transaction both join
    cases found : transactionByTxid tables input.spentTxid with
    | none => simp [found] at listed
    | some spent =>
        cases joined : transactionOf tables input.transactionId with
        | none => simp [found, joined] at listed
        | some spender =>
            simp only [found, joined, List.mem_map, List.mem_filter, Bool.and_eq_true,
              beq_iff_eq] at listed
            obtain ⟨output, ⟨stored, ⟨⟨same_id, same_vout⟩, to_addr⟩, clause⟩, rfl⟩ := listed
            obtain ⟨spender_stored, spender_id⟩ := (transactionOf_eq_some_iff keyed).mp joined
            exact ⟨spender_stored, input, member, spender_id.symm, spent, found, output, stored,
              same_id, same_vout, by simp only [to_addr, clause, Bool.and_self]⟩
  · rintro ⟨stored, input, member, same, spent, found, output, output_stored, same_id, same_vout,
      listed⟩
    have joined : transactionOf tables input.transactionId = some tx :=
      (transactionOf_eq_some_iff keyed).mpr ⟨stored, same.symm⟩
    refine ⟨input, member, ?_⟩
    simp only [found, joined, List.mem_map, List.mem_filter]
    exact ⟨output, ⟨output_stored, by simpa [same_id, same_vout] using listed⟩, trivial⟩

/-- A stored transaction is in the history exactly when one of the two branches of the `UNION`
selects it. -/
theorem inHistory_iff (keyed : tables.keys.Keyed) {tx : TransactionRow}
    (stored : tx ∈ tables.transactions) :
    inHistory blocks tables addrs whereClause tx = true ↔
      tx ∈ payingTransactions blocks tables addrs whereClause ∨
        tx ∈ spendingTransactions blocks tables addrs whereClause := by
  rw [mem_payingTransactions keyed, mem_spendingTransactions keyed]
  simp only [inHistory, Bool.or_eq_true, List.any_eq_true, Bool.and_eq_true, beq_iff_eq,
    Option.any_eq_true, stored, true_and, and_assoc]

/-- A transaction one of the two branches selects is a stored transaction of the history. -/
theorem mem_branches_iff (keyed : tables.keys.Keyed) {tx : TransactionRow} :
    tx ∈ payingTransactions blocks tables addrs whereClause ∨
        tx ∈ spendingTransactions blocks tables addrs whereClause ↔
      tx ∈ tables.transactions.filter (inHistory blocks tables addrs whereClause) := by
  rw [List.mem_filter]
  constructor
  · rintro (listed | listed)
    · have stored := ((mem_payingTransactions keyed).mp listed).1
      exact ⟨stored, (inHistory_iff keyed stored).mpr (.inl listed)⟩
    · have stored := ((mem_spendingTransactions keyed).mp listed).1
      exact ⟨stored, (inHistory_iff keyed stored).mpr (.inr listed)⟩
  · rintro ⟨stored, selected⟩
    exact (inHistory_iff keyed stored).mp selected

theorem mem_historyRows (keyed : tables.keys.Keyed) {row : Nat × String} :
    row ∈ historyRows blocks tables addrs whereClause ↔
      ∃ tx ∈ tables.transactions.filter (inHistory blocks tables addrs whereClause),
        (tx.id, tx.txid) = row := by
  rw [historyRows, SqlList.mem_union_map]
  simp only [mem_branches_iff keyed]

/-- Under distinct ids that ascend along the rows, the `UNION` ordered by `id DESC` is the history
in reverse order of storage. -/
theorem orderByDesc_historyRows (keyed : tables.keys.Keyed) (ascending : IdsAscending tables) :
    SqlList.orderByDesc (fun row => (row.1 : Int)) (historyRows blocks tables addrs whereClause) =
      ((tables.transactions.filter (inHistory blocks tables addrs whereClause)).reverse.map
        fun tx => (tx.id, tx.txid)) := by
  have pair_injective : ∀ tx ∈ tables.transactions, ∀ other ∈ tables.transactions,
      tx.id = other.id → tx = other := fun tx member other other_member same =>
    eq_of_id_eq keyed member other_member same
  have history_distinct : ((tables.transactions.filter
      (inHistory blocks tables addrs whereClause)).reverse.map fun tx => (tx.id, tx.txid)).Nodup := by
    refine List.Nodup.map_on ?_ (List.nodup_reverse.mpr (List.Nodup.filter _ ?_))
    · intro tx member other other_member same
      exact pair_injective tx (List.mem_filter.mp (List.mem_reverse.mp member)).1 other
        (List.mem_filter.mp (List.mem_reverse.mp other_member)).1 (Prod.mk.inj same).1
    · exact ascending.imp fun below same => by subst same; exact lt_irrefl _ below
  have rows_distinct : (historyRows blocks tables addrs whereClause).Nodup :=
    SqlList.nodup_union _ _
  apply SqlList.orderByDesc_eq_of_pairwise
  · -- two rows of the `UNION` with one id come from one transaction row
    refine List.Nodup.map_on ?_ rows_distinct
    intro row member other other_member same
    obtain ⟨tx, selected, rfl⟩ := (mem_historyRows keyed).mp member
    obtain ⟨tx', selected', rfl⟩ := (mem_historyRows keyed).mp other_member
    rw [pair_injective tx (List.mem_filter.mp selected).1 tx' (List.mem_filter.mp selected').1
      (by simpa using same)]
  · refine (List.perm_ext_iff_of_nodup history_distinct rows_distinct).mpr ?_
    intro row
    rw [mem_historyRows keyed]
    simp only [List.mem_map, List.mem_reverse]
  · rw [List.pairwise_map, List.pairwise_reverse]
    exact (ascending.sublist List.filter_sublist).imp fun below => by simp only; omega

/-- `GetTxIDsByAddresses` cuts its window out of the txids of the history, newest first. -/
theorem getTxIDsByAddresses_eq (keyed : tables.keys.Keyed) (ascending : IdsAscending tables)
    (limit offset : Option Int) :
    getTxIDsByAddresses blocks tables addrs limit whereClause offset =
      List.map TransactionRow.txid <$>
        SqlList.limitOffset limit offset
          (tables.transactions.filter (inHistory blocks tables addrs whereClause)).reverse := by
  rw [getTxIDsByAddresses, orderByDesc_historyRows keyed ascending, SqlList.limitOffset_map]
  cases SqlList.limitOffset limit offset
    (tables.transactions.filter (inHistory blocks tables addrs whereClause)).reverse with
  | error => rfl
  | ok page =>
      simp only [Functor.map, Except.map, bind, Except.bind, pure, Except.pure, List.map_map]
      rfl

-- in the tables of the reorganisation `x` has the history `c`, `b`, `a`, newest first: the second
-- page of two is `b`, `a`
example :
    getTxIDsByAddresses reorgBlocks reorgTables ["x"] (some 2) (fun _ _ _ => true) (some 1) =
      .ok ["b", "a"] := by
  rw [getTxIDsByAddresses_eq ⟨by decide, by decide⟩ (by unfold IdsAscending; decide)]
  decide

/-- `GetTotalTxsByAddresses` counts the history, with Go's empty clause: each transaction once. -/
theorem getTotalTxsByAddresses_eq (keyed : tables.keys.Keyed) :
    getTotalTxsByAddresses blocks tables addrs =
      (tables.transactions.filter (inHistory blocks tables addrs fun _ _ _ => true)).length := by
  have distinct : ((tables.transactions.filter (inHistory blocks tables addrs fun _ _ _ => true)).map
      TransactionRow.id).Nodup :=
    (ids_nodup keyed).sublist (List.filter_sublist.map _)
  refine (SqlList.length_union distinct fun id => ?_).trans (List.length_map _)
  rw [← SqlList.mem_union, SqlList.mem_union_map, List.mem_map]
  simp only [mem_branches_iff keyed]

example :
    getTotalTxsByAddresses reorgBlocks reorgTables ["x"] = 3 := by
  rw [getTotalTxsByAddresses_eq ⟨by decide, by decide⟩]
  decide

end Postgres
end Coinquery
