import Coinquery.Insight.Txs

/-!
# The transaction history of addresses, page by page

`TxHistoryByAddrs`, the handler of `/{coin}/{addrs}/txs/?from={from}&to={to}` in
`pkg/api/insight/insight.go`, reads the page numbers with `TraditionalPagintion`, splits the
addresses of the path at commas (`splitAndTrim`), splices the `LIMIT` and `OFFSET` clauses of the
pagination into the query of `GetTxIDsByAddresses`, expands the txids with `getTxs`, cuts `To`
back when the page came short, and counts the history with `GetTotalTxsByAddresses`.

PostgreSQL reads a clause the pagination writes back as its number (`clauseValue_written`), so the
clauses of a window cut the rows `[From, To)` (`window_clauses`). On tables whose ids are keys
and ascend, as serial calls keep them, a request whose numbers read as non-negative gets the page
`[From, To)` of the history of its addresses, newest first, expanded by `getTxs`, with the length
of the whole history as `TotalItems` (`txHistoryByAddrs_eq`).

Left out: the error texts of the failed queries, which are the driver's, and the `status` a
middleware may put in the request's context.
-/

namespace Coinquery
namespace Insight

open Api Cashaddr SelectInto SortSlice Txo.Columns

variable {Address : Type}

/-! ## The addresses of the path -/

/-- `unicode.IsSpace`: the white space of Latin-1 and the other characters of Unicode's
`White_Space` property. -/
def isSpace (c : Char) : Bool :=
  [0x09, 0x0A, 0x0B, 0x0C, 0x0D, 0x20, 0x85, 0xA0, 0x1680, 0x2028, 0x2029, 0x202F, 0x205F,
      0x3000].contains c.toNat ||
    (0x2000 ≤ c.toNat && c.toNat ≤ 0x200A)

/-- `strings.TrimSpace`. -/
def trimSpace (s : List Char) : List Char :=
  ((s.dropWhile isSpace).reverse.dropWhile isSpace).reverse

/-- `splitAndTrim(str)`: the fields of `strings.Split(str, ",")`, each trimmed. -/
def splitAndTrim (str : String) : List String :=
  (str.toList.splitOn ',').map fun field => String.ofList (trimSpace field)

example : splitAndTrim "x, y ,\tz" = ["x", "y", "z"] := by decide

/-! ## The clauses of the pagination -/

/-- What PostgreSQL reads in a `LIMIT` or `OFFSET` clause spliced into the query: the empty clause
is no clause (`some none`), the keyword and an integer literal its count, and any other text a
syntax error (`none`). -/
def clauseValue (keyword clause : String) : Option (Option Int) :=
  if clause = "" then some none
  else
    let lead := (keyword ++ " ").toList
    if clause.toList.take lead.length = lead then
      (Jsonb.parseInteger (clause.toList.drop lead.length)).map some
    else none

theorem toList_toString_int (n : Int) : (toString n).toList = Jsonb.renderInt n := by
  rw [Int.toString_eq_repr, Int.repr_eq_if, Jsonb.renderInt]
  by_cases negative : n < 0
  · rw [if_neg (by omega), if_pos negative, String.toList_append, Nat.toList_repr]
    simp only [show (-n).toNat = n.natAbs by omega]
    rfl
  · rw [if_pos (by omega), if_neg negative, Nat.toList_repr]

/-- PostgreSQL reads back the count of a clause written as the keyword and the number. -/
theorem clauseValue_written {keyword clause : String} {n : Int}
    (written : clause.toList = (keyword ++ " ").toList ++ Jsonb.renderInt n) :
    clauseValue keyword clause = some (some n) := by
  have nonempty : clause ≠ "" := by
    rintro rfl
    simp at written
  rw [clauseValue, if_neg nonempty]
  simp only [written, List.take_left', List.drop_left', Jsonb.parseInteger_renderInt, Option.map_some]
  simp

/-- The clauses of a window are read as a `LIMIT` and an `OFFSET` that cut the rows
`[From, To)`. -/
theorem window_clauses {tp : Pagination} (window : IsWindow tp) :
    ∃ limit offset, clauseValue "LIMIT" tp.limitClause = some (some limit) ∧
      clauseValue "OFFSET" tp.offsetClause = some offset ∧
      ∀ {α : Type} (rows : List α), SqlList.limitOffset (some limit) offset rows =
        .ok ((rows.drop tp.fromPage.toNat).take (tp.toPage - tp.fromPage).toNat) := by
  obtain ⟨limit, limit_clause, limit_pos, -, size, from_nonneg, offset_clause⟩ := window
  have limit_read : clauseValue "LIMIT" tp.limitClause = some (some limit) := by
    refine clauseValue_written ?_
    rw [limit_clause, String.toList_append, toList_toString_int]
    rfl
  -- the offset is `FromPage`, read from its clause or, absent, taken as `0`
  obtain ⟨offset, offset_read, offset_eq⟩ : ∃ offset, clauseValue "OFFSET" tp.offsetClause =
      some offset ∧ offset.getD 0 = tp.fromPage := by
    rcases offset_clause with ⟨empty, from_zero⟩ | written
    · exact ⟨none, by rw [empty]; rfl, from_zero.symm⟩
    · refine ⟨some tp.fromPage, clauseValue_written ?_, rfl⟩
      rw [written, String.toList_append, toList_toString_int]
      rfl
  refine ⟨limit, offset, limit_read, offset_read, fun rows => ?_⟩
  rw [SqlList.limitOffset, if_neg (by omega), if_neg (by omega), offset_eq, size]

/-! ## The handler -/

/-- `DEFAULT_TXS`. -/
def defaultTxs : Int := 10

/-- `MAX_TRANSACTIONS`. -/
def maxTransactions : Int := 50

/-- What the handler writes. -/
inductive HistoryResponse
  /-- Status 422 with the text of the pagination's error. -/
  | unprocessable (body : String)
  /-- Status 500: the query of the txids failed, `none` being a clause PostgreSQL cannot parse. -/
  | queryFailed (err : Option SqlList.RowCountError)
  /-- Status 500: `getTxs` failed. -/
  | txsFailed (err : TxsError)
  /-- `insightTxHistoryByAddrs`. -/
  | ok (totalItems : Nat) (fromPage toPage : Int) (txs : List InsightTx)
  deriving DecidableEq

/-- The handler once `getTxs` has answered: `To` is cut back to `From + len(txs)` when the page came
short, and `TotalItems` is the count of the history. -/
def historyPage (tp : Pagination) (totalCount : Nat) :
    Except TxsError (List InsightTx) → HistoryResponse
  | .error err => .txsFailed err
  | .ok txs =>
      let toPage :=
        if (txs.length : Int) < goInt (tp.toPage - tp.fromPage) then goInt (tp.fromPage + txs.length)
        else tp.toPage
      .ok totalCount tp.fromPage toPage txs

/-- `TxHistoryByAddrs`, for the addresses of the path and the `from` and `to` of the query, with
Go's empty `whereClause`; `none` is a panic of `getTxs`. -/
def txHistoryByAddrs (btcutil : Btcutil Address) (pick : Pick Postgres.SpentTxDetails)
    (first : Pick TxsError) (sorter : Sorter) (schedule : Schedule) (blocks : Txo.Table)
    (tables : Tables) (addrs : String) (fromArg toArg : List UInt8) : Option HistoryResponse :=
  match traditionalPagintion fromArg toArg defaultTxs maxTransactions with
  | .error err => some (.unprocessable s!"{err}\n")
  | .ok tp =>
      let splitAddrs := splitAndTrim addrs
      match clauseValue "LIMIT" tp.limitClause, clauseValue "OFFSET" tp.offsetClause with
      | some limit, some offset =>
          match Postgres.getTxIDsByAddresses blocks tables splitAddrs limit (fun _ _ _ => true)
              offset with
          | .error err => some (.queryFailed (some err))
          | .ok txids =>
              (getTxs btcutil pick first sorter schedule blocks tables txids).map
                (historyPage tp (Postgres.getTotalTxsByAddresses blocks tables splitAddrs))
      | _, _ => some (.queryFailed none)

/-! ## Every page is a window of the history -/

/-- The txids of the history of the addresses, newest first. -/
def historyTxids (blocks : Txo.Table) (tables : Tables) (addrs : List String) : List String :=
  (tables.transactions.filter (Postgres.inHistory blocks tables addrs fun _ _ _ => true)).reverse.map
    TransactionRow.txid

variable {btcutil : Btcutil Address} {pick : Pick Postgres.SpentTxDetails} {first : Pick TxsError}
  {sorter : Sorter} {schedule : Schedule} {blocks : Txo.Table} {tables : Tables}

/-- On tables whose ids are keys and ascend in the order of the rows, a request whose numbers read
as non-negative (`from` below `2 ^ 63 - 10`) gets the page `[From, To)` of the history of its
addresses, newest first, expanded by `getTxs`, with the length of the whole history as
`TotalItems`. -/
theorem txHistoryByAddrs_eq (keyed : tables.keys.Keyed) (ascending : Postgres.IdsAscending tables)
    {fromArg toArg : List UInt8} {tp : Pagination}
    (accepted : traditionalPagintion fromArg toArg defaultTxs maxTransactions = .ok tp)
    (from_nonneg : 0 ≤ (Strconv.atoi fromArg).1) (from_small : (Strconv.atoi fromArg).1 + 10 < 2 ^ 63)
    (to_nonneg : 0 ≤ (Strconv.atoi toArg).1) (addrs : String) :
    txHistoryByAddrs btcutil pick first sorter schedule blocks tables addrs fromArg toArg =
      let history := historyTxids blocks tables (splitAndTrim addrs)
      (getTxs btcutil pick first sorter schedule blocks tables
          ((history.drop tp.fromPage.toNat).take (tp.toPage - tp.fromPage).toNat)).map
        (historyPage tp history.length) := by
  obtain ⟨limit, offset, limit_read, offset_read, cut⟩ :=
    window_clauses (traditionalPagintion_window accepted from_nonneg from_small to_nonneg)
  have page : Postgres.getTxIDsByAddresses blocks tables (splitAndTrim addrs) (some limit)
      (fun _ _ _ => true) offset =
      .ok (((historyTxids blocks tables (splitAndTrim addrs)).drop tp.fromPage.toNat).take
        (tp.toPage - tp.fromPage).toNat) := by
    rw [Postgres.getTxIDsByAddresses_eq keyed ascending, cut]
    simp [historyTxids, List.map_take, List.map_drop]
  have count : Postgres.getTotalTxsByAddresses blocks tables (splitAndTrim addrs) =
      (historyTxids blocks tables (splitAndTrim addrs)).length := by
    rw [Postgres.getTotalTxsByAddresses_eq keyed, historyTxids, List.length_map, List.length_reverse]
  rw [txHistoryByAddrs, accepted]
  simp only [limit_read, offset_read, page, count]

/-- The second and third transactions of the history of `x` in the tables of the
reorganisation: `from=1&to=3`. -/
theorem txHistoryByAddrs_reorgTables :
    Postgres.reorgTables.keys.Keyed ∧ Postgres.IdsAscending Postgres.reorgTables ∧
      traditionalPagintion [49] [51] defaultTxs maxTransactions = .ok ⟨"LIMIT 2", "OFFSET 1", 1, 3⟩ ∧
      0 ≤ (Strconv.atoi [49]).1 ∧ (Strconv.atoi [49]).1 + 10 < 2 ^ 63 ∧ 0 ≤ (Strconv.atoi [51]).1 ∧
      txHistoryByAddrs versionInFront Pick.first Pick.first SortSlice.merge lastFirst
          Postgres.reorgBlocks Postgres.reorgTables "x" [49] [51] =
        let history := historyTxids Postgres.reorgBlocks Postgres.reorgTables (splitAndTrim "x")
        (getTxs versionInFront Pick.first Pick.first SortSlice.merge lastFirst Postgres.reorgBlocks
            Postgres.reorgTables ((history.drop 1).take 2)).map
          (historyPage ⟨"LIMIT 2", "OFFSET 1", 1, 3⟩ history.length) := by
  have keyed : Postgres.reorgTables.keys.Keyed := ⟨by decide, by decide⟩
  have ascending : Postgres.IdsAscending Postgres.reorgTables := by
    unfold Postgres.IdsAscending
    decide
  have accepted : traditionalPagintion [49] [51] defaultTxs maxTransactions =
      .ok ⟨"LIMIT 2", "OFFSET 1", 1, 3⟩ := by decide
  exact ⟨keyed, ascending, accepted, by decide, by decide, by decide,
    txHistoryByAddrs_eq keyed ascending accepted (by decide) (by decide) (by decide) "x"⟩

end Insight
end Coinquery
