import Coinquery.Insight.TxHistory

/-!
# The unspent outputs of addresses

`UtxosByAddrs`, the handler of `/{coin}/{addrs}/utxos` in `pkg/api/insight/insight.go`, splits the
addresses of the path, refuses more than `MAX_ADDRESSES` of them with status 422, and answers with
`getUtxos` of `pkg/api/insight/helpers.go`: every output `GetUtxosByAddrs` lists, with its
confirmations, its amount in BTC and its address in the legacy format, sorted by height, highest
first, with `sort.Slice`. The loop over the outputs returns at the first address that does not
normalize.

An answer of the handler lists the unspent coins of the ledger at the addresses, each once, by
height, highest first, each with the amount and the confirmations of its own row
(`utxosByAddrs_ok`).

Left out: `Timestamp`, the parse of the output's time, and the errors of the connection.
-/

namespace Coinquery
namespace Insight

open Api Cashaddr SelectInto SortSlice Txo.Columns

variable {Address : Type}

/-- `MAX_ADDRESSES`. -/
def maxAddresses : Nat := 50

/-- `insightUtxo` without `Timestamp`. -/
structure InsightUtxo where
  address : Data
  txID : String
  vout : Int
  scriptPubKey : String
  reqSigs : Int
  type : String
  amount : ℚ
  satoshis : Int
  confirmations : Int
  blockHeight : Int
  deriving DecidableEq

/-- The error `getUtxos` returns: "failed to normalize address: %s" around the error of
`normalizeAddrFormat`. -/
inductive UtxoError
  | normalize (address : Data) (cause : Wrapped)
  deriving DecidableEq

/-- The confirmations of an output at `blockHeight`: `0` in the mempool, else counted from
`lb.Height`; `none` is the dereference of a nil `lb`. -/
def utxoConfirmations (lastBlock : Option Int) (blockHeight : Int) : Option Int :=
  if blockHeight = -1 then some 0 else lastBlock.map fun height => height - blockHeight + 1

/-- The body of the loop of `getUtxos` for one output; `none` is a panic, of `lb.Height` with no
block stored or of `normalizeAddrFormat`. -/
def insightUtxo (btcutil : Btcutil Address) (lastBlock : Option Int) (out : Postgres.Utxo) :
    Option (Except UtxoError InsightUtxo) :=
  (utxoConfirmations lastBlock out.blockHeight).bind fun confirmations =>
    match normalizeAddrFormat btcutil (goBytes out.address) with
    | none => none
    | some (.error err) => some (.error (.normalize (goBytes out.address) err))
    | some (.ok addr) =>
        some (.ok ⟨addr, out.txID, out.vout, out.hex, out.reqSigs, out.type,
          Convert.toBTC out.satAmount, out.satAmount, confirmations, out.blockHeight⟩)

/-- The loop of `getUtxos`, which returns at the first error. -/
def collectUtxos (btcutil : Btcutil Address) (lastBlock : Option Int) :
    List Postgres.Utxo → Option (Except UtxoError (List InsightUtxo))
  | [] => some (.ok [])
  | out :: rest =>
      match insightUtxo btcutil lastBlock out with
      | none => none
      | some (.error err) => some (.error err)
      | some (.ok utxo) =>
          (collectUtxos btcutil lastBlock rest).map fun collected => collected.map (utxo :: ·)

/-- `getUtxos(addrs)`, with `LastBlock` the height of the highest live block, or nil; `none` is a
panic. -/
def getUtxos (btcutil : Btcutil Address) (sorter : Sorter) (blocks : Txo.Table) (tables : Tables)
    (addrs : List String) : Option (Except UtxoError (List InsightUtxo)) :=
  (collectUtxos btcutil blocks.lastBlockHeight (Postgres.getUtxosByAddrs blocks tables addrs)).map
    fun collected => collected.map (sorter.sortBy fun utxo => -utxo.blockHeight)

/-- What `UtxosByAddrs` writes. -/
inductive UtxosResponse
  /-- Status 422; `body` is the text given to `http.Error`. -/
  | unprocessable (body : String)
  /-- Status 500 with the error of `getUtxos`. -/
  | failed (err : UtxoError)
  /-- `insightUtxos`. -/
  | ok (utxos : List InsightUtxo)
  deriving DecidableEq

/-- The handler once `getUtxos` has answered. -/
def utxosResponse : Except UtxoError (List InsightUtxo) → UtxosResponse
  | .error err => .failed err
  | .ok utxos => .ok utxos

/-- `UtxosByAddrs`, for the addresses of the path; `none` is a panic of `getUtxos`. -/
def utxosByAddrs (btcutil : Btcutil Address) (sorter : Sorter) (blocks : Txo.Table) (tables : Tables)
    (addrs : String) : Option UtxosResponse :=
  let splitAddrs := splitAndTrim addrs
  if splitAddrs.length > maxAddresses then
    some (.unprocessable
      s!"You have requested {splitAddrs.length} addresses. Max: {maxAddresses}")
  else (getUtxos btcutil sorter blocks tables splitAddrs).map utxosResponse

/-! ## What an answer holds -/

variable {btcutil : Btcutil Address} {lastBlock : Option Int}

/-- An output read into an `insightUtxo` keeps its outpoint, height and amount, and counts its
confirmations from the last block. -/
theorem insightUtxo_eq_ok {out : Postgres.Utxo} {utxo : InsightUtxo}
    (read : insightUtxo btcutil lastBlock out = some (.ok utxo)) :
    utxo.txID = out.txID ∧ utxo.vout = out.vout ∧ utxo.blockHeight = out.blockHeight ∧
      utxo.satoshis = out.satAmount ∧ utxo.amount = Convert.toBTC utxo.satoshis ∧
      (out.blockHeight = -1 → utxo.confirmations = 0) ∧
      (out.blockHeight ≠ -1 →
        ∃ height, lastBlock = some height ∧ utxo.confirmations = height - out.blockHeight + 1) := by
  unfold insightUtxo at read
  -- the confirmations come first, then the address
  obtain ⟨confirmations, counted, normalized⟩ := Option.bind_eq_some_iff.mp read
  split at normalized
  · cases normalized
  · cases normalized
  · cases normalized
    refine ⟨rfl, rfl, rfl, rfl, rfl, fun mempool => ?_, fun mined => ?_⟩
    · simpa [utxoConfirmations, mempool] using counted.symm
    · rw [utxoConfirmations, if_neg mined] at counted
      obtain ⟨height, last, rfl⟩ := Option.map_eq_some_iff.mp counted
      exact ⟨height, last, rfl⟩

theorem collectUtxos_eq_ok {outs : List Postgres.Utxo} {utxos : List InsightUtxo}
    (collected : collectUtxos btcutil lastBlock outs = some (.ok utxos)) :
    List.Forall₂ (fun out utxo => insightUtxo btcutil lastBlock out = some (.ok utxo)) outs utxos := by
  induction outs generalizing utxos with
  | nil =>
      cases collected
      exact .nil
  | cons out rest induction =>
      unfold collectUtxos at collected
      split at collected
      · cases collected
      · cases collected
      · rename_i utxo read
        obtain ⟨result, rest_collected, mapped⟩ := Option.map_eq_some_iff.mp collected
        cases result with
        | error err => cases mapped
        | ok others =>
            cases mapped
            exact .cons read (induction rest_collected)

/-- An answer of `UtxosByAddrs` lists the unspent coins of the ledger at the addresses, each once,
by height, highest first, each with the amount of its row and its confirmations counted from the
last block. -/
theorem utxosByAddrs_ok (sorter : Sorter) {blocks : Txo.Table} {tables : Tables} {addrs : String}
    {utxos : List InsightUtxo}
    (answered : utxosByAddrs btcutil sorter blocks tables addrs = some (.ok utxos)) :
    (splitAndTrim addrs).length ≤ maxAddresses ∧
      (utxos.map fun utxo => (utxo.txID, utxo.vout)).Perm
        (((Postgres.ledger tables).unspent.filter fun coin =>
          (splitAndTrim addrs).contains coin.2.2.address).map Prod.fst) ∧
      utxos.Pairwise (fun utxo other => other.blockHeight ≤ utxo.blockHeight) ∧
      ∀ utxo ∈ utxos, utxo.amount = Convert.toBTC utxo.satoshis ∧
        (utxo.blockHeight = -1 → utxo.confirmations = 0) ∧
        (utxo.blockHeight ≠ -1 → ∃ height, blocks.lastBlockHeight = some height ∧
          utxo.confirmations = height - utxo.blockHeight + 1) := by
  unfold utxosByAddrs at answered
  dsimp only at answered
  split at answered
  · cases answered
  · rename_i few
    obtain ⟨result, got, responded⟩ := Option.map_eq_some_iff.mp answered
    obtain ⟨collected, gathered, sorted⟩ := Option.map_eq_some_iff.mp got
    cases collected with
    | error err => cases sorted; cases responded
    | ok read =>
        cases sorted
        cases responded
        have related := collectUtxos_eq_ok gathered
        -- the outpoints of the rows read, in the order of `GetUtxosByAddrs`
        have outpoints : read.map (fun utxo => (utxo.txID, utxo.vout)) =
            ((Postgres.ledger tables).unspent.filter fun coin =>
              (splitAndTrim addrs).contains coin.2.2.address).map Prod.fst := by
          rw [Postgres.getUtxosByAddrs_eq_unspent] at related
          have same := map_eq_of_forall₂ (fun out : Postgres.Utxo => (out.txID, out.vout))
            (fun utxo : InsightUtxo => (utxo.txID, utxo.vout)) related fun out _ utxo read_ok => by
              obtain ⟨txid, vout, -⟩ := insightUtxo_eq_ok read_ok
              rw [txid, vout]
          rw [← same, List.map_map]
          refine List.map_congr_left fun coin listed => ?_
          have keyed := Postgres.key_of_mem_created
            (List.mem_filter.mp (List.mem_filter.mp listed).1).1
          simp [keyed, Postgres.scanUtxo]
        refine ⟨by omega, ?_, ?_, fun utxo member => ?_⟩
        · rw [← outpoints]
          exact (sorter.perm _ _).map _
        · have descending := sorter.sorted (fun utxo => -utxo.blockHeight) read
          exact descending.imp fun below => by omega
        · obtain ⟨out, -, read_ok⟩ := exists_mem_of_forall₂ related
            ((sorter.perm (fun utxo => -utxo.blockHeight) read).subset member)
          obtain ⟨-, -, height, -, amount, mempool, mined⟩ := insightUtxo_eq_ok read_ok
          rw [height]
          exact ⟨amount, mempool, mined⟩

/-- The one coin of `x` once one transaction is stored in block `1`. -/
theorem utxosByAddrs_ok_oneInputTables :
    let utxos : List InsightUtxo := [⟨[120], "t", 0, "b", 1, "pubkeyhash", 1, 100000000, 1, 1⟩]
    utxosByAddrs versionInFront SortSlice.insertion Postgres.reorgBlocks Postgres.oneInputTables
        "x" = some (.ok utxos) ∧
      (splitAndTrim "x").length ≤ maxAddresses ∧
      (utxos.map fun utxo => (utxo.txID, utxo.vout)).Perm
        (((Postgres.ledger Postgres.oneInputTables).unspent.filter fun coin =>
          (splitAndTrim "x").contains coin.2.2.address).map Prod.fst) ∧
      utxos.Pairwise (fun utxo other => other.blockHeight ≤ utxo.blockHeight) ∧
      ∀ utxo ∈ utxos, utxo.amount = Convert.toBTC utxo.satoshis ∧
        (utxo.blockHeight = -1 → utxo.confirmations = 0) ∧
        (utxo.blockHeight ≠ -1 → ∃ height, Postgres.reorgBlocks.lastBlockHeight = some height ∧
          utxo.confirmations = height - utxo.blockHeight + 1) := by
  intro utxos
  have answered : utxosByAddrs versionInFront SortSlice.insertion Postgres.reorgBlocks
      Postgres.oneInputTables "x" = some (.ok utxos) := by
    decide +kernel
  exact ⟨answered, utxosByAddrs_ok SortSlice.insertion answered⟩

end Insight
end Coinquery
