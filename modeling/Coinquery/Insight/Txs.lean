import Coinquery.Insight.AddrFormat
import Coinquery.Postgres.History
import Coinquery.Convert.ToBTC
import Coinquery.Api.Pagination
import Coinquery.Library.SortSlice

/-!
# The transactions of the Insight API

`getTxs(txids)` of `pkg/api/insight/helpers.go` reads each transaction with `GetTxByTxID` in a
goroutine of its own. That goroutine starts one goroutine per input (`processTxInput`) and per
output (`processTxOutput`) and receives what they send in a `select` loop, in whatever order they
send it. The loop appends the `insightVin`s and `insightVout`s it receives, adds the value of
every input to `valueIn`, and adds to `valueOut` what `ToSatoshi` reads back from the `%.8f` text
of every output's value. The two lists are sorted by `n` with `sort.Slice`, the transactions by
height, and the handler answers with the first error any goroutine sent, if one did.

The order of arrival is a parameter (`Schedule`), as are the sorts (`Sorter`) and the error the
handler receives first (`Pick`). The loop that returns early on an error closes its channels, and
a helper that sends afterwards panics (`none`), as does a nil `LastBlock` read for a transaction
in a block. On tables that serial calls keep (`Postgres.Invariant`), with amounts below `2 ^ 52`
satoshis, `getTxs` answers what the loop would with everything received in the order of the rows
and `valueOut` the sum of the stored amounts (`getTxs_eq_expectedTxs`): no order of arrival
changes the answer, every value text reads back, and the totals are exact.

Left out: the `Time` and `BlockTime` of a transaction and the parse of its timestamp, and the
capacity of `errChan`, taken as large enough for every error sent.
-/

namespace Coinquery

/-! ## Lists of results -/

theorem mapM_eq_some_iff {α β : Type} {f : α → Option β} {xs : List α} {ys : List β} :
    xs.mapM f = some ys ↔ List.Forall₂ (fun x y => f x = some y) xs ys := by
  induction xs generalizing ys with
  | nil => cases ys <;> simp
  | cons x xs induction =>
      rw [List.mapM_cons]
      cases ys with
      | nil => simp [Option.bind_eq_some_iff]
      | cons y ys => simp [Option.bind_eq_some_iff, ← induction]

theorem map_eq_of_forall₂ {α β γ : Type} {R : α → β → Prop} (f : α → γ) (g : β → γ)
    {xs : List α} {ys : List β} (related : List.Forall₂ R xs ys)
    (same : ∀ a ∈ xs, ∀ b, R a b → f a = g b) : xs.map f = ys.map g := by
  induction related with
  | nil => rfl
  | cons head _ induction =>
      rw [List.map_cons, List.map_cons, same _ List.mem_cons_self _ head,
        induction fun a member => same a (List.mem_cons_of_mem _ member)]

theorem exists_mem_of_forall₂ {α β : Type} {R : α → β → Prop} {xs : List α} {ys : List β}
    (related : List.Forall₂ R xs ys) {b : β} (member : b ∈ ys) : ∃ a ∈ xs, R a b := by
  induction related with
  | nil => cases member
  | cons head _ induction =>
      rcases List.mem_cons.mp member with rfl | later
      · exact ⟨_, List.mem_cons_self, head⟩
      · obtain ⟨a, listed, related⟩ := induction later
        exact ⟨a, List.mem_cons_of_mem _ listed, related⟩

/-! ## What `GetTxByTxID` returns -/

namespace Postgres

open Txo.Columns

variable {tables : Tables}

theorem eq_of_joinsTxid (distinct : TxidsDistinct tables) {txid : String} {id other : Nat}
    (joins : joinsTxid tables txid id = true) (joins_other : joinsTxid tables txid other = true) :
    id = other := by
  simp only [joinsTxid, List.any_eq_true, Bool.and_eq_true, beq_iff_eq] at joins joins_other
  obtain ⟨tx, member, rfl, same⟩ := joins
  obtain ⟨tx', member', rfl, same'⟩ := joins_other
  rw [List.inj_on_of_nodup_map distinct member member' (same.trans same'.symm)]

theorem nodup_vin_inputsOf (valid : Invariant tables) (txid : String) :
    ((inputsOf tables txid).map InputRow.vin).Nodup := by
  have keys : ((inputsOf tables txid).map InputRow.key).Nodup :=
    valid.indexes.inputs.sublist (List.filter_sublist.map _)
  refine List.Nodup.map_on ?_ (keys.of_map _)
  intro row member other other_member same
  have same_tx := eq_of_joinsTxid valid.txids (List.mem_filter.mp member).2
    (List.mem_filter.mp other_member).2
  exact List.inj_on_of_nodup_map keys member other_member (by simp [InputRow.key, same_tx, same])

theorem nodup_vout_outputsOf (valid : Invariant tables) (txid : String) :
    ((outputsOf tables txid).map OutputRow.vout).Nodup := by
  have keys : ((outputsOf tables txid).map OutputRow.key).Nodup :=
    valid.indexes.outputs.sublist (List.filter_sublist.map _)
  refine List.Nodup.map_on ?_ (keys.of_map _)
  intro row member other other_member same
  have same_tx := eq_of_joinsTxid valid.txids (List.mem_filter.mp member).2
    (List.mem_filter.mp other_member).2
  exact List.inj_on_of_nodup_map keys member other_member (by simp [OutputRow.key, same_tx, same])

theorem scanInput_vin {txid : String} {row : InputRow} {input : Input}
    (scanned : scanInput txid row = .ok input) : input.vin = row.vin := by
  unfold scanInput at scanned
  split at scanned
  · cases scanned
  · cases scanned
    rfl

theorem getTxByTxID_eq_ok {blocks : Txo.Table} {txid : String} {tx : TxDetails}
    (fetched : getTxByTxID blocks tables txid = .ok tx) :
    ∃ row, transactionByTxid tables txid = some row ∧
      getInputsByTxID tables row.txid = .ok tx.inputs ∧
      tx.outputs = getOutputsByTxID tables row.txid (fun _ => true) ∧ tx.txID = row.txid := by
  unfold getTxByTxID at fetched
  split at fetched
  · cases fetched
  · rename_i row found
    obtain ⟨inputs, inputs_ok, built⟩ := Jsonb.bind_eq_ok.mp fetched
    cases Jsonb.pure_eq_ok.mp built
    exact ⟨row, found, Jsonb.mapError_eq_ok.mp inputs_ok, rfl, rfl⟩

/-- On tables that serial calls keep, `GetTxByTxID` returns inputs with distinct `vin`s and
outputs with distinct `vout`s, each output with the amount of a stored row. -/
theorem getTxByTxID_rows (valid : Invariant tables) {blocks : Txo.Table} {txid : String}
    {tx : TxDetails} (fetched : getTxByTxID blocks tables txid = .ok tx) :
    (tx.inputs.map Input.vin).Nodup ∧ (tx.outputs.map Output.vout).Nodup ∧
      ∀ output ∈ tx.outputs, ∃ row ∈ tables.outputs, output.satAmount = row.amount := by
  obtain ⟨row, _, inputs_ok, outputs_eq, _⟩ := getTxByTxID_eq_ok fetched
  have scanned := Jsonb.mapM_eq_ok_iff.mp inputs_ok
  refine ⟨?_, ?_, ?_⟩
  · have same : (inputsOf tables row.txid).map InputRow.vin = tx.inputs.map Input.vin :=
      map_eq_of_forall₂ InputRow.vin Input.vin scanned fun _ _ _ ok => (scanInput_vin ok).symm
    rw [← same]
    exact nodup_vin_inputsOf valid row.txid
  · simpa [outputs_eq, getOutputsByTxID, scanOutput, Function.comp_def] using
      nodup_vout_outputsOf valid row.txid
  · intro output member
    rw [outputs_eq, getOutputsByTxID, List.filter_true] at member
    obtain ⟨stored, listed, rfl⟩ := List.mem_map.mp member
    exact ⟨stored, (List.mem_filter.mp listed).1, rfl⟩

end Postgres

namespace Insight

open Cashaddr SelectInto SortSlice Txo.Columns

variable {Address : Type}

/-- `[]byte(s)`: the UTF-8 bytes of a Go string. -/
def goBytes (s : String) : Data :=
  s.toUTF8.toList

/-! ## What the API sends -/

/-- The `ScriptSig` of an `insightVin`, whose `Asm` is a pointer: nil for an empty asm. -/
structure ScriptSig where
  asm : Option String
  hex : String
  deriving DecidableEq

/-- `insightVin`; a pointer is an `Option`, and a field Go does not set keeps its zero value. -/
structure InsightVin where
  txID : String
  vout : Option Int
  n : Int
  scriptSig : ScriptSig
  txInWitness : Option (List String)
  sequence : Int
  coinbase : String
  address : Data
  valueSat : Int
  value : ℚ
  deriving DecidableEq

/-- The `ScriptPubKey` of an `insightVout`. -/
structure VoutScript where
  asm : String
  hex : String
  reqSigs : Int
  addresses : Option (List Data)
  type : String
  deriving DecidableEq

/-- `insightVout`; `value` is the text of `fmt.Sprintf("%.8f", btc)`. -/
structure InsightVout where
  value : List UInt8
  n : Int
  scriptPubKey : VoutScript
  spentTxID : Option String
  spentTxIndex : Option Int
  spentTxBlockHeight : Option Int
  deriving DecidableEq

/-- `insightTx`, without `Time` and `BlockTime`. -/
structure InsightTx where
  txID : String
  hash : String
  version : Int
  size : Int
  vSize : Int
  weight : Int
  locktime : Int
  vin : List InsightVin
  vout : List InsightVout
  blockHash : String
  blockHeight : Int
  confirmations : Int
  isCoinBase : Bool
  valueOut : ℚ
  valueIn : ℚ
  fees : Option ℚ
  deriving DecidableEq

/-- The errors the goroutines of `getTxs` send on `errChan`, with what their messages print. -/
inductive TxsError
  /-- The wrap of a `GetTxByTxID` error: "failed to get transactions from txids: %v". -/
  | transactions (txids : List String) (cause : String)
  /-- The wrap in `processTxInput`: "failed to normalize address: %s". -/
  | inputAddress (address : Data) (cause : Wrapped)
  /-- The same wrap in `processTxOutput`. -/
  | outputAddress (address : Data) (cause : Wrapped)
  /-- The wrap of a `ToSatoshi` error: "failed to parse value in transaction: %s\n vout: %v". -/
  | value (txid : String) (vout : InsightVout) (cause : Convert.Wrapped)
  deriving DecidableEq

/-! ## The helpers -/

/-- `processTxInput(vin, …)`: the `insightVin` it sends on `inputsChan`, or the error it sends on
`errChan` instead; `none` is a panic of `normalizeAddrFormat`. The spent output is read with the
clause `AND output.vout = vin.SpentVout`. -/
def processTxInput (btcutil : Btcutil Address) (tables : Tables) (vin : Postgres.Input) :
    Option (Except TxsError InsightVin) :=
  let v : InsightVin :=
    ⟨vin.spentTx, if vin.coinbase = "" then some vin.spentVout else none, vin.vin,
      ⟨if vin.asm = "" then none else some vin.asm, vin.hex⟩, vin.txInWitness, vin.sequence,
      vin.coinbase, [], 0, 0⟩
  match Postgres.getOutputsByTxID tables vin.spentTx (fun row => row.vout == vin.spentVout) with
  | [] => some (.ok v)
  | output :: _ =>
      match normalizeAddrFormat btcutil (goBytes output.address) with
      | none => none
      | some (.error err) => some (.error (.inputAddress (goBytes output.address) err))
      | some (.ok addr) =>
          some (.ok { v with
            valueSat := output.satAmount
            value := Convert.toBTC output.satAmount
            address := addr })

/-- `processTxOutput(txid, vout, …)`: the `insightVout` it sends on `outputsChan`, with the error it
sends on `errChan` first when the address does not normalize; `none` is a panic. -/
def processTxOutput (btcutil : Btcutil Address) (pick : Pick Postgres.SpentTxDetails)
    (blocks : Txo.Table) (tables : Tables) (txid : String) (vout : Postgres.Output) :
    Option (InsightVout × Option TxsError) :=
  let details := Postgres.getSpentTxDetails pick blocks tables txid vout.vout
  let v : InsightVout :=
    ⟨Binary64.formatFixed 8 (Convert.toBTC vout.satAmount), vout.vout,
      ⟨vout.asm, vout.hex, vout.reqSigs, none, if vout.type = "nulldata" then "" else vout.type⟩,
      details.map (·.spentTxID), details.map (·.spentIndex), details.map (·.spentHeight)⟩
  if vout.address = "unsupported addr" then some (v, none)
  else
    match normalizeAddrFormat btcutil (goBytes vout.address) with
    | none => none
    -- the error is sent, and the vout still goes out with the empty address Go returns
    | some (.error err) =>
        some ({ v with scriptPubKey := { v.scriptPubKey with addresses := some [[]] } },
          some (.outputAddress (goBytes vout.address) err))
    | some (.ok addr) =>
        some ({ v with scriptPubKey := { v.scriptPubKey with addresses := some [addr] } }, none)

/-! ## The `select` loop -/

/-- What a helper sends to the loop: on `inputsChan` or on `outputsChan`. -/
inductive Delivery
  | vin (v : InsightVin)
  | vout (v : InsightVout)
  deriving DecidableEq

def Delivery.asVin : Delivery → Option InsightVin
  | .vin v => some v
  | .vout _ => none

def Delivery.asVout : Delivery → Option InsightVout
  | .vin _ => none
  | .vout v => some v

/-- The variables of the loop. -/
structure Received where
  vins : List InsightVin
  vouts : List InsightVout
  valueIn : Int
  valueOut : Int
  deriving DecidableEq

/-- One case of the `select`. A vout whose text `ToSatoshi` rejects ends the loop with an error;
`none` is the panic of `ToSatoshi`. The sums are Go's `int64`. -/
def receive (txid : String) (received : Received) : Delivery → Option (Except TxsError Received)
  | .vin v =>
      some (.ok { received with
        vins := received.vins ++ [v]
        valueIn := Api.goInt (received.valueIn + v.valueSat) })
  | .vout v =>
      match Convert.toSatoshi v.value with
      | none => none
      | some (_, some err) => some (.error (.value txid v err))
      | some (sats, none) =>
          some (.ok { received with
            vouts := received.vouts ++ [v]
            valueOut := Api.goInt (received.valueOut + sats) })

/-- The loop over the deliveries in the order it receives them. When it returns on an error, its
deferred `close`s run, and every helper still to send panics. -/
def receiveAll (txid : String) : Received → List Delivery → Option (Except TxsError Received)
  | received, [] => some (.ok received)
  | received, delivery :: rest =>
      match receive txid received delivery with
      | none => none
      | some (.ok next) => receiveAll txid next rest
      | some (.error err) => if rest = [] then some (.error err) else none

/-- The order in which the loop of a txid receives what the helpers send: any order. -/
structure Schedule where
  order : String → List Delivery → List Delivery
  perm : ∀ txid deliveries, (order txid deliveries).Perm deliveries

/-! ## One transaction -/

/-- What the goroutine of one txid leaves: the errors it and its helpers send, and the
transaction it stores in `txs`. -/
structure TxRun where
  errors : List TxsError
  tx : Option InsightTx
  deriving DecidableEq

/-- The error of a failed input. -/
def sentError {α : Type} : Except TxsError α → Option TxsError
  | .error err => some err
  | .ok _ => none

/-- The errors the helpers send. -/
def helperErrors (vins : List (Except TxsError InsightVin))
    (vouts : List (InsightVout × Option TxsError)) : List TxsError :=
  vins.filterMap sentError ++ vouts.filterMap Prod.snd

/-- What the helpers send to the loop: the vins of the inputs that do not fail, and the vouts. -/
def deliveries (vins : List (Except TxsError InsightVin))
    (vouts : List (InsightVout × Option TxsError)) : List Delivery :=
  (vins.filterMap Except.toOption).map .vin ++ vouts.map fun sent => .vout sent.1

/-- The `insightTx` the goroutine stores once the loop has received everything; `none` is the
dereference of a nil `LastBlock` for a transaction in a block. -/
def insightTx (sorter : Sorter) (lastBlock : Option Int) (tx : Postgres.TxDetails)
    (received : Received) : Option InsightTx :=
  let vins := sorter.sortBy InsightVin.n received.vins
  let vouts := sorter.sortBy InsightVout.n received.vouts
  let confirmations :=
    if tx.blockHeight = -1 then some 0 else lastBlock.map fun height => height - tx.blockHeight + 1
  let coinBase := vins.length == 1 && vins.any (·.coinbase != "")
  confirmations.map fun confirmations =>
    ⟨tx.txID, tx.hash, tx.version, tx.size, tx.vSize, tx.weight, tx.locktime, vins, vouts,
      tx.blockHash, tx.blockHeight, confirmations, coinBase, Convert.toBTC received.valueOut,
      if coinBase then 0 else Convert.toBTC received.valueIn,
      if coinBase then none
      else some (Convert.toBTC (Api.goInt (received.valueIn - received.valueOut)))⟩

/-- The loop of the goroutine of `txid` and what follows it, given what the helpers sent and the
order in which the loop receives it. -/
def loopTx (sorter : Sorter) (lastBlock : Option Int) (tx : Postgres.TxDetails) (txid : String)
    (vins : List (Except TxsError InsightVin)) (vouts : List (InsightVout × Option TxsError))
    (arrivals : List Delivery) : Option TxRun := do
  let looped ← receiveAll txid ⟨[], [], 0, 0⟩ arrivals
  match looped with
  | .error err => pure ⟨helperErrors vins vouts ++ [err], none⟩
  | .ok received =>
      -- an input that failed sends nothing, and the loop waits for it forever
      if arrivals.length < tx.inputs.length + tx.outputs.length then
        pure ⟨helperErrors vins vouts, none⟩
      else do
        let stored ← insightTx sorter lastBlock tx received
        pure ⟨helperErrors vins vouts, some stored⟩

/-- The goroutine of `txid`; `none` is a panic in it or in one of its helpers. -/
def runTx (btcutil : Btcutil Address) (pick : Pick Postgres.SpentTxDetails) (sorter : Sorter)
    (schedule : Schedule) (blocks : Txo.Table) (tables : Tables) (lastBlock : Option Int)
    (txids : List String) (txid : String) : Option TxRun :=
  match Postgres.getTxByTxID blocks tables txid with
  | .error err => some ⟨[.transactions txids err], none⟩
  | .ok tx => do
      let vins ← tx.inputs.mapM (processTxInput btcutil tables)
      let vouts ← tx.outputs.mapM (processTxOutput btcutil pick blocks tables tx.txID)
      loopTx sorter lastBlock tx txid vins vouts (schedule.order txid (deliveries vins vouts))

/-- The end of `getTxs`: the error the handler receives first, or the transactions sorted by
height, highest first. -/
def respond (first : Pick TxsError) (sorter : Sorter) (runs : List TxRun) :
    Except TxsError (List InsightTx) :=
  match first.choose (runs.flatMap TxRun.errors) with
  | some err => .error err
  | none => .ok (sorter.sortBy (fun tx => -tx.blockHeight) (runs.filterMap TxRun.tx))

/-- `getTxs(txids)`, with `LastBlock` the height of the highest live block, or nil; `none` is a
panic. -/
def getTxs (btcutil : Btcutil Address) (pick : Pick Postgres.SpentTxDetails) (first : Pick TxsError)
    (sorter : Sorter) (schedule : Schedule) (blocks : Txo.Table) (tables : Tables)
    (txids : List String) : Option (Except TxsError (List InsightTx)) :=
  (txids.mapM (runTx btcutil pick sorter schedule blocks tables blocks.lastBlockHeight txids)).map
    (respond first sorter)

/-! ## What the loop should compute -/

/-- What the loop should make of the helpers' results: with every input delivered, the vins and
vouts in the order of the rows, and `valueOut` the sum of the stored amounts. -/
def expectedLoop (sorter : Sorter) (lastBlock : Option Int) (tx : Postgres.TxDetails)
    (vins : List (Except TxsError InsightVin)) (vouts : List (InsightVout × Option TxsError)) :
    Option TxRun :=
  if vins.all Except.isOk then do
    let delivered := vins.filterMap Except.toOption
    let stored ← insightTx sorter lastBlock tx ⟨delivered, vouts.map Prod.fst,
      Api.goInt (delivered.map InsightVin.valueSat).sum,
      Api.goInt (tx.outputs.map Postgres.Output.satAmount).sum⟩
    pure ⟨helperErrors vins vouts, some stored⟩
  else pure ⟨helperErrors vins vouts, none⟩

/-- The goroutine of `txid` with `expectedLoop` in place of the loop. -/
def expectedRun (btcutil : Btcutil Address) (pick : Pick Postgres.SpentTxDetails) (sorter : Sorter)
    (blocks : Txo.Table) (tables : Tables) (lastBlock : Option Int) (txids : List String)
    (txid : String) : Option TxRun :=
  match Postgres.getTxByTxID blocks tables txid with
  | .error err => some ⟨[.transactions txids err], none⟩
  | .ok tx => do
      let vins ← tx.inputs.mapM (processTxInput btcutil tables)
      let vouts ← tx.outputs.mapM (processTxOutput btcutil pick blocks tables tx.txID)
      expectedLoop sorter lastBlock tx vins vouts

/-- `getTxs` with every goroutine run as `expectedRun`. -/
def expectedTxs (btcutil : Btcutil Address) (pick : Pick Postgres.SpentTxDetails) (first : Pick TxsError)
    (sorter : Sorter) (blocks : Txo.Table) (tables : Tables) (txids : List String) :
    Option (Except TxsError (List InsightTx)) :=
  (txids.mapM (expectedRun btcutil pick sorter blocks tables blocks.lastBlockHeight txids)).map
    (respond first sorter)

/-! ## What the helpers send -/

variable {btcutil : Btcutil Address} {pick : Pick Postgres.SpentTxDetails} {blocks : Txo.Table}
  {tables : Tables}

theorem processTxInput_n {input : Postgres.Input} {v : InsightVin}
    (sent : processTxInput btcutil tables input = some (.ok v)) : v.n = input.vin := by
  unfold processTxInput at sent
  cases listed : Postgres.getOutputsByTxID tables input.spentTx
      (fun row => row.vout == input.spentVout) with
  | nil =>
      simp only [listed, Option.some.injEq, Except.ok.injEq] at sent
      rw [← sent]
  | cons output _ =>
      simp only [listed] at sent
      cases normalized : normalizeAddrFormat btcutil (goBytes output.address) with
      | none => simp [normalized] at sent
      | some result =>
          cases result with
          | error err => simp [normalized] at sent
          | ok addr =>
              simp only [normalized, Option.some.injEq, Except.ok.injEq] at sent
              rw [← sent]

theorem processTxOutput_fst {txid : String} {output : Postgres.Output} {v : InsightVout}
    {err : Option TxsError} (sent : processTxOutput btcutil pick blocks tables txid output = some (v, err)) :
    v.n = output.vout ∧ v.value = Binary64.formatFixed 8 (Convert.toBTC output.satAmount) := by
  unfold processTxOutput at sent
  by_cases unsupported : output.address = "unsupported addr"
  · rw [if_pos unsupported, Option.some.injEq, Prod.mk.injEq] at sent
    rw [← sent.1]
    exact ⟨rfl, rfl⟩
  · rw [if_neg unsupported] at sent
    cases normalized : normalizeAddrFormat btcutil (goBytes output.address) with
    | none => simp [normalized] at sent
    | some result =>
        cases result with
        | error err =>
            simp only [normalized, Option.some.injEq, Prod.mk.injEq] at sent
            rw [← sent.1]
            exact ⟨rfl, rfl⟩
        | ok addr =>
            simp only [normalized, Option.some.injEq, Prod.mk.injEq] at sent
            rw [← sent.1]
            exact ⟨rfl, rfl⟩

theorem toSatoshi_processTxOutput {txid : String} {output : Postgres.Output} {v : InsightVout}
    {err : Option TxsError} (small : |output.satAmount| < 2 ^ 52)
    (sent : processTxOutput btcutil pick blocks tables txid output = some (v, err)) :
    Convert.toSatoshi v.value = some (output.satAmount, none) := by
  rw [(processTxOutput_fst sent).2]
  exact Convert.toSatoshi_formatFixed_toBTC small

theorem sublist_n_delivered {inputs : List Postgres.Input} {vins : List (Except TxsError InsightVin)}
    (related : List.Forall₂ (fun input result => processTxInput btcutil tables input = some result)
      inputs vins) :
    ((vins.filterMap Except.toOption).map InsightVin.n).Sublist (inputs.map Postgres.Input.vin) := by
  induction related with
  | nil => exact List.Sublist.slnil
  | @cons input result _ _ head _ induction =>
      cases result with
      | error err => exact induction.cons _
      | ok v =>
          rw [List.filterMap_cons, Except.toOption, List.map_cons, List.map_cons,
            processTxInput_n head]
          exact induction.cons_cons _

@[simp]
theorem filterMap_asVin_deliveries (vins : List (Except TxsError InsightVin))
    (vouts : List (InsightVout × Option TxsError)) :
    (deliveries vins vouts).filterMap Delivery.asVin = vins.filterMap Except.toOption := by
  simp [deliveries, List.filterMap_map, Function.comp_def, Delivery.asVin]

@[simp]
theorem filterMap_asVout_deliveries (vins : List (Except TxsError InsightVin))
    (vouts : List (InsightVout × Option TxsError)) :
    (deliveries vins vouts).filterMap Delivery.asVout = vouts.map Prod.fst := by
  simp [deliveries, List.filterMap_map, Function.comp_def, Delivery.asVout]

theorem length_deliveries (vins : List (Except TxsError InsightVin))
    (vouts : List (InsightVout × Option TxsError)) :
    (deliveries vins vouts).length = (vins.filterMap Except.toOption).length + vouts.length := by
  simp [deliveries]

theorem length_filterMap_toOption_lt {ε α : Type} (results : List (Except ε α)) :
    (results.filterMap Except.toOption).length < results.length ↔
      results.all Except.isOk = false := by
  induction results with
  | nil => simp
  | cons result results induction =>
      cases result with
      | error err =>
          have shorter := List.length_filterMap_le Except.toOption results
          simp only [List.filterMap_cons, Except.toOption, List.length_cons, List.all_cons,
            Except.isOk, Except.toBool, Bool.false_and, iff_true]
          omega
      | ok v =>
          simp only [List.filterMap_cons, Except.toOption, List.length_cons, List.all_cons,
            Except.isOk, Except.toBool, Bool.true_and, Nat.add_lt_add_iff_right, induction]

/-! ## The loop -/

theorem goInt_goInt (x : Int) : Api.goInt (Api.goInt x) = Api.goInt x :=
  Int.bmod_bmod

/-- When every vout's text reads back as `amount`, the loop receives everything: it appends the vins
and the vouts in their order of arrival and adds up their values. -/
theorem receiveAll_eq_ok (amount : InsightVout → Int) (txid : String) (arrivals : List Delivery) :
    ∀ received : Received, Api.goInt received.valueIn = received.valueIn →
      Api.goInt received.valueOut = received.valueOut →
      (∀ v ∈ arrivals.filterMap Delivery.asVout, Convert.toSatoshi v.value = some (amount v, none)) →
      receiveAll txid received arrivals = some (.ok ⟨received.vins ++ arrivals.filterMap Delivery.asVin,
        received.vouts ++ arrivals.filterMap Delivery.asVout,
        Api.goInt (received.valueIn + ((arrivals.filterMap Delivery.asVin).map InsightVin.valueSat).sum),
        Api.goInt (received.valueOut + ((arrivals.filterMap Delivery.asVout).map amount).sum)⟩) := by
  induction arrivals with
  | nil =>
      intro received in_range out_range _
      simp [receiveAll, in_range, out_range]
  | cons delivery rest induction =>
      intro received in_range out_range reads
      cases delivery with
      | vin v =>
          have rest_reads : ∀ v ∈ rest.filterMap Delivery.asVout,
              Convert.toSatoshi v.value = some (amount v, none) := by
            simpa [Delivery.asVout] using reads
          have next := induction ⟨received.vins ++ [v], received.vouts,
            Api.goInt (received.valueIn + v.valueSat), received.valueOut⟩ (goInt_goInt _) out_range
            rest_reads
          simp only [receiveAll, receive]
          rw [next]
          simp [Api.goInt, Int.bmod_add_bmod, List.filterMap_cons, Delivery.asVin, Delivery.asVout,
            add_assoc]
      | vout v =>
          have head : Convert.toSatoshi v.value = some (amount v, none) :=
            reads v (by simp [Delivery.asVout])
          have rest_reads : ∀ v ∈ rest.filterMap Delivery.asVout,
              Convert.toSatoshi v.value = some (amount v, none) :=
            fun v member => reads v (by simp [Delivery.asVout, member])
          have next := induction ⟨received.vins, received.vouts ++ [v], received.valueIn,
            Api.goInt (received.valueOut + amount v)⟩ in_range (goInt_goInt _) rest_reads
          simp only [receiveAll, receive, head]
          rw [next]
          simp [Api.goInt, Int.bmod_add_bmod, List.filterMap_cons, Delivery.asVin, Delivery.asVout,
            add_assoc]

theorem insightTx_congr (sorter : Sorter) (lastBlock : Option Int) (tx : Postgres.TxDetails)
    {received other : Received} (vins : received.vins.Perm other.vins)
    (vins_distinct : (other.vins.map InsightVin.n).Nodup) (vouts : received.vouts.Perm other.vouts)
    (vouts_distinct : (other.vouts.map InsightVout.n).Nodup)
    (valueIn : received.valueIn = other.valueIn) (valueOut : received.valueOut = other.valueOut) :
    insightTx sorter lastBlock tx received = insightTx sorter lastBlock tx other := by
  simp only [insightTx, sortBy_eq_of_perm sorter sorter vins_distinct vins,
    sortBy_eq_of_perm sorter sorter vouts_distinct vouts, valueIn, valueOut]

/-! ## Any order of arrival -/

/-- The value `ToSatoshi` reads in the text of a vout. -/
def readAmount (v : InsightVout) : Int :=
  ((Convert.toSatoshi v.value).map Prod.fst).getD 0

/-- On the results of the helpers of a transaction whose amounts are below `2 ^ 52`, the loop and
what follows it do what `expectedLoop` does, in any order of arrival. -/
theorem loopTx_eq_expectedLoop (sorter : Sorter) (lastBlock : Option Int) (tx : Postgres.TxDetails)
    (txid : String) {vins : List (Except TxsError InsightVin)}
    {vouts : List (InsightVout × Option TxsError)} {arrivals : List Delivery}
    (inputs_related : List.Forall₂ (fun input result => processTxInput btcutil tables input = some result)
      tx.inputs vins)
    (outputs_related : List.Forall₂ (fun output sent =>
      processTxOutput btcutil pick blocks tables tx.txID output = some sent) tx.outputs vouts)
    (vins_distinct : (tx.inputs.map Postgres.Input.vin).Nodup)
    (vouts_distinct : (tx.outputs.map Postgres.Output.vout).Nodup)
    (small : ∀ output ∈ tx.outputs, |output.satAmount| < 2 ^ 52)
    (perm : arrivals.Perm (deliveries vins vouts)) :
    loopTx sorter lastBlock tx txid vins vouts arrivals = expectedLoop sorter lastBlock tx vins vouts := by
  -- every vout reads back as the amount of its output
  have amounts : (vouts.map Prod.fst).map readAmount = tx.outputs.map Postgres.Output.satAmount := by
    rw [List.map_map]
    refine (map_eq_of_forall₂ _ _ outputs_related fun output member sent sent_ok => ?_).symm
    simp [readAmount, toSatoshi_processTxOutput (small output member) sent_ok]
  have reads : ∀ v ∈ arrivals.filterMap Delivery.asVout,
      Convert.toSatoshi v.value = some (readAmount v, none) := by
    intro v member
    rw [(perm.filterMap _).mem_iff, filterMap_asVout_deliveries, List.mem_map] at member
    obtain ⟨sent, listed, rfl⟩ := member
    obtain ⟨output, stored, sent_ok⟩ := exists_mem_of_forall₂ outputs_related listed
    simp [readAmount, toSatoshi_processTxOutput (small output stored) sent_ok]
  rw [loopTx, expectedLoop, receiveAll_eq_ok readAmount txid arrivals ⟨[], [], 0, 0⟩ rfl rfl reads]
  -- the loop waits forever exactly when an input failed
  have waits : arrivals.length < tx.inputs.length + tx.outputs.length ↔
      vins.all Except.isOk = false := by
    rw [perm.length_eq, length_deliveries, inputs_related.length_eq, outputs_related.length_eq,
      ← length_filterMap_toOption_lt]
    omega
  by_cases delivered : vins.all Except.isOk
  · have received_all : ¬ arrivals.length < tx.inputs.length + tx.outputs.length := by
      rw [waits, delivered]
      decide
    simp only [Option.bind_eq_bind, Option.bind_some, if_neg received_all, if_pos delivered]
    have vouts_n : (vouts.map Prod.fst).map InsightVout.n = tx.outputs.map Postgres.Output.vout := by
      rw [List.map_map]
      exact (map_eq_of_forall₂ _ _ outputs_related fun _ _ _ sent_ok =>
        (processTxOutput_fst sent_ok).1.symm).symm
    congr 1
    apply insightTx_congr
    · simpa using perm.filterMap Delivery.asVin
    · exact (sublist_n_delivered inputs_related).nodup vins_distinct
    · simpa using perm.filterMap Delivery.asVout
    · rw [vouts_n]
      exact vouts_distinct
    · have same := ((perm.filterMap Delivery.asVin).map InsightVin.valueSat).sum_eq
      simp only [filterMap_asVin_deliveries] at same
      simp [same]
    · have same := ((perm.filterMap Delivery.asVout).map readAmount).sum_eq
      simp only [filterMap_asVout_deliveries, amounts] at same
      simp [same]
  · have waited : arrivals.length < tx.inputs.length + tx.outputs.length := by
      rw [waits]
      simpa using delivered
    simp only [Option.bind_eq_bind, Option.bind_some, if_pos waited, if_neg delivered]

/-- On tables that serial calls keep, with amounts below `2 ^ 52`, the goroutine of a txid does
what `expectedRun` does, whatever the order of arrival. -/
theorem runTx_eq_expectedRun (sorter : Sorter) (schedule : Schedule)
    (valid : Postgres.Invariant tables) (small : ∀ output ∈ tables.outputs, |output.amount| < 2 ^ 52)
    (lastBlock : Option Int) (txids : List String) (txid : String) :
    runTx btcutil pick sorter schedule blocks tables lastBlock txids txid =
      expectedRun btcutil pick sorter blocks tables lastBlock txids txid := by
  unfold runTx expectedRun
  cases fetched : Postgres.getTxByTxID blocks tables txid with
  | error err => rfl
  | ok tx =>
      obtain ⟨vins_distinct, vouts_distinct, stored⟩ := Postgres.getTxByTxID_rows valid fetched
      have tx_small : ∀ output ∈ tx.outputs, |output.satAmount| < 2 ^ 52 := by
        intro output member
        obtain ⟨row, row_stored, same⟩ := stored output member
        rw [same]
        exact small row row_stored
      dsimp only
      cases inputs_run : tx.inputs.mapM (processTxInput btcutil tables) with
      | none => rfl
      | some vins =>
          cases outputs_run : tx.outputs.mapM (processTxOutput btcutil pick blocks tables tx.txID) with
          | none => rfl
          | some vouts =>
              exact loopTx_eq_expectedLoop sorter lastBlock tx txid (mapM_eq_some_iff.mp inputs_run)
                (mapM_eq_some_iff.mp outputs_run) vins_distinct vouts_distinct tx_small
                (schedule.perm txid (deliveries vins vouts))

/-- On tables that serial calls keep (`Postgres.Built.invariant`), with amounts below `2 ^ 52`
satoshis, `getTxs` answers what it would with every loop receiving in the order of the rows and
`valueOut` the sum of the stored amounts: the order in which the goroutines deliver changes
nothing, and no value text fails to read back. -/
theorem getTxs_eq_expectedTxs (btcutil : Btcutil Address) (pick : Pick Postgres.SpentTxDetails)
    (first : Pick TxsError) (sorter : Sorter) (schedule : Schedule)
    (valid : Postgres.Invariant tables) (small : ∀ output ∈ tables.outputs, |output.amount| < 2 ^ 52)
    (txids : List String) :
    getTxs btcutil pick first sorter schedule blocks tables txids =
      expectedTxs btcutil pick first sorter blocks tables txids := by
  have same : runTx btcutil pick sorter schedule blocks tables blocks.lastBlockHeight txids =
      expectedRun btcutil pick sorter blocks tables blocks.lastBlockHeight txids :=
    funext (runTx_eq_expectedRun sorter schedule valid small _ txids)
  rw [getTxs, expectedTxs, same]

/-- Every loop receives in reverse order of the rows. -/
def lastFirst : Schedule :=
  ⟨fun _ deliveries => deliveries.reverse, fun _ deliveries => List.reverse_perm deliveries⟩

/-- The tables of the reorganisation, read with the loops receiving in reverse order. -/
theorem getTxs_reorgTables :
    Postgres.Invariant Postgres.reorgTables ∧
      (∀ output ∈ Postgres.reorgTables.outputs, |output.amount| < 2 ^ 52) ∧
      getTxs versionInFront Pick.first Pick.first SortSlice.merge lastFirst Postgres.reorgBlocks
          Postgres.reorgTables ["b", "a"] =
        expectedTxs versionInFront Pick.first Pick.first SortSlice.merge Postgres.reorgBlocks
          Postgres.reorgTables ["b", "a"] := by
  have valid : Postgres.Invariant Postgres.reorgTables :=
    ⟨⟨⟨by decide, by decide⟩, by unfold Tables.Stored; decide, by unfold Tables.Stored; decide⟩,
      by unfold Postgres.TxidsDistinct; decide, by unfold Postgres.IdsAscending; decide,
      ⟨by decide, by decide⟩⟩
  have small : ∀ output ∈ Postgres.reorgTables.outputs, |output.amount| < 2 ^ 52 := by decide
  exact ⟨valid, small,
    getTxs_eq_expectedTxs versionInFront Pick.first Pick.first SortSlice.merge lastFirst valid small _⟩

/-! ## One transaction for each txid -/

theorem helperErrors_eq_nil {vins : List (Except TxsError InsightVin)}
    {vouts : List (InsightVout × Option TxsError)} (clean : helperErrors vins vouts = []) :
    vins.all Except.isOk := by
  rw [helperErrors, List.append_eq_nil_iff, List.filterMap_eq_nil_iff] at clean
  rw [List.all_eq_true]
  intro result member
  cases result with
  | error err =>
      have sent := clean.1 _ member
      simp [sentError] at sent
  | ok v => rfl

theorem insightTx_txID {sorter : Sorter} {lastBlock : Option Int} {tx : Postgres.TxDetails}
    {received : Received} {stored : InsightTx} (built : insightTx sorter lastBlock tx received = some stored) :
    stored.txID = tx.txID := by
  unfold insightTx at built
  obtain ⟨confirmations, _, rfl⟩ := Option.map_eq_some_iff.mp built
  rfl

theorem loopTx_stored {sorter : Sorter} {lastBlock : Option Int} {tx : Postgres.TxDetails}
    {txid : String} {vins : List (Except TxsError InsightVin)}
    {vouts : List (InsightVout × Option TxsError)} {arrivals : List Delivery} {run : TxRun}
    (inputs : vins.length = tx.inputs.length) (outputs : vouts.length = tx.outputs.length)
    (perm : arrivals.Perm (deliveries vins vouts))
    (ran : loopTx sorter lastBlock tx txid vins vouts arrivals = some run) (clean : run.errors = []) :
    ∃ stored, run.tx = some stored ∧ stored.txID = tx.txID := by
  unfold loopTx at ran
  cases looped : receiveAll txid ⟨[], [], 0, 0⟩ arrivals with
  | none => simp [looped] at ran
  | some result =>
      cases result with
      | error err =>
          -- the loop's own error is among those sent
          simp only [looped, Option.bind_eq_bind, Option.bind_some] at ran
          cases ran
          simp at clean
      | ok received =>
          simp only [looped, Option.bind_eq_bind, Option.bind_some] at ran
          have received_all : ¬ arrivals.length < tx.inputs.length + tx.outputs.length := by
            by_cases waited : arrivals.length < tx.inputs.length + tx.outputs.length
            · -- a short loop stores nothing, and an input that failed sent its error
              rw [if_pos waited] at ran
              cases ran
              have delivered := helperErrors_eq_nil clean
              have full := (length_filterMap_toOption_lt vins).not.mpr (by simp [delivered])
              rw [perm.length_eq, length_deliveries, ← inputs, ← outputs] at waited
              have fewer := List.length_filterMap_le Except.toOption vins
              omega
            · exact waited
          rw [if_neg received_all] at ran
          cases built : insightTx sorter lastBlock tx received with
          | none => simp [built] at ran
          | some stored =>
              simp only [built, Option.bind_some] at ran
              cases ran
              exact ⟨stored, rfl, insightTx_txID built⟩

theorem runTx_stored {sorter : Sorter} {schedule : Schedule} {lastBlock : Option Int}
    {txids : List String} {txid : String} {run : TxRun}
    (ran : runTx btcutil pick sorter schedule blocks tables lastBlock txids txid = some run)
    (clean : run.errors = []) : ∃ stored, run.tx = some stored ∧ stored.txID = txid := by
  unfold runTx at ran
  cases fetched : Postgres.getTxByTxID blocks tables txid with
  | error err =>
      rw [fetched] at ran
      cases ran
      simp at clean
  | ok tx =>
      obtain ⟨row, found, _, _, txid_eq⟩ := Postgres.getTxByTxID_eq_ok fetched
      have row_txid : row.txid = txid := by simpa using List.find?_some found
      rw [fetched] at ran
      dsimp only at ran
      cases inputs_run : tx.inputs.mapM (processTxInput btcutil tables) with
      | none => simp [inputs_run] at ran
      | some vins =>
          cases outputs_run : tx.outputs.mapM (processTxOutput btcutil pick blocks tables tx.txID) with
          | none => simp [inputs_run, outputs_run] at ran
          | some vouts =>
              simp only [inputs_run, outputs_run, Option.bind_eq_bind, Option.bind_some] at ran
              obtain ⟨stored, some_tx, stored_txid⟩ :=
                loopTx_stored (mapM_eq_some_iff.mp inputs_run).length_eq.symm
                  (mapM_eq_some_iff.mp outputs_run).length_eq.symm
                  (schedule.perm txid (deliveries vins vouts)) ran clean
              exact ⟨stored, some_tx, stored_txid.trans (txid_eq.trans row_txid)⟩

theorem txID_filterMap_tx {f : String → Option TxRun} {txids : List String} {runs : List TxRun}
    (related : List.Forall₂ (fun txid run => f txid = some run) txids runs)
    (stored : ∀ {txid run}, f txid = some run → run.errors = [] →
      ∃ tx, run.tx = some tx ∧ tx.txID = txid)
    (clean : ∀ run ∈ runs, run.errors = []) :
    (runs.filterMap TxRun.tx).map InsightTx.txID = txids := by
  induction related with
  | nil => rfl
  | @cons txid run _ _ head _ induction =>
      obtain ⟨tx, some_tx, same⟩ := stored head (clean run List.mem_cons_self)
      rw [List.filterMap_cons, some_tx, List.map_cons, same,
        induction fun other member => clean other (List.mem_cons_of_mem run member)]

/-- A `getTxs` that answers with transactions has sorted one transaction of each txid, in the order
of the txids before the sort. -/
theorem getTxs_eq_ok {first : Pick TxsError} {sorter : Sorter} {schedule : Schedule}
    {txids : List String} {txs : List InsightTx}
    (answered : getTxs btcutil pick first sorter schedule blocks tables txids = some (.ok txs)) :
    ∃ stored : List InsightTx, stored.map InsightTx.txID = txids ∧
      txs = sorter.sortBy (fun tx => -tx.blockHeight) stored := by
  obtain ⟨runs, ran, responded⟩ := Option.map_eq_some_iff.mp answered
  unfold respond at responded
  split at responded
  · cases responded
  · rename_i no_error
    cases responded
    -- the handler received no error, so no goroutine sent one
    have clean : ∀ run ∈ runs, run.errors = [] := by
      rw [← List.flatMap_eq_nil_iff]
      by_contra sent
      simpa [no_error] using first.choose_isSome sent
    exact ⟨_, txID_filterMap_tx (mapM_eq_some_iff.mp ran) runTx_stored clean, rfl⟩

/-- Whatever the order of arrival, the sorts and the tables, a `getTxs` that answers with
transactions answers with one for each txid it was given. -/
theorem txID_perm_of_getTxs {first : Pick TxsError} {sorter : Sorter} {schedule : Schedule}
    {txids : List String} {txs : List InsightTx}
    (answered : getTxs btcutil pick first sorter schedule blocks tables txids = some (.ok txs)) :
    (txs.map InsightTx.txID).Perm txids := by
  obtain ⟨stored, listed, rfl⟩ := getTxs_eq_ok answered
  rw [← listed]
  exact (sorter.perm _ _).map InsightTx.txID

/-- The request of `a` in the tables of the reorganisation answers with `a`. -/
theorem txID_perm_of_getTxs_reorgTables :
    let answer := ((getTxs versionInFront Pick.first Pick.first SortSlice.insertion lastFirst
      Postgres.reorgBlocks Postgres.reorgTables ["a"]).bind Except.toOption).getD []
    getTxs versionInFront Pick.first Pick.first SortSlice.insertion lastFirst Postgres.reorgBlocks
        Postgres.reorgTables ["a"] = some (.ok answer) ∧
      (answer.map InsightTx.txID).Perm ["a"] := by
  intro answer
  have answered : getTxs versionInFront Pick.first Pick.first SortSlice.insertion lastFirst
      Postgres.reorgBlocks Postgres.reorgTables ["a"] = some (.ok answer) := by
    decide +kernel
  exact ⟨answered, txID_perm_of_getTxs answered⟩

/-! ## `TxByTxID` -/

/-- What `TxByTxID` writes. -/
inductive TxResponse
  /-- Status 500 with the error of `getTxs`. -/
  | failed (err : TxsError)
  /-- The transaction, rendered. -/
  | ok (tx : InsightTx)
  deriving DecidableEq

/-- `TxByTxID`, the handler of `/tx/{txid}`: `txs[0]` of what `getTxs` returns for the one txid;
`none` is a panic, of `getTxs` or of the index on an empty answer. -/
def txByTxID (btcutil : Btcutil Address) (pick : Pick Postgres.SpentTxDetails) (first : Pick TxsError)
    (sorter : Sorter) (schedule : Schedule) (blocks : Txo.Table) (tables : Tables) (txid : String) :
    Option TxResponse :=
  match getTxs btcutil pick first sorter schedule blocks tables [txid] with
  | none => none
  | some (.error err) => some (.failed err)
  | some (.ok txs) => txs.head?.map .ok

/-- `TxByTxID` panics only where `getTxs` does, never on `txs[0]`, and a transaction it answers
with is the one asked for. -/
theorem txByTxID_spec (first : Pick TxsError) (sorter : Sorter) (schedule : Schedule)
    (txid : String) :
    (txByTxID btcutil pick first sorter schedule blocks tables txid = none ↔
      getTxs btcutil pick first sorter schedule blocks tables [txid] = none) ∧
      ∀ tx, txByTxID btcutil pick first sorter schedule blocks tables txid = some (.ok tx) →
        tx.txID = txid := by
  unfold txByTxID
  cases answered : getTxs btcutil pick first sorter schedule blocks tables [txid] with
  | none => simp
  | some result =>
      cases result with
      | error err => simp
      | ok txs =>
          -- the answer is one transaction, of the txid asked for
          obtain ⟨stored, listed, rfl⟩ := getTxs_eq_ok answered
          obtain ⟨tx, rfl, same⟩ : ∃ tx, stored = [tx] ∧ tx.txID = txid := by
            rw [List.map_eq_singleton_iff] at listed
            obtain ⟨tx, rfl, same⟩ := listed
            exact ⟨tx, rfl, same⟩
          have single : sorter.sortBy (fun tx => -tx.blockHeight) [tx] = [tx] :=
            List.perm_singleton.mp (sorter.perm _ _)
          rw [single]
          refine ⟨by simp, fun answer responded => ?_⟩
          simp only [List.head?_cons, Option.map_some, Option.some.injEq, TxResponse.ok.injEq]
            at responded
          rw [← responded, same]

/-! ## Amounts the theorem leaves out -/

/-- Every loop receives in the order of the rows. -/
def rowOrder : Schedule :=
  ⟨fun _ deliveries => deliveries, fun _ deliveries => List.Perm.refl deliveries⟩

/-- A transaction in block `1` with an output of `2 ^ 63 - 1` satoshis, which its `bigint` column
holds, and an output of one satoshi. -/
def maxAmountTables : Tables :=
  ⟨[⟨1, some 0, some 1, "big", "big", 1, 100, 100, 400, 0, ""⟩], [],
    [⟨1, 0, 9223372036854775807, "", "", 1, "pubkeyhash", "x", none⟩,
      ⟨1, 1, 1, "", "", 1, "pubkeyhash", "x", none⟩], 2⟩

/-- The `%.8f` text of `2 ^ 63 - 1` satoshis, `92233720368.54776001`, is above the `int64` range, so
`ToSatoshi` rejects it and the loop returns. Received before the other output, the error leaves
that output's helper sending on a closed channel, and the process panics; received last, the
handler answers with the error. -/
theorem getTxs_max_amount_crash_depends_on_order :
    getTxs versionInFront Pick.first Pick.first SortSlice.merge rowOrder Postgres.reorgBlocks
        maxAmountTables ["big"] = none ∧
      (getTxs versionInFront Pick.first Pick.first SortSlice.merge lastFirst Postgres.reorgBlocks
        maxAmountTables ["big"]).map Except.isOk = some false := by
  decide +kernel

end Insight
end Coinquery
