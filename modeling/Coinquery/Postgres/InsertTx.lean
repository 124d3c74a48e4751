import Coinquery.Txo.TransactionRows
import Coinquery.Convert.ToSatoshi

/-!
# `InsertTx`, `GetInputsByTxID` and `GetOutputsByTxID`

The methods of `Database` (`pkg/postgres/postgres.go`) that store a transaction the node returned
and read it back. `InsertTx` turns the `utxo.Tx` into an object of `Input`s and `Output`s, with
the value of every output converted by `ToSatoshi`, marshals it, and calls `transaction_insert`
(`Txo.TransactionRows`) until an attempt succeeds. The readers select the rows of the txid and scan
them. `GetInputsByTxID` parses the text `jsonb` wrote for the witness list: it deletes brackets,
quotes and spaces and splits the rest at commas.

`json.Marshal` followed by the server reading the bytes as `jsonb` is taken as the map from a Go
value to the `jsonb` value it denotes (`Input.toJson`, `Output.toJson`, `txObject`): the server
reads back the escapes Go writes, so no string loses a character on the way.

The main result: on consistent tables where the txid is new, after `InsertTx` succeeds,
`GetInputsByTxID` returns the inputs `InsertTx` wrote, in some order, and `GetOutputsByTxID` one
output per vout, when the witness items are hex and the vout numbers distinct. Two vouts with one
number come back as one, since `output_insert` drops the second row.
-/

namespace Coinquery
namespace Postgres

open Jsonb Txo.Columns

/-! ## The node's transaction -/

/-- `ScriptSig` of `utxo.Vin`. -/
structure ScriptSig where
  asm : String
  hex : String
  deriving DecidableEq, Repr

/-- `utxo.Vin`; a nil `TxInWitness` is `none`. -/
structure Vin where
  txId : String
  vout : Int
  scriptSig : ScriptSig
  txInWitness : Option (List String)
  sequence : Int
  coinbase : String
  deriving DecidableEq, Repr

/-- `ScriptPubKey` of `utxo.Vout`. -/
structure ScriptPubKey where
  asm : String
  hex : String
  reqSigs : Int
  type : String
  addresses : Option (List String)
  deriving DecidableEq, Repr

/-- `utxo.Vout`; `value` is the text of its `json.Number`. -/
structure Vout where
  value : List UInt8
  n : Int
  scriptPubKey : ScriptPubKey
  deriving DecidableEq, Repr

/-- `utxo.Tx`. Its `Locktime` is a `json.Number`, which the node writes as an integer. -/
structure Tx where
  txId : String
  hash : String
  version : Int
  size : Int
  vSize : Int
  weight : Int
  locktime : Int
  vins : List Vin
  vouts : List Vout
  hex : String
  deriving DecidableEq, Repr

/-! ## What `InsertTx` writes -/

/-- `Input`. -/
structure Input where
  vin : Int
  spentTx : String
  spentVout : Int
  asm : String
  hex : String
  sequence : Int
  txInWitness : Option (List String)
  coinbase : String
  deriving DecidableEq, Repr

/-- `Output`. -/
structure Output where
  vout : Int
  satAmount : Int
  asm : String
  hex : String
  reqSigs : Int
  type : String
  address : String
  addresses : Option (List String)
  deriving DecidableEq, Repr

/-- A `[]string` as `json.Marshal` writes it: `null` for a nil slice. -/
def stringsJson : Option (List String) → Json
  | none => .null
  | some items => .arr (items.map .str)

/-- An `Input` under its `json` tags. -/
def Input.toJson (input : Input) : Json :=
  .obj [("vin", .num input.vin), ("spent_txid", .str input.spentTx),
    ("spent_vout", .num input.spentVout), ("asm", .str input.asm), ("hex", .str input.hex),
    ("sequence", .num input.sequence), ("txinwitness", stringsJson input.txInWitness),
    ("coinbase", .str input.coinbase)]

/-- An `Output` under its `json` tags. -/
def Output.toJson (output : Output) : Json :=
  .obj [("vout", .num output.vout), ("amount", .num output.satAmount), ("asm", .str output.asm),
    ("hex", .str output.hex), ("reqSigs", .num output.reqSigs), ("type", .str output.type),
    ("address", .str output.address), ("addresses", stringsJson output.addresses)]

/-- The `Input` that `InsertTx` writes for `tx.Vins[i]`. -/
def Vin.input (vin : Vin) (i : Nat) : Input :=
  ⟨i, vin.txId, vin.vout, vin.scriptSig.asm, vin.scriptSig.hex, vin.sequence, vin.txInWitness,
    vin.coinbase⟩

/-- `addr`: the one address of the script, or `"unsupported addr"`. -/
def singleAddress (addresses : Option (List String)) : String :=
  match addresses with
  | some [address] => address
  | _ => "unsupported addr"

/-- The `Output` that `InsertTx` writes for a vout whose value `ToSatoshi` reads as `sats`. -/
def Vout.output (out : Vout) (sats : Int) : Output :=
  ⟨out.n, sats, out.scriptPubKey.asm, out.scriptPubKey.hex, out.scriptPubKey.reqSigs,
    out.scriptPubKey.type, singleAddress out.scriptPubKey.addresses, out.scriptPubKey.addresses⟩

/-- The loop over `tx.Vouts`: the first error of `ToSatoshi` ends `InsertTx`, and its panic
(`none`) ends the program. -/
def voutOutputs : List Vout → Option (Except Convert.Wrapped (List Output))
  | [] => some (.ok [])
  | out :: rest =>
      match Convert.toSatoshi out.value with
      | none => none
      | some (_, some err) => some (.error err)
      | some (sats, none) => (voutOutputs rest).map fun outputs => (out.output sats :: ·) <$> outputs

/-- `txObj`: the fields of `tx`, the inputs of `tx.Vins` and the outputs of the vout loop. -/
def txObject (tx : Tx) (outputs : List Output) : Json :=
  .obj [("txid", .str tx.txId), ("hash", .str tx.hash), ("version", .num tx.version),
    ("size", .num tx.size), ("vsize", .num tx.vSize), ("weight", .num tx.weight),
    ("locktime", .num tx.locktime),
    ("inputs", .arr ((tx.vins.mapIdx fun i vin => vin.input i).map Input.toJson)),
    ("outputs", .arr (outputs.map Output.toJson))]

/-- The errors `InsertTx` returns, each wrapped by `errors.Wrapf`. -/
inductive InsertTxError
  /-- `"failed to insert vout: …"`, around the error of `ToSatoshi`. -/
  | vout (cause : Convert.Wrapped)
  /-- `"failed to insert transaction: …"`, around the error of the statement. -/
  | insert (cause : SqlError)
  deriving DecidableEq, Repr

/-- `retry.Simple(attempts, sleep, fn)`: `fn` runs again while attempts are left. -/
def retrySimple {σ ε : Type} (attempts : Int) (fn : σ → Except ε σ) (state : σ) : Except ε σ :=
  match fn state with
  | .ok state => .ok state
  | .error err => if 0 < attempts - 1 then retrySimple (attempts - 1) fn state else .error err
termination_by attempts.toNat
decreasing_by omega

/-- `d.Exec("SELECT transaction_insert($1, $2, $3, $4)", blockID, txBytes, tx.Hex, txIndex)`:
the server reads `blockID` as the `bigint` `in_block_id` and `txIndex` as the `integer`
`in_transaction_index`. -/
def execTransactionInsert (tables : Tables) (blockId : Int) (txBytes : Json) (hex : String)
    (txIndex : Int) : Except SqlError Tables := do
  let inBlockId ← IntType.bigint.check blockId
  let inTransactionIndex ← IntType.integer.check txIndex
  transactionInsert tables inBlockId txBytes hex inTransactionIndex

/-- `InsertTx(tx, txIndex, blockID)`, with `attempts` for `d.retry.Attempts`; `none` is a panic
of `ToSatoshi`. A failed statement changes nothing, so every attempt runs on the same tables. -/
def insertTx (attempts : Int) (tables : Tables) (tx : Tx) (txIndex blockId : Int) :
    Option (Except InsertTxError Tables) :=
  (voutOutputs tx.vouts).map fun outputs =>
    match outputs with
    | .error cause => .error (.vout cause)
    | .ok outputs =>
        (retrySimple attempts (fun tables =>
          execTransactionInsert tables blockId (txObject tx outputs) tx.hex txIndex) tables).mapError
            .insert

/-! ## Reading a transaction back -/

/-- `JOIN transaction ON ….transaction_id = transaction.id … WHERE transaction.txid = $1`: the row
joins a transaction of the txid. `transaction.id` is the primary key, so a row joins at most one
transaction, and the `LEFT JOIN` with `block` keeps every row. -/
def joinsTxid (tables : Tables) (txid : String) (transactionId : Nat) : Bool :=
  tables.transactions.any fun tx => tx.id == transactionId && tx.txid == txid

/-- The `input` rows `GetInputsByTxID` selects. -/
def inputsOf (tables : Tables) (txid : String) : List InputRow :=
  tables.inputs.filter fun row => joinsTxid tables txid row.transactionId

/-- The `output` rows `GetOutputsByTxID` selects. -/
def outputsOf (tables : Tables) (txid : String) : List OutputRow :=
  tables.outputs.filter fun row => joinsTxid tables txid row.transactionId

/-- `strings.NewReplacer("[", "", "]", "", " ", "", "\"", "").Replace`: the four characters are
deleted. -/
def stripWitness (str : List Char) : List Char :=
  str.filter fun c => !(['[', ']', ' ', '"'].contains c)

/-- What `GetInputsByTxID` makes of a `tx_in_witness` that is not NULL. -/
def parseWitness (str : String) : List String :=
  if str = "[]" then [] else ((stripWitness str.toList).splitOn ',').map String.ofList

/-- `rows.Scan(…)` of one `input` row: a NULL `coinbase` cannot be scanned into a `string`. -/
def scanInput (txid : String) (row : InputRow) : Except String Input :=
  match row.coinbase with
  | none => .error ("failed to scan row when retrieving inputs from txid: " ++ txid)
  | some coinbase =>
      .ok ⟨row.vin, row.spentTxid, row.spentVout, row.asm, row.hex, row.sequenceNum,
        row.txInWitness.map parseWitness, coinbase⟩

/-- `GetInputsByTxID(txid)`. -/
def getInputsByTxID (tables : Tables) (txid : String) : Except String (List Input) :=
  (inputsOf tables txid).mapM (scanInput txid)

/-- `rows.Scan(…)` of one `output` row. Every column it reads is `NOT NULL`, so it cannot fail,
and it does not read `addresses`. -/
def scanOutput (row : OutputRow) : Output :=
  ⟨row.vout, row.amount, row.asm, row.hex, row.reqSigs, row.outputType, row.address, none⟩

/-- `GetOutputsByTxID(txid, voutClause)`, where `voutClause` is the condition the clause adds to
the `WHERE`: `""` is `fun _ => true`. -/
def getOutputsByTxID (tables : Tables) (txid : String) (voutClause : OutputRow → Bool) :
    List Output :=
  ((outputsOf tables txid).filter voutClause).map scanOutput

/-! ## The rows `input_insert` and `output_insert` build from what Go wrote -/

def Input.row (input : Input) (transactionId : Nat) : InputRow :=
  ⟨transactionId, input.vin, input.spentTx, input.spentVout, input.asm, input.hex, input.sequence,
    (stringsJson input.txInWitness).text, some input.coinbase⟩

def Output.row (output : Output) (transactionId : Nat) : OutputRow :=
  ⟨transactionId, output.vout, output.satAmount, output.asm, output.hex, output.reqSigs, output.type,
    output.address, jsonArrayCast (some (stringsJson output.addresses))⟩

theorem inputValues_toJson_eq_ok {transactionId : Nat} {input : Input} {row : InputRow} :
    inputValues transactionId input.toJson = .ok row ↔
      IntType.integer.Fits input.vin ∧ IntType.integer.Fits input.spentVout ∧
        IntType.bigint.Fits input.sequence ∧ input.row transactionId = row := by
  simp [inputValues, Input.toJson, Json.fieldText, Json.field, List.lookup_cons, castInt_renderInt,
    bind_eq_ok, map_eq_ok, check_eq_ok, notNull_eq_ok, Input.row]

theorem outputValues_toJson_eq_ok {transactionId : Nat} {output : Output} {row : OutputRow} :
    outputValues transactionId output.toJson = .ok row ↔
      IntType.integer.Fits output.vout ∧ IntType.bigint.Fits output.satAmount ∧
        IntType.integer.Fits output.reqSigs ∧ output.row transactionId = row := by
  simp [outputValues, Output.toJson, Json.fieldText, Json.field, List.lookup_cons, castInt_renderInt,
    bind_eq_ok, map_eq_ok, check_eq_ok, notNull_eq_ok, Output.row]

/-! ## The witness column -/

/-- The characters of a hex string. -/
def IsHex (s : String) : Prop :=
  ∀ c ∈ s.toList, c.isHexDigit = true

instance (s : String) : Decidable (IsHex s) :=
  inferInstanceAs (Decidable (∀ c ∈ s.toList, c.isHexDigit = true))

theorem hexDigit_kept {c : Char} (hex : c.isHexDigit = true) :
    Plain c ∧ c ≠ '[' ∧ c ≠ ']' ∧ c ≠ ' ' ∧ c ≠ ',' := by
  have bounds : (48 ≤ c.toNat ∧ c.toNat ≤ 57 ∨ 97 ≤ c.toNat ∧ c.toNat ≤ 102) ∨
      65 ≤ c.toNat ∧ c.toNat ≤ 70 := by
    simpa [Char.isHexDigit, Char.isDigit, UInt32.le_iff_toNat_le] using hex
  -- the characters that the escapes and the parse treat apart lie outside the three ranges
  have apart : ∀ d ∈ ['"', '\\', '[', ']', ' ', ','], c ≠ d := by
    intro d member same
    subst same
    simp only [List.mem_cons, List.not_mem_nil, or_false] at member
    rcases member with rfl | rfl | rfl | rfl | rfl | rfl <;> simp at bounds
  exact ⟨⟨apart '"' (by simp), apart '\\' (by simp), by omega⟩, apart '[' (by simp),
    apart ']' (by simp), apart ' ' (by simp), apart ',' (by simp)⟩

theorem stripWitness_append (front back : List Char) :
    stripWitness (front ++ back) = stripWitness front ++ stripWitness back := by
  simp [stripWitness, List.filter_append]

theorem stripWitness_hex {s : String} (hex : IsHex s) : stripWitness s.toList = s.toList := by
  refine List.filter_eq_self.mpr fun c member => ?_
  obtain ⟨⟨not_quote, _, _⟩, not_open, not_close, not_space, _⟩ := hexDigit_kept (hex c member)
  simp [not_quote, not_open, not_close, not_space]

theorem stripWitness_intercalate {items : List String} (hex : ∀ s ∈ items, IsHex s) :
    stripWitness (", ".toList.intercalate (items.map fun s => '"' :: s.toList ++ ['"'])) =
      [','].intercalate (items.map String.toList) := by
  induction items with
  | nil => rfl
  | cons item rest induction =>
      have quoted : stripWitness ('"' :: item.toList ++ ['"']) = item.toList := by
        rw [← List.singleton_append, stripWitness_append, stripWitness_append,
          stripWitness_hex (hex item List.mem_cons_self)]
        simp [stripWitness]
      cases rest with
      | nil => simpa using quoted
      | cons next rest =>
          have later := induction fun s member => hex s (List.mem_cons_of_mem item member)
          simp only [List.map_cons, List.intercalate_cons_cons] at later ⊢
          rw [stripWitness_append, stripWitness_append, quoted, later]
          rfl

/-- The witness list of an input reads back as it was written: nil as NULL, an empty list as
`[]`, and hex items with their empty ones. -/
theorem parseWitness_text {witness : Option (List String)}
    (hex : ∀ items, witness = some items → ∀ s ∈ items, IsHex s) :
    (stringsJson witness).text.map parseWitness = witness := by
  rcases witness with _ | _ | ⟨item, rest⟩
  · rfl
  · show (some (String.ofList ['[', ']'])).map parseWitness = some []
    rw [Option.map_some, parseWitness, if_pos (by decide)]
  · have items_hex := hex _ rfl
    have plain : ∀ s ∈ item :: rest, ∀ c ∈ s.toList, Plain c :=
      fun s member c within => (hexDigit_kept (items_hex s member c within)).1
    set inner := ", ".toList.intercalate ((item :: rest).map fun s => '"' :: s.toList ++ ['"'])
      with inner_def
    have text : (stringsJson (some (item :: rest))).text =
        some (String.ofList ('[' :: inner ++ [']'])) := by
      rw [← render_strings plain]
      rfl
    -- the text starts with a bracket and a quote, so it is not `[]`
    have not_empty : String.ofList ('[' :: inner ++ [']']) ≠ "[]" := by
      intro same
      have chars := congrArg String.toList same
      cases rest <;> simp [inner_def] at chars
    have commas : ∀ l ∈ (item :: rest).map String.toList, ',' ∉ l := by
      intro l member within
      obtain ⟨s, s_member, rfl⟩ := List.mem_map.mp member
      exact (hexDigit_kept (items_hex s s_member ',' within)).2.2.2.2 rfl
    have brackets : stripWitness ['['] = [] ∧ stripWitness [']'] = [] := by decide
    rw [text, Option.map_some, parseWitness, if_neg not_empty, String.toList_ofList,
      ← List.singleton_append, stripWitness_append, stripWitness_append, inner_def,
      stripWitness_intercalate items_hex, brackets.1, brackets.2, List.nil_append,
      List.append_nil, List.splitOn_intercalate ',' commas (by simp)]
    simp [List.map_map, Function.comp_def, String.ofList_toList]

/-! ## What a call of `InsertTx` that succeeds did -/

theorem retrySimple_eq {σ ε : Type} (attempts : Int) (fn : σ → Except ε σ) (state : σ) :
    retrySimple attempts fn state = fn state := by
  -- every attempt runs `fn` on the same state, so a retry returns what the first attempt returned
  fun_induction retrySimple attempts fn state with
  | case1 _ _ succeeded => exact succeeded.symm
  | case2 _ _ _ _ retried => exact retried
  | case3 _ _ failed _ => exact failed.symm

theorem voutOutputs_eq_ok {vouts : List Vout} {outputs : List Output}
    (converted : voutOutputs vouts = some (.ok outputs)) :
    ∃ sats, List.Forall₂ (fun out s => Convert.toSatoshi out.value = some (s, none)) vouts sats ∧
      outputs = List.zipWith Vout.output vouts sats := by
  induction vouts generalizing outputs with
  | nil =>
      simp only [voutOutputs, Option.some.injEq, Except.ok.injEq] at converted
      exact ⟨[], .nil, converted.symm⟩
  | cons out rest induction =>
      unfold voutOutputs at converted
      split at converted
      · cases converted
      · cases converted
      · rename_i sats satoshi
        obtain ⟨restOutputs, rest_converted, consed⟩ := Option.map_eq_some_iff.mp converted
        obtain ⟨later, rfl, rfl⟩ := map_eq_ok.mp consed
        obtain ⟨laterSats, later_sats, rfl⟩ := induction rest_converted
        exact ⟨sats :: laterSats, .cons satoshi later_sats, rfl⟩

/-- A call of `InsertTx` that succeeds converted every value and then ran `transaction_insert`
once on the tables it was given. -/
theorem insertTx_eq_ok {attempts : Int} {tables after : Tables} {tx : Tx} {txIndex blockId : Int}
    (inserted : insertTx attempts tables tx txIndex blockId = some (.ok after)) :
    ∃ outputs, voutOutputs tx.vouts = some (.ok outputs) ∧ ∃ inBlockId inTransactionIndex,
      transactionInsert tables inBlockId (txObject tx outputs) tx.hex inTransactionIndex =
        .ok after := by
  obtain ⟨converted, converted_ok, stored⟩ := Option.map_eq_some_iff.mp inserted
  cases converted with
  | error cause => cases stored
  | ok outputs =>
      refine ⟨outputs, converted_ok, ?_⟩
      dsimp only at stored
      rw [retrySimple_eq] at stored
      obtain ⟨inBlockId, _, rest⟩ := bind_eq_ok.mp (mapError_eq_ok.mp stored)
      obtain ⟨inTransactionIndex, _, executed⟩ := bind_eq_ok.mp rest
      exact ⟨inBlockId, inTransactionIndex, executed⟩

theorem eq_map_of_forall₂ {α β : Type} {f : α → β} {xs : List α} {ys : List β}
    (related : List.Forall₂ (fun a b => f a = b) xs ys) : ys = xs.map f := by
  induction related with
  | nil => rfl
  | cons head _ induction => rw [← head, induction, List.map_cons]

/-- `transaction_insert` of the object `InsertTx` writes, for a new txid: the transaction is
added with the next id, and the rows of the inputs and outputs go through the loops. -/
theorem transactionInsert_txObject {tables after : Tables} {tx : Tx} {outputs : List Output}
    {inBlockId inTransactionIndex : Int} (fresh : tables.selectId tx.txId = none)
    (inserted : transactionInsert tables inBlockId (txObject tx outputs) tx.hex
      inTransactionIndex = .ok after) :
    ∃ row : TransactionRow, row.id = tables.nextId ∧ row.txid = tx.txId ∧
      after.transactions = tables.transactions ++ [row] ∧
      after.inputs = ((tx.vins.mapIdx fun k vin => vin.input k).map (·.row tables.nextId)).foldl
        (insertCatching InputRow.key) tables.inputs ∧
      after.outputs = (outputs.map (·.row tables.nextId)).foldl
        (insertCatching OutputRow.key) tables.outputs := by
  have named : (txObject tx outputs).fieldText "txid" = some tx.txId := by
    simp [txObject, Json.fieldText, Json.field]
  obtain ⟨txid, named_txid, ⟨_, row, withInputs, built, _, inputs_ok, outputs_ok⟩ |
    ⟨id, stored, _⟩⟩ := transactionInsert_cases inserted
  · obtain rfl : txid = tx.txId := Option.some.inj (named_txid.symm.trans named)
    have key := transactionValues_key built
    have row_id : row.id = tables.nextId := congrArg Txo.TransactionRow.id key
    obtain ⟨inputs, inputs_looped, rfl⟩ := inputInsert_eq_ok.mp inputs_ok
    obtain ⟨outputRows, outputs_looped, rfl⟩ := outputInsert_eq_ok.mp outputs_ok
    obtain ⟨items, inputRows, items_ok, inputRows_ok, rfl⟩ := insertElements_eq_ok.mp inputs_looped
    obtain ⟨outputItems, builtOutputs, outputItems_ok, builtOutputs_ok, rfl⟩ :=
      insertElements_eq_ok.mp outputs_looped
    -- the elements the loops read are the objects of the `Input`s and `Output`s
    obtain rfl : items = (tx.vins.mapIdx fun k vin => vin.input k).map Input.toJson := by
      simpa [txObject, Json.field, List.lookup_cons, arrayElements] using items_ok.symm
    obtain rfl : outputItems = outputs.map Output.toJson := by
      simpa [txObject, Json.field, List.lookup_cons, arrayElements] using outputItems_ok.symm
    have inputs_built := eq_map_of_forall₂ ((List.forall₂_map_left_iff.mp inputRows_ok).imp
      fun _ _ ok => (inputValues_toJson_eq_ok.mp ok).2.2.2)
    have outputs_built := eq_map_of_forall₂ ((List.forall₂_map_left_iff.mp builtOutputs_ok).imp
      fun _ _ ok => (outputValues_toJson_eq_ok.mp ok).2.2.2)
    refine ⟨row, row_id, congrArg Txo.TransactionRow.txid key, rfl, ?_, ?_⟩
    · rw [inputs_built, row_id]
      rfl
    · rw [outputs_built, row_id]
      rfl
  · rw [Option.some.inj (named_txid.symm.trans named), fresh] at stored
    cases stored

/-! ## Reading back what the call wrote -/

section ReadBack

variable {tables after : Tables} {txid : String} {row : TransactionRow}

theorem joinsTxid_of_new (fresh : tables.selectId txid = none) (row_id : row.id = tables.nextId)
    (row_txid : row.txid = txid) (transactions : after.transactions = tables.transactions ++ [row])
    (transactionId : Nat) : joinsTxid after txid transactionId = true ↔ transactionId = tables.nextId := by
  have none_stored : ∀ tx ∈ tables.transactions, tx.txid ≠ txid := by
    intro tx member same
    simp only [Tables.selectId, Option.map_eq_none_iff, List.find?_eq_none] at fresh
    exact fresh tx member (by simp [same])
  simp only [joinsTxid, transactions, List.any_append, List.any_cons, List.any_nil, Bool.or_false,
    Bool.or_eq_true, List.any_eq_true, Bool.and_eq_true, beq_iff_eq, row_id, row_txid, and_true]
  constructor
  · rintro (⟨tx, member, _, same⟩ | same)
    · exact absurd same (none_stored tx member)
    · exact same.symm
  · exact fun same => .inr same.symm

theorem filter_joinsTxid_of_new {α : Type} (fresh : tables.selectId txid = none)
    (row_id : row.id = tables.nextId) (row_txid : row.txid = txid)
    (transactions : after.transactions = tables.transactions ++ [row]) {transactionId : α → Nat}
    {old new : List α} (old_below : ∀ r ∈ old, transactionId r < tables.nextId)
    (new_ids : ∀ r ∈ new, transactionId r = tables.nextId) :
    (old ++ new).filter (fun r => joinsTxid after txid (transactionId r)) = new := by
  have joins := joinsTxid_of_new fresh row_id row_txid transactions
  rw [List.filter_append, List.filter_eq_nil_iff.mpr, List.filter_eq_self.mpr, List.nil_append]
  · exact fun r member => (joins _).mpr (new_ids r member)
  · exact fun r member joined => Nat.ne_of_lt (old_below r member) ((joins _).mp joined)

end ReadBack

theorem map_vin_mapIdx (vins : List Vin) :
    (vins.mapIdx fun k vin => vin.input k).map Input.vin = (List.range vins.length).map Nat.cast := by
  apply List.ext_getElem
  · simp
  · intro k _ _
    simp [Vin.input]

theorem foldl_insertCatching_inputs {tables : Tables} (consistent : tables.Consistent)
    {inputs : List Input} (distinct : (inputs.map Input.vin).Nodup) :
    (inputs.map (·.row tables.nextId)).foldl (insertCatching InputRow.key) tables.inputs =
      tables.inputs ++ inputs.map (·.row tables.nextId) :=
  foldl_insertCatching_next Txo.InputRow.mk (fun _ => rfl)
    (fun _ _ _ _ same => Txo.InputRow.mk.inj same)
    consistent.inputs_below (List.forall_mem_map.mpr fun _ _ => rfl)
    (by simpa [Function.comp_def, Input.row] using distinct)

theorem foldl_insertCatching_outputs {tables : Tables} (consistent : tables.Consistent)
    {outputs : List Output} (distinct : (outputs.map Output.vout).Nodup) :
    (outputs.map (·.row tables.nextId)).foldl (insertCatching OutputRow.key) tables.outputs =
      tables.outputs ++ outputs.map (·.row tables.nextId) :=
  foldl_insertCatching_next Txo.OutputRow.mk (fun _ => rfl)
    (fun _ _ _ _ same => Txo.OutputRow.mk.inj same)
    consistent.outputs_below (List.forall_mem_map.mpr fun _ _ => rfl)
    (by simpa [Function.comp_def, Output.row] using distinct)

theorem map_vout_zipWith {vouts : List Vout} {sats : List Int} {R : Vout → Int → Prop}
    (paired : List.Forall₂ R vouts sats) :
    (List.zipWith Vout.output vouts sats).map Output.vout = vouts.map Vout.n := by
  induction paired with
  | nil => rfl
  | cons _ _ induction => simp [Vout.output, induction]

theorem scanInput_row (txid : String) {input : Input}
    (hex : ∀ items, input.txInWitness = some items → ∀ s ∈ items, IsHex s) (transactionId : Nat) :
    scanInput txid (input.row transactionId) = .ok input := by
  simp [scanInput, Input.row, parseWitness_text hex]

/-- From consistent tables where the txid is new, a transaction that `InsertTx` stored reads back
as written: its inputs with their witness lists, and one output per vout with the amount of
`ToSatoshi` and the address of the script. The witness items are hex and the vout numbers are
distinct. -/
theorem stored_transaction_reads_back {attempts : Int} {tables after : Tables}
    (consistent : tables.Consistent) {tx : Tx} {txIndex blockId : Int}
    (fresh : tables.selectId tx.txId = none)
    (hex : ∀ vin ∈ tx.vins, ∀ items, vin.txInWitness = some items → ∀ s ∈ items, IsHex s)
    (distinct : (tx.vouts.map Vout.n).Nodup)
    (inserted : insertTx attempts tables tx txIndex blockId = some (.ok after)) :
    (∃ inputs, getInputsByTxID after tx.txId = .ok inputs ∧
      inputs.Perm (tx.vins.mapIdx fun k vin => vin.input k)) ∧
    ∃ sats, List.Forall₂ (fun out s => Convert.toSatoshi out.value = some (s, none)) tx.vouts sats ∧
      (getOutputsByTxID after tx.txId fun _ => true).Perm
        (List.zipWith (fun out s => { out.output s with addresses := none }) tx.vouts sats) := by
  obtain ⟨outputs, converted, inBlockId, inTransactionIndex, stored⟩ := insertTx_eq_ok inserted
  obtain ⟨sats, sats_ok, rfl⟩ := voutOutputs_eq_ok converted
  obtain ⟨row, row_id, row_txid, transactions, inputs_after, outputs_after⟩ :=
    transactionInsert_txObject fresh stored
  set written := tx.vins.mapIdx fun k vin => vin.input k with written_def
  have written_distinct : (written.map Input.vin).Nodup := by
    rw [written_def, map_vin_mapIdx]
    exact List.nodup_range.map Nat.cast_injective
  have written_hex : ∀ input ∈ written, ∀ items, input.txInWitness = some items →
      ∀ s ∈ items, IsHex s := by
    intro input member
    obtain ⟨k, bound, rfl⟩ := List.mem_mapIdx.mp member
    exact hex _ (List.getElem_mem bound)
  rw [foldl_insertCatching_inputs consistent written_distinct] at inputs_after
  rw [foldl_insertCatching_outputs consistent (by rwa [map_vout_zipWith sats_ok])] at outputs_after
  refine ⟨⟨written, ?_, .refl _⟩, sats, sats_ok, ?_⟩
  · -- the rows of the txid are the new rows, and each scans back to its `Input`
    rw [getInputsByTxID, inputsOf, inputs_after, filter_joinsTxid_of_new fresh row_id row_txid
      transactions consistent.inputs_below (List.forall_mem_map.mpr fun _ _ => rfl)]
    refine mapM_eq_ok_iff.mpr (List.forall₂_map_left_iff.mpr (List.forall₂_same.mpr ?_))
    exact fun input member => scanInput_row tx.txId (written_hex input member) tables.nextId
  · rw [getOutputsByTxID, outputsOf, outputs_after, filter_joinsTxid_of_new fresh row_id row_txid
      transactions consistent.outputs_below (List.forall_mem_map.mpr fun _ _ => rfl),
      List.filter_true, List.map_map]
    apply List.Perm.of_eq
    rw [List.map_zipWith]
    rfl

def singleAddressScript : ScriptPubKey :=
  ⟨"a", "b", 1, "pubkeyhash", some ["x"]⟩

/-- A transaction with one input, whose witness list holds an empty item, and one output of
value `1`. -/
def oneInputTx : Tx :=
  ⟨"t", "h", 1, 200, 200, 800, 0, [⟨"s", 0, ⟨"a", "b"⟩, some ["ab", ""], 5, ""⟩],
    [⟨"1".toList.map Char.toUInt8, 0, singleAddressScript⟩], "raw"⟩

def oneInputTables : Tables :=
  ⟨[⟨1, some 0, some 1, "t", "h", 1, 200, 200, 800, 0, "raw"⟩],
    [⟨1, 0, "s", 0, "a", "b", 5, some "[\"ab\", \"\"]", some ""⟩],
    [⟨1, 0, 100000000, "a", "b", 1, "pubkeyhash", "x", some [some "x"]⟩], 2⟩

theorem stored_transaction_reads_back_oneInput :
    Tables.empty.selectId oneInputTx.txId = none ∧
      insertTx 1 Tables.empty oneInputTx 0 1 = some (.ok oneInputTables) ∧
      (∃ inputs, getInputsByTxID oneInputTables oneInputTx.txId = .ok inputs ∧
        inputs.Perm (oneInputTx.vins.mapIdx fun k vin => vin.input k)) ∧
      ∃ sats, List.Forall₂ (fun out s => Convert.toSatoshi out.value = some (s, none))
          oneInputTx.vouts sats ∧
        (getOutputsByTxID oneInputTables oneInputTx.txId fun _ => true).Perm
          (List.zipWith (fun out s => { out.output s with addresses := none }) oneInputTx.vouts sats) := by
  have fresh : Tables.empty.selectId oneInputTx.txId = none := by decide
  have inserted : insertTx 1 Tables.empty oneInputTx 0 1 = some (.ok oneInputTables) := by
    simp only [insertTx, retrySimple_eq]
    decide +kernel
  have hex : ∀ vin ∈ oneInputTx.vins, ∀ items, vin.txInWitness = some items →
      ∀ s ∈ items, IsHex s := by
    intro vin member items witness s within c in_s
    simp only [oneInputTx, List.mem_singleton] at member
    subst member
    cases witness
    simp only [List.mem_cons, List.not_mem_nil, or_false] at within
    rcases within with rfl | rfl
    · simp at in_s
      rcases in_s with rfl | rfl <;> rfl
    · simp at in_s
  exact ⟨fresh, inserted, stored_transaction_reads_back Tables.Consistent.empty fresh hex
    (by decide) inserted⟩

/-- A transaction whose two outputs both carry `n = 0`, of values `1` and `2`. -/
def duplicateVoutTx : Tx :=
  ⟨"t", "h", 1, 200, 200, 800, 0, [],
    [⟨"1".toList.map Char.toUInt8, 0, singleAddressScript⟩,
      ⟨"2".toList.map Char.toUInt8, 0, singleAddressScript⟩], "raw"⟩

def duplicateVoutTables : Tables :=
  ⟨[⟨1, some 0, some 1, "t", "h", 1, 200, 200, 800, 0, "raw"⟩], [],
    [⟨1, 0, 100000000, "a", "b", 1, "pubkeyhash", "x", some [some "x"]⟩], 2⟩

/-- Two vouts with one number: `InsertTx` succeeds, and `GetOutputsByTxID` returns one output,
that of the first vout, since `output_insert` drops the row of the second. -/
theorem duplicate_vout_read_back_once :
    Tables.empty.selectId duplicateVoutTx.txId = none ∧
      insertTx 1 Tables.empty duplicateVoutTx 0 1 = some (.ok duplicateVoutTables) ∧
      duplicateVoutTx.vouts.length = 2 ∧
      getOutputsByTxID duplicateVoutTables duplicateVoutTx.txId (fun _ => true) =
        [⟨0, 100000000, "a", "b", 1, "pubkeyhash", "x", none⟩] :=
  ⟨by decide, by simp only [insertTx, retrySimple_eq]; decide +kernel, rfl, by decide +kernel⟩

end Postgres
end Coinquery
