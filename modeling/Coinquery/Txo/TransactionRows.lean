import Coinquery.Txo.Transaction
import Coinquery.Library.Jsonb

/-!
# Every column of `transaction`, `input` and `output`

`Txo.Transaction` keeps of the three tables only the keys the statements compare. Here every
column that `transaction_insert`, `input_insert` and `output_insert` write is kept, and the
functions read their `jsonb` argument as PostgreSQL does (`Library.Jsonb`): `->>` of a key, the
cast of that text, and the `NOT NULL` of the column it goes to. A cast or a NULL that fails ends
the whole call with its error. A row whose `(transaction_id, vin)` or `(transaction_id, vout)` is
stored already raises `unique_violation`, which the loop catches, so that row is dropped.

`keys_transactionInsert` connects the two models: on the keys, a call that succeeds does what
`Txo.transactionInsert` does with the `vin` and `vout` numbers it read. `Consistent` collects the
constraints later proofs rely on: transaction ids are distinct and below the sequence, and every
input and output belongs to a stored transaction. `Tables.Consistent.transactionInsert` shows
that every call keeps it.
-/

namespace Coinquery
namespace Txo
namespace Columns

open Jsonb

/-- A row of `transaction`. -/
structure TransactionRow where
  id : Nat
  index : Option Int
  blockId : Option Int
  txid : String
  hash : String
  version : Int
  size : Int
  vSize : Int
  weight : Int
  locktime : Int
  rawTransaction : String
  deriving DecidableEq, Repr

/-- A row of `input`, without the `id` of its own sequence, which nothing reads. -/
structure InputRow where
  transactionId : Nat
  vin : Int
  spentTxid : String
  spentVout : Int
  asm : String
  hex : String
  sequenceNum : Int
  txInWitness : Option String
  coinbase : Option String
  deriving DecidableEq, Repr

/-- A row of `output`, without its `id`. `addresses` is a `text[]` whose items may be NULL. -/
structure OutputRow where
  transactionId : Nat
  vout : Int
  amount : Int
  asm : String
  hex : String
  reqSigs : Int
  outputType : String
  address : String
  addresses : Option (List (Option String))
  deriving DecidableEq, Repr

/-- The three tables and the value the `transaction` id sequence hands out next. -/
structure Tables where
  transactions : List TransactionRow
  inputs : List InputRow
  outputs : List OutputRow
  nextId : Nat
  deriving DecidableEq, Repr

def Tables.empty : Tables :=
  ⟨[], [], [], 1⟩

/-! ## The keys -/

def TransactionRow.key (row : TransactionRow) : Txo.TransactionRow :=
  ⟨row.id, row.index, row.blockId, row.txid⟩

def InputRow.key (row : InputRow) : Txo.InputRow :=
  ⟨row.transactionId, row.vin⟩

def OutputRow.key (row : OutputRow) : Txo.OutputRow :=
  ⟨row.transactionId, row.vout⟩

/-- The tables of `Txo.Transaction`: the key of every row. -/
def Tables.keys (tables : Tables) : TxTables :=
  ⟨tables.transactions.map TransactionRow.key, tables.inputs.map InputRow.key,
    tables.outputs.map OutputRow.key, tables.nextId⟩

/-! ## The rows the statements build -/

/-- The row that `INSERT INTO input (…) VALUES (in_transaction_id, (var_input->>'vin')::integer, …)`
builds from one element of `in_inputs`. The casts run first, in the order of the columns, and
the `NOT NULL` columns are checked on the finished row. -/
def inputValues (transactionId : Nat) (input : Json) : Except SqlError InputRow := do
  let vin ← castInt .integer (input.fieldText "vin")
  let spentVout ← castInt .integer (input.fieldText "spent_vout")
  let sequenceNum ← castInt .bigint (input.fieldText "sequence")
  let vin ← notNull "vin" vin
  let spentTxid ← notNull "spent_txid" (input.fieldText "spent_txid")
  let spentVout ← notNull "spent_vout" spentVout
  let asm ← notNull "asm" (input.fieldText "asm")
  let hex ← notNull "hex" (input.fieldText "hex")
  let sequenceNum ← notNull "sequence_num" sequenceNum
  pure ⟨transactionId, vin, spentTxid, spentVout, asm, hex, sequenceNum,
    input.fieldText "txinwitness", input.fieldText "coinbase"⟩

/-- `json_array_cast(in_json_array)`: the texts of the items as a `text[]`. It is NULL for no
items (`array_agg` of no rows) and for a value that is not an array (`EXCEPTION WHEN OTHERS`). -/
def jsonArrayCast (value : Option Json) : Option (List (Option String)) :=
  match arrayElements value with
  | .ok [] => none
  | .ok items => some (items.map Json.text)
  | .error _ => none

/-- The row that `INSERT INTO output (…) VALUES (…)` builds from one element of `in_outputs`. -/
def outputValues (transactionId : Nat) (output : Json) : Except SqlError OutputRow := do
  let vout ← castInt .integer (output.fieldText "vout")
  let amount ← castInt .bigint (output.fieldText "amount")
  let reqSigs ← castInt .integer (output.fieldText "reqSigs")
  let vout ← notNull "vout" vout
  let amount ← notNull "amount" amount
  let asm ← notNull "asm" (output.fieldText "asm")
  let hex ← notNull "hex" (output.fieldText "hex")
  let reqSigs ← notNull "req_sigs" reqSigs
  let outputType ← notNull "output_type" (output.fieldText "type")
  -- `::varchar` of a text is the same text
  let address ← notNull "address" (output.fieldText "address")
  pure ⟨transactionId, vout, amount, asm, hex, reqSigs, outputType, address,
    jsonArrayCast (output.field "addresses")⟩

/-- The row that `INSERT INTO transaction (…) VALUES (…)` builds, with the id the sequence hands
out. `block_id` is an `integer` column and `in_block_id` a `bigint`, so it is cast too. -/
def transactionValues (id : Nat) (index blockId : Option Int) (txid : String) (inTxDef : Json)
    (inRawTransaction : String) : Except SqlError TransactionRow := do
  let blockId ← blockId.mapM IntType.integer.check
  let version ← castInt .integer (inTxDef.fieldText "version")
  let size ← castInt .integer (inTxDef.fieldText "size")
  let vSize ← castInt .integer (inTxDef.fieldText "vsize")
  let weight ← castInt .integer (inTxDef.fieldText "weight")
  let locktime ← castInt .bigint (inTxDef.fieldText "locktime")
  let hash ← notNull "hash" (inTxDef.fieldText "hash")
  let version ← notNull "version" version
  let size ← notNull "size" size
  let vSize ← notNull "v_size" vSize
  let weight ← notNull "weight" weight
  let locktime ← notNull "locktime" locktime
  pure ⟨id, index, blockId, txid, hash, version, size, vSize, weight, locktime, inRawTransaction⟩

/-! ## The functions -/

/-- One `INSERT` inside `BEGIN … EXCEPTION WHEN unique_violation THEN … END`: a row whose key is
stored already is dropped. -/
def insertCatching {α κ : Type} [DecidableEq κ] (key : α → κ) (rows : List α) (row : α) :
    List α :=
  if (rows.map key).contains (key row) then rows else rows ++ [row]

namespace Tables

/-- `SELECT id INTO var_transaction_id FROM transaction WHERE txid = in_tx_def->>'txid'`. -/
def selectId (tables : Tables) (txid : String) : Option Nat :=
  (tables.transactions.find? fun row => row.txid == txid).map TransactionRow.id

/-- The `INSERT INTO transaction` of a new row, which takes the next id. -/
def addTransaction (tables : Tables) (row : TransactionRow) : Tables :=
  { tables with transactions := tables.transactions ++ [row], nextId := tables.nextId + 1 }

/-- `UPDATE transaction SET block_id = in_block_id, index = in_transaction_index WHERE id = …`. -/
def updateBlock (tables : Tables) (id : Nat) (blockId index : Option Int) : Tables :=
  { tables with
    transactions := tables.transactions.map fun row =>
      if row.id == id then { row with blockId := blockId, index := index } else row }

end Tables

/-- The loop of `input_insert` and `output_insert`: for each element of the array, one `INSERT`
of the row `values` builds, inside `BEGIN … EXCEPTION WHEN unique_violation …`. Each element
reaches the loop variable through its text, which reads back as the same object. -/
def insertElements {Row κ : Type} [DecidableEq κ] (values : Json → Except SqlError Row)
    (key : Row → κ) (rows : List Row) (elements : Option Json) : Except SqlError (List Row) := do
  let items ← arrayElements elements
  items.foldlM (fun rows item => do
      let row ← values item
      pure (insertCatching key rows row))
    rows

/-- `input_insert(in_transaction_id, in_inputs)`. -/
def inputInsert (tables : Tables) (transactionId : Nat) (inInputs : Option Json) :
    Except SqlError Tables := do
  let inputs ← insertElements (inputValues transactionId) InputRow.key tables.inputs inInputs
  pure { tables with inputs := inputs }

/-- `output_insert(in_transaction_id, in_outputs)`. -/
def outputInsert (tables : Tables) (transactionId : Nat) (inOutputs : Option Json) :
    Except SqlError Tables := do
  let outputs ← insertElements (outputValues transactionId) OutputRow.key tables.outputs inOutputs
  pure { tables with outputs := outputs }

/-- `transaction_insert(in_block_id, in_tx_def, in_raw_transaction, in_transaction_index)`, run
as one statement: an error anywhere leaves the tables as they were. -/
def transactionInsert (tables : Tables) (inBlockId : Int) (inTxDef : Json)
    (inRawTransaction : String) (inTransactionIndex : Int) : Except SqlError Tables :=
  match inTxDef.fieldText "txid" with
  | none => .error (.raiseException "no txid supplied")
  | some txid =>
      let blockId := nullIfMinusOne inBlockId
      let index := nullIfMinusOne inTransactionIndex
      match tables.selectId txid with
      | none => do
          let row ← transactionValues tables.nextId index blockId txid inTxDef inRawTransaction
          -- `hash` is `UNIQUE` as well, and nothing catches that violation
          if tables.transactions.any (·.hash == row.hash) then
            throw (.uniqueViolation "transaction_hash_key")
          let tables ← inputInsert (tables.addTransaction row) row.id (inTxDef.field "inputs")
          outputInsert tables row.id (inTxDef.field "outputs")
      | some id =>
          if blockId.isSome then do
            let blockId ← blockId.mapM IntType.integer.check
            pure (tables.updateBlock id blockId index)
          else pure tables

/-! ## The loop of `input_insert` and `output_insert` -/

/-- The step of the loop can fail only while it builds the row, before it reads the table, so the
loop builds every row first and then inserts them, and fails exactly when a row fails. -/
theorem foldlM_bind_pure {ε α β γ : Type} (g : α → Except ε β) (h : γ → β → γ) (xs : List α)
    (init : γ) :
    xs.foldlM (fun acc x => g x >>= fun r => pure (h acc r)) init =
      (fun rs => rs.foldl h init) <$> xs.mapM g := by
  induction xs generalizing init with
  | nil => rfl
  | cons x xs induction =>
      rw [List.foldlM_cons, List.mapM_cons]
      cases built : g x with
      | error e => rfl
      | ok r =>
          show xs.foldlM _ (h init r) = _
          rw [induction]
          cases xs.mapM g <;> rfl

theorem insertElements_eq_ok {Row κ : Type} [DecidableEq κ] {values : Json → Except SqlError Row}
    {key : Row → κ} {rows : List Row} {elements : Option Json} {result : List Row} :
    insertElements values key rows elements = .ok result ↔
      ∃ items built, arrayElements elements = .ok items ∧
        List.Forall₂ (fun item row => values item = .ok row) items built ∧
        result = built.foldl (insertCatching key) rows := by
  simp only [insertElements, foldlM_bind_pure, bind_eq_ok, map_eq_ok, mapM_eq_ok_iff]
  constructor
  · rintro ⟨items, elements_ok, built, built_ok, rfl⟩
    exact ⟨items, built, elements_ok, built_ok, rfl⟩
  · rintro ⟨items, built, elements_ok, built_ok, rfl⟩
    exact ⟨items, elements_ok, built, built_ok, rfl⟩

theorem forall_of_forall₂ {α β : Type} {R : α → β → Prop} {P : β → Prop}
    (implies : ∀ a b, R a b → P b) {xs : List α} {ys : List β} (related : List.Forall₂ R xs ys) :
    ∀ b ∈ ys, P b := by
  induction related with
  | nil => simp
  | cons head _ induction =>
      intro b member
      rcases List.mem_cons.mp member with rfl | later
      · exact implies _ _ head
      · exact induction b later

theorem map_insertCatching {α κ : Type} [DecidableEq κ] (key : α → κ) (rows : List α) (row : α) :
    (insertCatching key rows row).map key =
      if (rows.map key).contains (key row) then rows.map key else rows.map key ++ [key row] := by
  unfold insertCatching
  split <;> simp

/-- On the keys, the loop is the loop of `Txo.Transaction` over the numbers of the rows. -/
theorem map_foldl_insertCatching {α κ : Type} [DecidableEq κ] {key : α → κ} {number : α → Int}
    {keyOf : Int → κ} {built : List α} (keyed : ∀ row ∈ built, key row = keyOf (number row))
    (rows : List α) :
    (built.foldl (insertCatching key) rows).map key =
      TxTables.insertRows (rows.map key) keyOf (built.map number) := by
  induction built generalizing rows with
  | nil => rfl
  | cons row built induction =>
      rw [List.foldl_cons, List.map_cons, TxTables.insertRows_cons,
        induction (fun later member => keyed later (List.mem_cons_of_mem row member)),
        map_insertCatching, keyed row List.mem_cons_self]

theorem mem_foldl_insertCatching {α κ : Type} [DecidableEq κ] {key : α → κ} {built rows : List α}
    {row : α} (member : row ∈ built.foldl (insertCatching key) rows) : row ∈ rows ∨ row ∈ built := by
  induction built generalizing rows with
  | nil => exact .inl member
  | cons next built induction =>
      rcases induction member with stored | later
      · unfold insertCatching at stored
        split at stored
        · exact .inl stored
        · rcases List.mem_append.mp stored with old | new
          · exact .inl old
          · exact .inr (List.mem_singleton.mp new ▸ List.mem_cons_self)
      · exact .inr (List.mem_cons_of_mem next later)

/-- Rows whose keys are distinct and not stored are all inserted, in order. -/
theorem foldl_insertCatching_of_fresh {α κ : Type} [DecidableEq κ] {key : α → κ}
    {built : List α} (distinct : (built.map key).Nodup) {rows : List α}
    (fresh : ∀ row ∈ built, key row ∉ rows.map key) :
    built.foldl (insertCatching key) rows = rows ++ built := by
  induction built generalizing rows with
  | nil => simp
  | cons row built induction =>
      obtain ⟨apart, distinct⟩ := List.nodup_cons.mp distinct
      have added : insertCatching key rows row = rows ++ [row] := by
        simp [insertCatching, fresh row List.mem_cons_self]
      have still_fresh : ∀ later ∈ built, key later ∉ (rows ++ [row]).map key := by
        intro later member
        simp only [List.map_append, List.map_singleton, List.mem_append, List.mem_singleton, not_or]
        exact ⟨fresh later (List.mem_cons_of_mem row member),
          fun same => apart (same ▸ List.mem_map_of_mem member)⟩
      rw [List.foldl_cons, added, induction distinct still_fresh, List.append_assoc,
        List.singleton_append]

/-- Rows of the next transaction with distinct numbers are all inserted, since every stored row
belongs to an older transaction. -/
theorem foldl_insertCatching_next {α κ : Type} [DecidableEq κ] {key : α → κ}
    {transactionId : α → Nat} {number : α → Int} (keyOf : Nat → Int → κ)
    (keyed : ∀ r, key r = keyOf (transactionId r) (number r))
    (injective : ∀ a b c d, keyOf a b = keyOf c d → a = c ∧ b = d) {next : Nat}
    {stored built : List α} (below : ∀ r ∈ stored, transactionId r < next)
    (new : ∀ r ∈ built, transactionId r = next) (distinct : (built.map number).Nodup) :
    built.foldl (insertCatching key) stored = stored ++ built := by
  apply foldl_insertCatching_of_fresh
  · have keys : built.map key = (built.map number).map (keyOf next) := by
      rw [List.map_map]
      exact List.map_congr_left fun r member => by
        rw [keyed, new r member, Function.comp_apply]
    rw [keys]
    exact distinct.map fun _ _ same => (injective _ _ _ _ same).2
  · intro r member stored_key
    obtain ⟨old, old_member, same⟩ := List.mem_map.mp stored_key
    rw [keyed, keyed, new r member] at same
    exact Nat.ne_of_lt (below old old_member) (injective _ _ _ _ same).1

/-! ## The rows a statement builds -/

theorem inputValues_transactionId {transactionId : Nat} {input : Json} {row : InputRow}
    (built : inputValues transactionId input = .ok row) : row.transactionId = transactionId := by
  simp only [inputValues, bind_eq_ok, pure_eq_ok] at built
  obtain ⟨_, _, _, _, _, _, _, _, _, _, _, _, _, _, _, _, _, _, rfl⟩ := built
  rfl

theorem outputValues_transactionId {transactionId : Nat} {output : Json} {row : OutputRow}
    (built : outputValues transactionId output = .ok row) : row.transactionId = transactionId := by
  simp only [outputValues, bind_eq_ok, pure_eq_ok] at built
  obtain ⟨_, _, _, _, _, _, _, _, _, _, _, _, _, _, _, _, _, _, _, _, rfl⟩ := built
  rfl

theorem mapM_check_eq_ok {type : IntType} {value result : Option Int}
    (checked : value.mapM type.check = .ok result) : result = value := by
  cases value with
  | none => simpa [pure, Except.pure] using checked.symm
  | some n =>
      simp only [Option.mapM_some, map_eq_ok, check_eq_ok] at checked
      obtain ⟨_, ⟨_, rfl⟩, rfl⟩ := checked
      rfl

theorem transactionValues_key {id : Nat} {index blockId : Option Int} {txid : String}
    {inTxDef : Json} {inRawTransaction : String} {row : TransactionRow}
    (built : transactionValues id index blockId txid inTxDef inRawTransaction = .ok row) :
    row.key = ⟨id, index, blockId, txid⟩ := by
  simp only [transactionValues, bind_eq_ok, pure_eq_ok] at built
  obtain ⟨checked, checked_ok, _, _, _, _, _, _, _, _, _, _, _, _, _, _, _, _, _, _, _, _, _, _,
    rfl⟩ := built
  rw [TransactionRow.key, mapM_check_eq_ok checked_ok]

/-! ## What the loops do -/

section Loop

variable {Row κ : Type} [DecidableEq κ] {values : Json → Except SqlError Row} {key : Row → κ}
  {rows result : List Row} {elements : Option Json}

/-- On the keys, a loop that succeeds is the loop of `Txo.Transaction`, over the numbers of the
rows it built. -/
theorem map_insertElements (number : Row → Int) (keyOf : Int → κ)
    (keyed : ∀ item row, values item = .ok row → key row = keyOf (number row))
    (inserted : insertElements values key rows elements = .ok result) :
    ∃ numbers, result.map key = TxTables.insertRows (rows.map key) keyOf numbers := by
  obtain ⟨items, built, _, built_ok, rfl⟩ := insertElements_eq_ok.mp inserted
  exact ⟨built.map number, map_foldl_insertCatching (forall_of_forall₂ keyed built_ok) rows⟩

/-- A row after a loop that succeeds was stored before, or was built from an element. -/
theorem mem_insertElements (inserted : insertElements values key rows elements = .ok result)
    {row : Row} (member : row ∈ result) : row ∈ rows ∨ ∃ item, values item = .ok row := by
  obtain ⟨items, built, _, built_ok, rfl⟩ := insertElements_eq_ok.mp inserted
  have built_from : ∀ row ∈ built, ∃ item, values item = .ok row :=
    forall_of_forall₂ (fun item _ ok => ⟨item, ok⟩) built_ok
  exact (mem_foldl_insertCatching member).imp_right (built_from row)

end Loop

theorem inputInsert_eq_ok {tables after : Tables} {transactionId : Nat} {inInputs : Option Json} :
    inputInsert tables transactionId inInputs = .ok after ↔
      ∃ inputs, insertElements (inputValues transactionId) InputRow.key tables.inputs inInputs =
        .ok inputs ∧ after = { tables with inputs := inputs } := by
  simp only [inputInsert, bind_eq_ok, pure_eq_ok]
  exact exists_congr fun _ => and_congr_right fun _ => eq_comm

theorem outputInsert_eq_ok {tables after : Tables} {transactionId : Nat} {inOutputs : Option Json} :
    outputInsert tables transactionId inOutputs = .ok after ↔
      ∃ outputs, insertElements (outputValues transactionId) OutputRow.key tables.outputs inOutputs =
        .ok outputs ∧ after = { tables with outputs := outputs } := by
  simp only [outputInsert, bind_eq_ok, pure_eq_ok]
  exact exists_congr fun _ => and_congr_right fun _ => eq_comm

/-- The three ways a call of `transaction_insert` can succeed: it inserts a new txid with its
inputs and outputs, moves a stored one to a block, or leaves a stored one as it is. -/
theorem transactionInsert_cases {tables after : Tables} {inBlockId : Int} {inTxDef : Json}
    {inRawTransaction : String} {inTransactionIndex : Int}
    (inserted : transactionInsert tables inBlockId inTxDef inRawTransaction inTransactionIndex =
      .ok after) :
    ∃ txid, inTxDef.fieldText "txid" = some txid ∧
      ((tables.selectId txid = none ∧ ∃ row withInputs,
          transactionValues tables.nextId (nullIfMinusOne inTransactionIndex)
            (nullIfMinusOne inBlockId) txid inTxDef inRawTransaction = .ok row ∧
          tables.transactions.any (·.hash == row.hash) = false ∧
          inputInsert (tables.addTransaction row) row.id (inTxDef.field "inputs") = .ok withInputs ∧
          outputInsert withInputs row.id (inTxDef.field "outputs") = .ok after) ∨
      ∃ id, tables.selectId txid = some id ∧
        ((nullIfMinusOne inBlockId).isSome ∧ after =
          tables.updateBlock id (nullIfMinusOne inBlockId) (nullIfMinusOne inTransactionIndex) ∨
        nullIfMinusOne inBlockId = none ∧ after = tables)) := by
  unfold transactionInsert at inserted
  split at inserted
  · cases inserted
  · rename_i txid named
    refine ⟨txid, named, ?_⟩
    split at inserted
    · rename_i fresh
      obtain ⟨row, built, checked⟩ := bind_eq_ok.mp inserted
      split at checked
      · -- a stored `hash` throws
        obtain ⟨_, thrown, _⟩ := bind_eq_ok.mp checked
        cases thrown
      · rename_i distinct_hash
        obtain ⟨withInputs, inputs_ok, outputs_ok⟩ := bind_eq_ok.mp checked
        exact .inl ⟨fresh, row, withInputs, built, by simpa using distinct_hash, inputs_ok,
          outputs_ok⟩
    · rename_i id stored
      refine .inr ⟨id, stored, ?_⟩
      dsimp only at inserted
      split at inserted
      · rename_i moved
        obtain ⟨checked, checked_ok, updated⟩ := bind_eq_ok.mp inserted
        rw [mapM_check_eq_ok checked_ok] at updated
        exact .inl ⟨moved, (pure_eq_ok.mp updated).symm⟩
      · exact .inr ⟨Option.not_isSome_iff_eq_none.mp ‹_›, (pure_eq_ok.mp inserted).symm⟩

/-! ## The refinement of the key-only model -/

theorem selectId_keys (tables : Tables) (txid : String) :
    tables.keys.selectId txid = tables.selectId txid := by
  simp [Tables.keys, TxTables.selectId, Tables.selectId, List.find?_map, TransactionRow.key,
    Function.comp_def]

theorem keys_addTransaction {tables : Tables} {row : TransactionRow} {index blockId : Option Int}
    {txid : String} (key : row.key = ⟨tables.nextId, index, blockId, txid⟩) :
    (tables.addTransaction row).keys = (tables.keys.insertTransaction index blockId txid).1 := by
  simp [Tables.addTransaction, Tables.keys, TxTables.insertTransaction, key]

theorem keys_updateBlock (tables : Tables) (id : Nat) (blockId index : Option Int) :
    (tables.updateBlock id blockId index).keys = tables.keys.updateBlock id blockId index := by
  simp only [Tables.keys, Tables.updateBlock, TxTables.updateBlock, List.map_map]
  congr 1
  apply List.map_congr_left
  intro row _
  by_cases same : row.id = id <;> simp [same, TransactionRow.key]

theorem keys_inputInsert {tables after : Tables} {transactionId : Nat} {inInputs : Option Json}
    (inserted : inputInsert tables transactionId inInputs = .ok after) :
    ∃ vins, after.keys = tables.keys.inputInsert transactionId vins := by
  obtain ⟨inputs, looped, rfl⟩ := inputInsert_eq_ok.mp inserted
  obtain ⟨vins, keys⟩ := map_insertElements InputRow.vin (Txo.InputRow.mk transactionId)
    (fun _ row built => by rw [InputRow.key, inputValues_transactionId built]) looped
  exact ⟨vins, by simp [Tables.keys, TxTables.inputInsert, keys]⟩

theorem keys_outputInsert {tables after : Tables} {transactionId : Nat} {inOutputs : Option Json}
    (inserted : outputInsert tables transactionId inOutputs = .ok after) :
    ∃ vouts, after.keys = tables.keys.outputInsert transactionId vouts := by
  obtain ⟨outputs, looped, rfl⟩ := outputInsert_eq_ok.mp inserted
  obtain ⟨vouts, keys⟩ := map_insertElements OutputRow.vout (Txo.OutputRow.mk transactionId)
    (fun _ row built => by rw [OutputRow.key, outputValues_transactionId built]) looped
  exact ⟨vouts, by simp [Tables.keys, TxTables.outputInsert, keys]⟩

/-- On the keys, a call of `transaction_insert` that succeeds is a call of the key-only model,
with the `vin` and `vout` numbers it read. -/
theorem keys_transactionInsert {tables after : Tables} {inBlockId : Int} {inTxDef : Json}
    {inRawTransaction : String} {inTransactionIndex : Int}
    (inserted : transactionInsert tables inBlockId inTxDef inRawTransaction inTransactionIndex =
      .ok after) :
    ∃ vins vouts, Txo.transactionInsert tables.keys inBlockId
      ⟨inTxDef.fieldText "txid", vins, vouts⟩ inTransactionIndex = .ok after.keys := by
  obtain ⟨txid, named, ⟨fresh, row, withInputs, built, _, inputs_ok, outputs_ok⟩ |
    ⟨id, stored, ⟨moved, rfl⟩ | ⟨unmoved, rfl⟩⟩⟩ := transactionInsert_cases inserted
  · obtain ⟨vins, vins_keys⟩ := keys_inputInsert inputs_ok
    obtain ⟨vouts, vouts_keys⟩ := keys_outputInsert outputs_ok
    have key := transactionValues_key built
    have row_id : row.id = tables.nextId := congrArg Txo.TransactionRow.id key
    refine ⟨vins, vouts, ?_⟩
    rw [vouts_keys, vins_keys, keys_addTransaction key, row_id]
    simp only [Txo.transactionInsert, named, selectId_keys, fresh]
    rfl
  · refine ⟨[], [], ?_⟩
    simp [Txo.transactionInsert, named, selectId_keys, stored, moved, keys_updateBlock]
  · refine ⟨[], [], ?_⟩
    simp [Txo.transactionInsert, named, selectId_keys, stored, unmoved]

/-! ## The constraints every call keeps -/

/-- A transaction with this id is stored. -/
def Tables.Stored (tables : Tables) (id : Nat) : Prop :=
  ∃ tx ∈ tables.transactions, tx.id = id

/-- What the proofs rely on of the constraints of the tables: transaction ids are distinct and
below the sequence, and every input and output belongs to a stored transaction. -/
structure Tables.Consistent (tables : Tables) : Prop where
  keyed : tables.keys.Keyed
  inputs_stored : ∀ row ∈ tables.inputs, tables.Stored row.transactionId
  outputs_stored : ∀ row ∈ tables.outputs, tables.Stored row.transactionId

theorem Tables.Consistent.empty : Tables.empty.Consistent :=
  ⟨TxTables.Keyed.empty, by simp [Tables.empty], by simp [Tables.empty]⟩

theorem Tables.Stored.below {tables : Tables} (keyed : tables.keys.Keyed) {id : Nat}
    (stored : tables.Stored id) : id < tables.nextId := by
  obtain ⟨tx, member, rfl⟩ := stored
  exact keyed.2 tx.key (List.mem_map_of_mem member)

theorem Tables.Consistent.inputs_below {tables : Tables} (consistent : tables.Consistent) :
    ∀ row ∈ tables.inputs, row.transactionId < tables.nextId :=
  fun row member => (consistent.inputs_stored row member).below consistent.keyed

theorem Tables.Consistent.outputs_below {tables : Tables} (consistent : tables.Consistent) :
    ∀ row ∈ tables.outputs, row.transactionId < tables.nextId :=
  fun row member => (consistent.outputs_stored row member).below consistent.keyed

theorem Tables.Stored.addTransaction {tables : Tables} {id : Nat} (stored : tables.Stored id)
    (row : TransactionRow) : (tables.addTransaction row).Stored id := by
  obtain ⟨tx, member, same⟩ := stored
  exact ⟨tx, List.mem_append_left _ member, same⟩

theorem Tables.stored_addTransaction (tables : Tables) (row : TransactionRow) :
    (tables.addTransaction row).Stored row.id :=
  ⟨row, List.mem_append_right _ List.mem_cons_self, rfl⟩

theorem Tables.Stored.updateBlock {tables : Tables} {id : Nat} (stored : tables.Stored id)
    (moved : Nat) (blockId index : Option Int) : (tables.updateBlock moved blockId index).Stored id := by
  obtain ⟨tx, member, rfl⟩ := stored
  refine ⟨_, List.mem_map_of_mem member, ?_⟩
  split <;> rfl

/-- Every call of `transaction_insert` keeps the constraints. -/
theorem Tables.Consistent.transactionInsert {tables after : Tables} (consistent : tables.Consistent)
    {inBlockId : Int} {inTxDef : Json} {inRawTransaction : String} {inTransactionIndex : Int}
    (inserted : transactionInsert tables inBlockId inTxDef inRawTransaction inTransactionIndex =
      .ok after) :
    after.Consistent := by
  obtain ⟨vins, vouts, keys_inserted⟩ := keys_transactionInsert inserted
  have keyed := consistent.keyed.transactionInsert keys_inserted
  obtain ⟨txid, _, ⟨_, row, withInputs, _, _, inputs_ok, outputs_ok⟩ |
    ⟨id, _, ⟨_, rfl⟩ | ⟨_, rfl⟩⟩⟩ := transactionInsert_cases inserted
  · obtain ⟨inputs, inputs_looped, rfl⟩ := inputInsert_eq_ok.mp inputs_ok
    obtain ⟨outputs, outputs_looped, rfl⟩ := outputInsert_eq_ok.mp outputs_ok
    -- a row is an old one, whose transaction is still stored, or a new one of `row`
    refine ⟨keyed, fun input member => ?_, fun output member => ?_⟩
    · rcases mem_insertElements inputs_looped member with old | ⟨_, built⟩
      · exact (consistent.inputs_stored input old).addTransaction row
      · rw [inputValues_transactionId built]
        exact tables.stored_addTransaction row
    · rcases mem_insertElements outputs_looped member with old | ⟨_, built⟩
      · exact (consistent.outputs_stored output old).addTransaction row
      · rw [outputValues_transactionId built]
        exact tables.stored_addTransaction row
  · exact ⟨keyed, fun input member => (consistent.inputs_stored input member).updateBlock _ _ _,
      fun output member => (consistent.outputs_stored output member).updateBlock _ _ _⟩
  · exact consistent

end Columns
end Txo
end Coinquery
