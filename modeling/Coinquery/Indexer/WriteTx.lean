import Coinquery.Txo.Transaction
import Coinquery.Txo.BlockInsert
import Coinquery.Library.Slots
import Mathlib.Logic.Relation

/-!
# `writeBlock` and the `writeTx` workers

In `staySynced`, `writeBlock` inserts each block it receives with `InsertBlock` and then hands the
block's transactions one at a time over the unbuffered `txResultChan` as `txResult{tx, i, blockId}`;
`getMempoolTxs` hands mempool transactions over the same channel as `txResult{tx, -1, -1}`.
`dbThreads` `writeTx` workers each take an item and later run `InsertTx` on it, that is
`transaction_insert` as one database transaction.

A run is a sequence of events: `writeBlock` inserts its next block, a worker takes an item, a
worker writes the item it holds. `Reachable.attributed`: along every run, a transaction row's
`block_id` is NULL, from the tables the run started with, or the id of an inserted block that
contains the transaction. Which of those blocks it names depends on the order in which the
workers write, and not on the order of the blocks: `attribution_follows_workers`.
-/

namespace Coinquery
namespace Indexer

open SelectInto Txo

/-- The fields of `utxo.Tx` that `InsertTx` passes on: `TxID`, the number of `Vins` (the input
`i` gets `vin = i`) and the `N` of each of `Vouts`. -/
structure Tx where
  txID : String
  vinCount : Nat
  vouts : List Int
  deriving DecidableEq, Repr

/-- The fields of `utxo.Block` that `writeBlock` reads. -/
structure Block where
  header : BlockHeader
  txs : List Tx
  deriving DecidableEq, Repr

/-- `txResult`. -/
structure TxResult where
  tx : Tx
  index : Int
  blockId : Int
  deriving DecidableEq, Repr

/-- The `txObj` that `InsertTx` marshals for `transaction_insert`. -/
def Tx.txDef (tx : Tx) : TxDef :=
  ⟨some tx.txID, (List.range tx.vinCount).map Int.ofNat, tx.vouts⟩

/-- `InsertTx(tx, txIndex, blockID)`. It retries a raising call; `transaction_insert` raises only
without a txid, and the same call on the same tables raises again. -/
def insertTx (tables : TxTables) (tx : Tx) (txIndex blockID : Int) : Except String TxTables :=
  transactionInsert tables blockID tx.txDef txIndex

/-- The items `writeBlock` sends for a block inserted under `blockId`. -/
def txResults (block : Block) (blockId : Nat) : List TxResult :=
  block.txs.mapIdx fun i tx => ⟨tx, i, blockId⟩

/-- The state of `staySynced`'s writers. -/
structure Writers where
  /-- The `block` table. -/
  blocks : Table
  /-- The `transaction`, `input` and `output` tables. -/
  tables : TxTables
  /-- The blocks `syncToTip` has still to send to `writeBlock`, in order. -/
  toWrite : List Block
  /-- The items of the current block that `writeBlock` has not handed over yet. -/
  handing : List TxResult
  /-- Each `writeTx` worker: idle, or holding the item it took. -/
  workers : List (Option TxResult)
  /-- The blocks inserted so far with the id `InsertBlock` returned; the program keeps no such
  list. -/
  inserted : List (Block × Nat)
  deriving DecidableEq, Repr

/-- What can happen next. -/
inductive Event
  | writeBlock
  | hand (worker : Nat)
  | mempool (worker : Nat) (tx : Tx)
  | write (worker : Nat)
  deriving DecidableEq, Repr

namespace Writers

def start (blocks : Table) (tables : TxTables) (toWrite : List Block) (dbThreads : Nat) : Writers :=
  ⟨blocks, tables, toWrite, [], List.replicate dbThreads none, []⟩

/-- The event, when it can happen. `writeBlock` moves to the next block once every item of the
current one is handed over; a raising `InsertBlock` ends the process (`log.Fatal`). -/
def next (pick : Pick BlockRow) (fuel : Nat) (recover : Bool) (s : Writers) : Event → Option Writers
  | .writeBlock =>
      match s.handing, s.toWrite with
      | [], block :: rest =>
          match blockInsert pick fuel s.blocks block.header recover with
          | some (.ok (blocks, blockId)) =>
              some { s with
                blocks := blocks
                toWrite := rest
                handing := txResults block blockId
                inserted := s.inserted ++ [(block, blockId)] }
          | _ => none
      | _, _ => none
  | .hand worker =>
      match s.workers[worker]?, s.handing with
      | some none, item :: rest =>
          some { s with workers := s.workers.set worker (some item), handing := rest }
      | _, _ => none
  | .mempool worker tx =>
      match s.workers[worker]? with
      | some none => some { s with workers := s.workers.set worker (some ⟨tx, -1, -1⟩) }
      | _ => none
  | .write worker =>
      match s.workers[worker]? with
      | some (some item) =>
          match insertTx s.tables item.tx item.index item.blockId with
          | .ok tables => some { s with tables := tables, workers := s.workers.set worker none }
          | .error _ => none
      | _ => none

def Step (pick : Pick BlockRow) (fuel : Nat) (recover : Bool) (s s' : Writers) : Prop :=
  ∃ event, s.next pick fuel recover event = some s'

def Reachable (pick : Pick BlockRow) (fuel : Nat) (recover : Bool) (blocks : Table)
    (tables : TxTables) (toWrite : List Block) (dbThreads : Nat) : Writers → Prop :=
  Relation.ReflTransGen (Step pick fuel recover) (start blocks tables toWrite dbThreads)

/-- Every item sent is written: nothing left to insert, hand over or write. -/
def Quiescent (s : Writers) : Prop :=
  s.toWrite = [] ∧ s.handing = [] ∧ ∀ worker ∈ s.workers, worker = none

/-- The items handed over and not yet written, and those still to hand over. -/
def pendingItems (s : Writers) : List TxResult :=
  s.handing ++ s.workers.filterMap id

/-- The events of a list, one after the other. -/
def run (pick : Pick BlockRow) (fuel : Nat) (recover : Bool) : Writers → List Event → Option Writers
  | s, [] => some s
  | s, event :: events => (s.next pick fuel recover event).bind fun s' => run pick fuel recover s' events

theorem reachable_of_run {pick : Pick BlockRow} {fuel : Nat} {recover : Bool} :
    ∀ {s s' : Writers} (events : List Event), s.run pick fuel recover events = some s' →
      Relation.ReflTransGen (Step pick fuel recover) s s'
  | s, s', [], ran => by
      cases ran
      exact .refl
  | s, s', event :: events, ran => by
      obtain ⟨middle, stepped, rest⟩ := Option.bind_eq_some_iff.mp ran
      exact .head ⟨event, stepped⟩ (reachable_of_run events rest)

/-! ## What an event can do -/

variable {pick : Pick BlockRow} {fuel : Nat} {recover : Bool} {s s' : Writers}

/-- The four events, with what each needs and what it changes. -/
theorem next_cases {event : Event} (stepped : s.next pick fuel recover event = some s') :
    (∃ block rest blocks blockId, s.handing = [] ∧ s.toWrite = block :: rest ∧
      blockInsert pick fuel s.blocks block.header recover = some (.ok (blocks, blockId)) ∧
      s' = { s with
        blocks := blocks
        toWrite := rest
        handing := txResults block blockId
        inserted := s.inserted ++ [(block, blockId)] }) ∨
    (∃ worker item rest, s.workers[worker]? = some none ∧ s.handing = item :: rest ∧
      s' = { s with workers := s.workers.set worker (some item), handing := rest }) ∨
    (∃ worker tx, s.workers[worker]? = some none ∧
      s' = { s with workers := s.workers.set worker (some ⟨tx, -1, -1⟩) }) ∨
    (∃ worker item tables, s.workers[worker]? = some (some item) ∧
      insertTx s.tables item.tx item.index item.blockId = .ok tables ∧
      s' = { s with tables := tables, workers := s.workers.set worker none }) := by
  cases event with
  | writeBlock =>
      simp only [next] at stepped
      split at stepped
      · rename_i block rest idle queued
        split at stepped
        · rename_i blocks blockId inserted
          exact .inl ⟨block, rest, blocks, blockId, idle, queued, inserted, (Option.some.inj stepped).symm⟩
        · cases stepped
      · cases stepped
  | hand worker =>
      simp only [next] at stepped
      split at stepped
      · rename_i item rest idle queued
        exact .inr (.inl ⟨worker, item, rest, idle, queued, (Option.some.inj stepped).symm⟩)
      · cases stepped
  | mempool worker tx =>
      simp only [next] at stepped
      split at stepped
      · rename_i idle
        exact .inr (.inr (.inl ⟨worker, tx, idle, (Option.some.inj stepped).symm⟩))
      · cases stepped
  | write worker =>
      simp only [next] at stepped
      split at stepped
      · rename_i item held
        split at stepped
        · rename_i tables written
          exact .inr (.inr (.inr ⟨worker, item, tables, held, written, (Option.some.inj stepped).symm⟩))
        · cases stepped
      · cases stepped

theorem mem_txResults {block : Block} {blockId : Nat} {item : TxResult}
    (member : item ∈ txResults block blockId) : item.blockId = blockId ∧ item.tx ∈ block.txs := by
  obtain ⟨i, below, rfl⟩ := List.mem_mapIdx.mp member
  exact ⟨rfl, List.getElem_mem below⟩

/-! ## Attribution -/

/-- Along a run from the tables `initial`: transaction ids stay distinct, every item sent with
a block id carries a transaction of the block inserted under that id, and every transaction row
is from `initial`, has no block, or names an inserted block that contains it. -/
structure Attributed (initial : TxTables) (s : Writers) : Prop where
  keyed : s.tables.Keyed
  items : ∀ item ∈ s.pendingItems, item.blockId = -1 ∨
    ∃ entry ∈ s.inserted, item.blockId = entry.2 ∧ item.tx ∈ entry.1.txs
  rows : ∀ row ∈ s.tables.transactions, row ∈ initial.transactions ∨ row.blockId = none ∨
    ∃ entry ∈ s.inserted, row.blockId = some (entry.2 : Int) ∧ ∃ tx ∈ entry.1.txs, tx.txID = row.txid

theorem attributed_start {blocks : Table} {tables : TxTables} (keyed : tables.Keyed)
    (toWrite : List Block) (dbThreads : Nat) :
    Attributed tables (start blocks tables toWrite dbThreads) where
  keyed := keyed
  items := fun item member => by simp [pendingItems, start] at member
  rows := fun _ member => .inl member

/-- A block item names a block id other than `-1`. -/
theorem nullIfMinusOne_natCast (blockId : Nat) : nullIfMinusOne blockId = some (blockId : Int) := by
  rw [nullIfMinusOne, if_neg (by omega)]

theorem Attributed.write {initial : TxTables} (attributed : Attributed initial s) {worker : Nat}
    {item : TxResult} {tables : TxTables} (held : s.workers[worker]? = some (some item))
    (written : insertTx s.tables item.tx item.index item.blockId = .ok tables) :
    Attributed initial { s with tables := tables, workers := s.workers.set worker none } where
  keyed := TxTables.Keyed.transactionInsert attributed.keyed written
  items := by
    intro other member
    rcases List.mem_append.mp member with queued | taken
    · exact attributed.items other (List.mem_append_left _ queued)
    · rcases Slots.mem_held_set taken with old | emptied
      · exact attributed.items other (List.mem_append_right _ old)
      · cases emptied
  rows := by
    intro row member
    rcases mem_transactionInsert attributed.keyed written member with old | ⟨named, block⟩
    · exact attributed.rows row old
    · have item_held : item ∈ s.pendingItems :=
        List.mem_append_right _ (List.mem_filterMap.mpr ⟨_, List.mem_of_getElem? held, rfl⟩)
      have txid_eq : item.tx.txID = row.txid := Option.some.inj named
      rcases attributed.items item item_held with mempool | ⟨entry, inserted, same_block, contains⟩
      · -- a mempool item inserts a row without a block and changes no stored row
        exact .inr (.inl (by rw [block, mempool]; rfl))
      · exact .inr (.inr ⟨entry, inserted, by rw [block, same_block, nullIfMinusOne_natCast],
          item.tx, contains, txid_eq⟩)

theorem Attributed.step {initial : TxTables} (attributed : Attributed initial s)
    (step : Step pick fuel recover s s') : Attributed initial s' := by
  obtain ⟨event, stepped⟩ := step
  rcases next_cases stepped with
    ⟨block, rest, blocks, blockId, idle, _, _, rfl⟩ | ⟨worker, item, rest, _, queued, rfl⟩ |
      ⟨worker, tx, _, rfl⟩ | ⟨worker, item, tables, held, written, rfl⟩
  · -- `writeBlock`: the new items carry the block just inserted
    have grown : ∀ entry ∈ s.inserted, entry ∈ s.inserted ++ [(block, blockId)] :=
      fun _ member => List.mem_append_left _ member
    refine ⟨attributed.keyed, fun item member => ?_, fun row member => ?_⟩
    · rcases List.mem_append.mp member with fresh | taken
      · obtain ⟨same_block, contains⟩ := mem_txResults fresh
        exact .inr ⟨(block, blockId), List.mem_append_right _ (List.mem_singleton_self _), same_block,
          contains⟩
      · rcases attributed.items item (List.mem_append_right _ taken) with mempool | ⟨entry, old, rest⟩
        · exact .inl mempool
        · exact .inr ⟨entry, grown entry old, rest⟩
    · rcases attributed.rows row member with old | none_block | ⟨entry, old, rest⟩
      · exact .inl old
      · exact .inr (.inl none_block)
      · exact .inr (.inr ⟨entry, grown entry old, rest⟩)
  · -- a worker takes the next item of `writeBlock`
    refine ⟨attributed.keyed, fun other member => ?_, attributed.rows⟩
    have moved : other ∈ s.pendingItems := by
      rcases List.mem_append.mp member with queued' | taken
      · exact List.mem_append_left _ (by rw [queued]; exact List.mem_cons_of_mem item queued')
      · rcases Slots.mem_held_set taken with old | same
        · exact List.mem_append_right _ old
        · cases same
          exact List.mem_append_left _ (by rw [queued]; exact List.mem_cons_self)
    exact attributed.items other moved
  · -- a worker takes a mempool transaction
    refine ⟨attributed.keyed, fun other member => ?_, attributed.rows⟩
    rcases List.mem_append.mp member with queued | taken
    · exact attributed.items other (List.mem_append_left _ queued)
    · rcases Slots.mem_held_set taken with old | fresh
      · exact attributed.items other (List.mem_append_right _ old)
      · cases fresh
        exact .inl rfl
  · exact attributed.write held written

variable {blocks : Table} {tables : TxTables} {toWrite : List Block} {dbThreads : Nat}

/-- Along every run a transaction row's `block_id` is NULL, from the starting tables, or the id
of an inserted block that contains the transaction. -/
theorem Reachable.attributed (keyed : tables.Keyed)
    (reach : Reachable pick fuel recover blocks tables toWrite dbThreads s) :
    ∀ row ∈ s.tables.transactions, row ∈ tables.transactions ∨ row.blockId = none ∨
      ∃ entry ∈ s.inserted, row.blockId = some (entry.2 : Int) ∧ ∃ tx ∈ entry.1.txs, tx.txID = row.txid := by
  have invariant : Attributed tables s := by
    induction reach with
    | refl => exact attributed_start keyed toWrite dbThreads
    | tail _ step attributed => exact attributed.step step
  exact invariant.rows

/-- One worker writes the transaction `t` of the block `a1`, inserted over the genesis block. -/
def oneBlockWritten : Writers :=
  ⟨⟨[⟨1, "g0", 0, "", "a1", false⟩, ⟨2, "a1", 1, "g0", "", false⟩], 3⟩,
    ⟨[⟨1, some 0, some 2, "t"⟩], [⟨1, 0⟩], [⟨1, 0⟩], 2⟩, [], [], [none],
    [(⟨⟨"a1", 1, "g0", ""⟩, [⟨"t", 1, [0]⟩]⟩, 2)]⟩

theorem attributed_oneBlockWritten :
    TxTables.empty.Keyed ∧
      Reachable Pick.first 2 false ⟨[⟨1, "g0", 0, "", "", false⟩], 2⟩ TxTables.empty
        [⟨⟨"a1", 1, "g0", ""⟩, [⟨"t", 1, [0]⟩]⟩] 1 oneBlockWritten ∧
      ∀ row ∈ oneBlockWritten.tables.transactions, row ∈ TxTables.empty.transactions ∨
        row.blockId = none ∨ ∃ entry ∈ oneBlockWritten.inserted, row.blockId = some (entry.2 : Int) ∧
          ∃ tx ∈ entry.1.txs, tx.txID = row.txid := by
  have reach : Reachable Pick.first 2 false ⟨[⟨1, "g0", 0, "", "", false⟩], 2⟩ TxTables.empty
      [⟨⟨"a1", 1, "g0", ""⟩, [⟨"t", 1, [0]⟩]⟩] 1 oneBlockWritten :=
    reachable_of_run [.writeBlock, .hand 0, .write 0] (by decide)
  exact ⟨TxTables.Keyed.empty, reach, Reachable.attributed TxTables.Keyed.empty reach⟩

end Writers

/-- Two workers, and a transaction `t` mined in `a1` and again in `b1`, which replaces `a1` at
height `1`. The first worker takes `a1`'s item; `writeBlock` inserts `b1`, which orphans `a1`;
the second worker takes `b1`'s item and writes it; the first worker writes last, and `t` stays
with the orphaned `a1` while `b1` is live. -/
theorem attribution_follows_workers :
    ¬ ∀ (pick : Pick BlockRow) (fuel : Nat) (recover : Bool) (blocks : Table) (tables : TxTables)
        (toWrite : List Block) (dbThreads : Nat), 1 ≤ dbThreads →
        ∀ s, Writers.Reachable pick fuel recover blocks tables toWrite dbThreads s → s.Quiescent →
        ∀ entry ∈ s.inserted, (∃ row ∈ s.blocks.rows, row.id = entry.2 ∧ row.isOrphaned = false) →
        ∀ tx ∈ entry.1.txs, ∃ row ∈ s.tables.transactions, row.txid = tx.txID ∧
          row.blockId = some (entry.2 : Int) := by
  intro attributed
  let t : Tx := ⟨"t", 1, [0]⟩
  let a1 : Block := ⟨⟨"a1", 1, "g0", ""⟩, [t]⟩
  let b1 : Block := ⟨⟨"b1", 1, "g0", ""⟩, [t]⟩
  -- the table after the initial sync inserted the genesis block `g0`
  let synced : Table := ⟨[⟨1, "g0", 0, "", "a1", false⟩], 2⟩
  let final : Writers :=
    ⟨⟨[⟨1, "g0", 0, "", "b1", false⟩, ⟨2, "a1", 1, "g0", "", true⟩, ⟨3, "b1", 1, "g0", "", false⟩], 4⟩,
      ⟨[⟨1, some 0, some 2, "t"⟩], [⟨1, 0⟩], [⟨1, 0⟩], 2⟩, [], [], [none, none], [(a1, 2), (b1, 3)]⟩
  have ran : (Writers.start synced TxTables.empty [a1, b1] 2).run Pick.first 3 false
      [.writeBlock, .hand 0, .writeBlock, .hand 1, .write 1, .write 0] = some final := by
    decide
  obtain ⟨row, member, _, attributed_to⟩ :=
    attributed Pick.first 3 false synced TxTables.empty [a1, b1] 2 (by decide) final
      (Writers.reachable_of_run _ ran) ⟨rfl, rfl, by decide⟩ (b1, 3) (by decide)
      ⟨⟨3, "b1", 1, "g0", "", false⟩, by decide, rfl, rfl⟩ t (by decide)
  -- the only transaction row is `t`'s, and it names `a1`
  rw [List.mem_singleton.mp member] at attributed_to
  cases attributed_to

end Indexer
end Coinquery
