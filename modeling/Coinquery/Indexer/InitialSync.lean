import Coinquery.Indexer.BlockHeights
import Coinquery.Indexer.WriteTx
import Coinquery.Library.Slots
import Mathlib.Data.List.Sort

/-!
# `Indexer.initialSync`

`processBlockHeights` hands its batches of heights over the unbuffered `blockHeightsChan` to
`rpcThreads` `getBlocks` workers. Each worker asks the node for the blocks of its batch and sends
them on `blocksChan`, and the workers finish in any order. `orderBlock` appends each list it
receives to `blockStore`, sorts the store by height, sends blocks from its front to `writeBlock` while
each has the height `nextBlock`, and slices the sent blocks off.

A run interleaves the producer's iterations, each of which hands its batch to an idle worker, with
the workers' deliveries, each of which `orderBlock` processes at once. Whatever the order of
arrival, `orderBlock` keeps `Ordered`: it has sent the blocks of `startBlock, …, nextBlock - 1` in
order, and its store is sorted and holds only the node's blocks above `nextBlock`. The run invariant
`Synced` adds the loop invariant `Batched` and that every height handed out has arrived or is still
with its worker. From any state a run can still reach the end (`Reachable.reaches_finished`), and at
the end `orderBlock` has sent the blocks of `startBlock, …, E` (`Reachable.sent_of_finished`).
-/

namespace Coinquery
namespace Indexer

open scoped List

/-- `block.Height`. -/
def Block.height (block : Block) : Int :=
  block.header.height

/-- The inner loop of `orderBlock`: from the front of the sorted store, the blocks sent while each
has the height `nextBlock`, and `nextBlock` after them. -/
def sendConsecutive : Int → List Block → List Block × Int
  | nextBlock, [] => ([], nextBlock)
  | nextBlock, block :: rest =>
      if block.height = nextBlock then
        let sent := sendConsecutive (block.height + 1) rest
        (block :: sent.1, sent.2)
      else ([], nextBlock)

/-- The state of `orderBlock`. -/
structure OrderBlock where
  nextBlock : Int
  blockStore : List Block
  /-- The blocks sent on `orderedBlockChan`, in order. -/
  sent : List Block
  deriving DecidableEq, Repr

namespace OrderBlock

def start (startBlock : Int) : OrderBlock :=
  ⟨startBlock, [], []⟩

/-- `sort.Slice(blockStore, …)` by `Height`. `sort.Slice` is not stable and the merge sort is; the two
agree on a store of distinct heights, which is what `Ordered` keeps. -/
def sortByHeight (blockStore : List Block) : List Block :=
  blockStore.mergeSort fun a b => decide (a.height ≤ b.height)

/-- One iteration of `for blks := range blocksChan`: append, sort, send, and
`blockStore = blockStore[blockSentCount:]`. -/
def receive (o : OrderBlock) (blks : List Block) : OrderBlock :=
  let blockStore := sortByHeight (o.blockStore ++ blks)
  let sent := sendConsecutive o.nextBlock blockStore
  ⟨sent.2, blockStore.drop sent.1.length, o.sent ++ sent.1⟩

/-- The heights of the blocks that have arrived. -/
def arrived (o : OrderBlock) : List Int :=
  (o.sent ++ o.blockStore).map Block.height

end OrderBlock

/-- The fields of `idxr *Indexer` that the initial sync reads, with the node `idxr.bc`. -/
structure Idxr where
  rpcThreads : Nat
  startBlock : Int
  /-- `idxr.endBlock` after `initialSync`'s own `setEndBlock()`. -/
  endBlock : Int
  syncTip : Bool
  batchSize : Int
  /-- `GetChainInfo().Blocks` at the `k`-th call inside `processBlockHeights`. -/
  chainTip : Nat → Int
  /-- The block `GetBlocks` returns for a height. -/
  node : Int → Block

/-- What the run needs of the flags and the node: a positive `batchSize`, a worker, a first
`endBlock` from `startBlock` on, answers of `GetChainInfo` that never decrease, start at or above
the first `endBlock` and stay at most `top`, heights that do not wrap past `top + batchSize`, and
blocks of the heights asked for. -/
structure Idxr.Sane (idxr : Idxr) (top : Int) : Prop where
  positive : 0 < idxr.batchSize
  threads : 0 < idxr.rpcThreads
  low : -2 ^ 63 ≤ idxr.startBlock
  fits : top + idxr.batchSize < 2 ^ 63
  start_le : idxr.startBlock ≤ idxr.endBlock
  rising : Monotone idxr.chainTip
  first : idxr.endBlock ≤ idxr.chainTip 0
  bounded : ∀ k, idxr.chainTip k ≤ top
  heights : ∀ height, (idxr.node height).height = height

/-- The goroutines of `initialSync` up to `writeBlock`. -/
structure InitialSync where
  /-- `processBlockHeights`. -/
  loop : HeightsLoop
  /-- The `getBlocks` workers: idle, or holding the batch they received. -/
  workers : List (Option (List Int))
  order : OrderBlock
  deriving DecidableEq, Repr

namespace InitialSync

inductive Event
  /-- `processBlockHeights` runs an iteration and the worker receives its batch. -/
  | take (worker : Nat)
  /-- The worker sends the blocks of its batch, and `orderBlock` processes them. -/
  | deliver (worker : Nat)
  deriving DecidableEq, Repr

def start (idxr : Idxr) : InitialSync :=
  ⟨HeightsLoop.start idxr.startBlock idxr.endBlock, List.replicate idxr.rpcThreads none,
    OrderBlock.start idxr.startBlock⟩

/-- The event, when it can happen. A failing `GetBlocks` (`log.Fatal`) is left out. -/
def next (idxr : Idxr) (s : InitialSync) : Event → Option InitialSync
  | .take worker =>
      match s.workers[worker]? with
      | some none =>
          if s.loop.running then
            some { s with
              loop := s.loop.step idxr.syncTip idxr.startBlock idxr.batchSize idxr.chainTip
              workers := s.workers.set worker
                (some (s.loop.nextBatch idxr.syncTip idxr.startBlock idxr.batchSize idxr.chainTip)) }
          else none
      | _ => none
  | .deliver worker =>
      match s.workers[worker]? with
      | some (some heights) =>
          some { s with
            workers := s.workers.set worker none
            order := s.order.receive (heights.map idxr.node) }
      | _ => none

def Step (idxr : Idxr) (s s' : InitialSync) : Prop :=
  ∃ event, s.next idxr event = some s'

def Reachable (idxr : Idxr) : InitialSync → Prop :=
  Relation.ReflTransGen (Step idxr) (start idxr)

/-- `processBlockHeights` has returned and every worker is idle: `blocksChan` is closed, and
`orderBlock` returns. -/
def Finished (s : InitialSync) : Prop :=
  s.loop.running = false ∧ ∀ worker ∈ s.workers, worker = none

/-- The heights handed to workers and not delivered yet. -/
def pending (s : InitialSync) : List Int :=
  (Slots.held s.workers).flatten

end InitialSync

/-! ## `orderBlock`'s inner loop -/

theorem sendConsecutive_append_drop (nextBlock : Int) (blockStore : List Block) :
    (sendConsecutive nextBlock blockStore).1 ++
        blockStore.drop (sendConsecutive nextBlock blockStore).1.length = blockStore := by
  induction blockStore generalizing nextBlock with
  | nil => rfl
  | cons block rest ih =>
      simp only [sendConsecutive]
      split
      · simp [ih]
      · rfl

/-- The blocks sent have the heights `nextBlock, nextBlock + 1, …` up to the new `nextBlock`. -/
theorem map_height_sendConsecutive (nextBlock : Int) (blockStore : List Block) :
    (sendConsecutive nextBlock blockStore).1.map Block.height =
        heightsFrom nextBlock ((sendConsecutive nextBlock blockStore).2 - 1) ∧
      nextBlock ≤ (sendConsecutive nextBlock blockStore).2 := by
  induction blockStore generalizing nextBlock with
  | nil =>
      simp only [sendConsecutive, List.map_nil, le_refl, and_true]
      exact (heightsFrom_of_lt (show nextBlock - 1 < nextBlock by omega)).symm
  | cons block rest ih =>
      simp only [sendConsecutive]
      split
      · rename_i found
        subst found
        obtain ⟨heights, above⟩ := ih (block.height + 1)
        refine ⟨?_, by omega⟩
        rw [List.map_cons, heights]
        exact (heightsFrom_cons (by omega)).symm
      · simp only [List.map_nil, le_refl, and_true]
        exact (heightsFrom_of_lt (show nextBlock - 1 < nextBlock by omega)).symm

/-- A sorted store whose heights are at least `nextBlock` keeps only heights above the new
`nextBlock`: the first block left is not the next height, and the others are higher still. -/
theorem lt_of_mem_drop_sendConsecutive {nextBlock : Int} {blockStore : List Block}
    (sorted : blockStore.Pairwise fun a b => a.height < b.height)
    (above : ∀ block ∈ blockStore, nextBlock ≤ block.height) :
    ∀ block ∈ blockStore.drop (sendConsecutive nextBlock blockStore).1.length,
      (sendConsecutive nextBlock blockStore).2 < block.height := by
  induction blockStore generalizing nextBlock with
  | nil => simp
  | cons first rest ih =>
      rw [List.pairwise_cons] at sorted
      have first_above := above first List.mem_cons_self
      simp only [sendConsecutive]
      split
      · rename_i found
        simp only [List.length_cons, List.drop_succ_cons]
        exact ih sorted.2 fun block member => by
          have := sorted.1 block member
          omega
      · rename_i missing
        intro block member
        rcases List.mem_cons.mp member with rfl | later
        · omega
        · have := sorted.1 block later
          omega

/-! ## `orderBlock`'s invariant -/

namespace OrderBlock

theorem arrived_receive (o : OrderBlock) (blks : List Block) :
    (o.receive blks).arrived.Perm (o.arrived ++ blks.map Block.height) := by
  have kept : (o.receive blks).sent ++ (o.receive blks).blockStore =
      o.sent ++ sortByHeight (o.blockStore ++ blks) := by
    simp only [receive, List.append_assoc, sendConsecutive_append_drop]
  rw [arrived, kept, arrived, ← List.map_append, List.append_assoc]
  exact ((List.mergeSort_perm _ _).append_left o.sent).map Block.height

/-- Sorting a store of distinct heights sorts it strictly. -/
theorem pairwise_lt_sortByHeight {blocks : List Block} (distinct : (blocks.map Block.height).Nodup) :
    (sortByHeight blocks).Pairwise fun a b => a.height < b.height := by
  have sorted : (sortByHeight blocks).Pairwise fun a b => decide (a.height ≤ b.height) = true :=
    List.pairwise_mergeSort (fun a b c ab bc => by simp only [decide_eq_true_eq] at *; omega)
      (fun a b => by simp only [Bool.or_eq_true, decide_eq_true_eq]; omega) blocks
  have different : (sortByHeight blocks).Pairwise fun a b => a.height ≠ b.height :=
    List.pairwise_map.mp (((List.mergeSort_perm _ _).map Block.height).nodup_iff.mpr distinct)
  exact (sorted.and different).imp fun ⟨le, ne⟩ => lt_of_le_of_ne (by simpa using le) ne

end OrderBlock

/-- What `orderBlock` keeps for every order of arrival, with `node` the node's blocks. -/
structure Ordered (node : Int → Block) (startBlock : Int) (o : OrderBlock) : Prop where
  started : startBlock ≤ o.nextBlock
  sent : o.sent = (heightsFrom startBlock (o.nextBlock - 1)).map node
  sorted : o.blockStore.Pairwise fun a b => a.height < b.height
  stored : ∀ block ∈ o.blockStore, block = node block.height ∧ o.nextBlock < block.height

section Ordered

variable {node : Int → Block} {startBlock : Int} {o : OrderBlock}

/-- Blocks that are each the node's block at their height are the node's blocks at their heights. -/
theorem eq_map_node {blocks : List Block} (fromNode : ∀ block ∈ blocks, block = node block.height) :
    blocks = (blocks.map Block.height).map node := by
  rw [List.map_map]
  conv_lhs => rw [← List.map_id blocks]
  exact List.map_congr_left fromNode

/-- The node's blocks of some heights have those heights. -/
theorem map_height_map_node (heights : ∀ height, (node height).height = height) (batch : List Int) :
    (batch.map node).map Block.height = batch := by
  rw [List.map_map]
  conv_rhs => rw [← List.map_id batch]
  exact List.map_congr_left fun height _ => heights height

theorem Ordered.start : Ordered node startBlock (OrderBlock.start startBlock) where
  started := le_rfl
  sent := by simp [OrderBlock.start, heightsFrom_of_lt (show startBlock - 1 < startBlock by omega)]
  sorted := List.Pairwise.nil
  stored := by simp [OrderBlock.start]

theorem Ordered.map_height_sent (heights : ∀ height, (node height).height = height)
    (ordered : Ordered node startBlock o) :
    o.sent.map Block.height = heightsFrom startBlock (o.nextBlock - 1) := by
  rw [ordered.sent, map_height_map_node heights]

/-- `nextBlock` has not arrived: the blocks sent are below it and the stored ones above. -/
theorem Ordered.nextBlock_not_mem_arrived (heights : ∀ height, (node height).height = height)
    (ordered : Ordered node startBlock o) : o.nextBlock ∉ o.arrived := by
  rw [OrderBlock.arrived, List.map_append, ordered.map_height_sent heights, List.mem_append,
    mem_heightsFrom, not_or]
  refine ⟨by omega, fun member => ?_⟩
  obtain ⟨block, stored, same⟩ := List.mem_map.mp member
  have := (ordered.stored block stored).2
  omega

/-- The invariant never holds a block back: below every stored block, from `startBlock` on, some
height has not arrived. -/
theorem Ordered.missing_below (heights : ∀ height, (node height).height = height)
    (ordered : Ordered node startBlock o) :
    ∀ block ∈ o.blockStore, ∃ height, startBlock ≤ height ∧ height < block.height ∧
      height ∉ o.arrived :=
  fun block stored => ⟨o.nextBlock, ordered.started, (ordered.stored block stored).2,
    ordered.nextBlock_not_mem_arrived heights⟩

/-- What `orderBlock` merges, its store and the node's blocks of a batch of distinct heights from
`startBlock` on that have not arrived: the node's blocks at their heights from `nextBlock` on, with
distinct heights. -/
theorem Ordered.mergeable (heights : ∀ height, (node height).height = height)
    (ordered : Ordered node startBlock o) {batch : List Int} (distinct : batch.Nodup)
    (fresh : ∀ height ∈ batch, startBlock ≤ height ∧ height ∉ o.arrived) :
    (∀ block ∈ o.blockStore ++ batch.map node,
      block = node block.height ∧ o.nextBlock ≤ block.height) ∧
      ((o.blockStore ++ batch.map node).map Block.height).Nodup := by
  refine ⟨fun block member => ?_, ?_⟩
  · rcases List.mem_append.mp member with stored | new
    · exact ⟨(ordered.stored block stored).1, (ordered.stored block stored).2.le⟩
    · obtain ⟨height, inBatch, rfl⟩ := List.mem_map.mp new
      obtain ⟨above, absent⟩ := fresh height inBatch
      -- a new height from `startBlock` on that was not sent is not below `nextBlock`
      have not_sent : height ∉ heightsFrom startBlock (o.nextBlock - 1) := by
        rw [← ordered.map_height_sent heights]
        intro sent
        apply absent
        rw [OrderBlock.arrived, List.map_append]
        exact List.mem_append_left _ sent
      rw [mem_heightsFrom] at not_sent
      exact ⟨by rw [heights], by rw [heights]; omega⟩
  · rw [List.map_append, map_height_map_node heights, List.nodup_append]
    refine ⟨List.pairwise_map.mpr (ordered.sorted.imp ne_of_lt), distinct, ?_⟩
    intro stored member height new same
    apply (fresh height new).2
    rw [← same, OrderBlock.arrived, List.map_append]
    exact List.mem_append_right _ member

/-- The step lemma of `orderBlock`: receiving the node's blocks of distinct heights from
`startBlock` on that have not arrived yet keeps `Ordered`. -/
theorem Ordered.receive (heights : ∀ height, (node height).height = height)
    (ordered : Ordered node startBlock o) {batch : List Int} (distinct : batch.Nodup)
    (fresh : ∀ height ∈ batch, startBlock ≤ height ∧ height ∉ o.arrived) :
    Ordered node startBlock (o.receive (batch.map node)) := by
  obtain ⟨mergeable, distinct_store⟩ := ordered.mergeable heights distinct fresh
  set store := OrderBlock.sortByHeight (o.blockStore ++ batch.map node)
  have perm : store.Perm (o.blockStore ++ batch.map node) := List.mergeSort_perm _ _
  have merged : ∀ block ∈ store, block = node block.height ∧ o.nextBlock ≤ block.height :=
    fun block member => mergeable block (perm.subset member)
  have sorted : store.Pairwise fun a b => a.height < b.height :=
    OrderBlock.pairwise_lt_sortByHeight distinct_store
  obtain ⟨sent_heights, advanced⟩ := map_height_sendConsecutive o.nextBlock store
  have split := sendConsecutive_append_drop o.nextBlock store
  have sent_from_store : ∀ block ∈ (sendConsecutive o.nextBlock store).1, block ∈ store :=
    fun block member => split ▸ List.mem_append_left _ member
  refine ⟨ordered.started.trans advanced, ?_, sorted.sublist (List.drop_sublist _ _), ?_⟩
  · -- the new blocks continue the sent ones at `nextBlock`
    show o.sent ++ (sendConsecutive o.nextBlock store).1 =
      (heightsFrom startBlock ((sendConsecutive o.nextBlock store).2 - 1)).map node
    rw [eq_map_node fun block member => (merged block (sent_from_store block member)).1,
      sent_heights, ordered.sent, ← List.map_append]
    congr 1
    simpa using heightsFrom_append (show startBlock ≤ o.nextBlock - 1 + 1 by
      have := ordered.started; omega) (show o.nextBlock - 1 ≤ _ - 1 by omega)
  · intro block kept
    exact ⟨(merged block (List.mem_of_mem_drop kept)).1,
      lt_of_mem_drop_sendConsecutive sorted (fun block member => (merged block member).2) block kept⟩

/-- At the end, when the heights that arrived are `startBlock, …, last`, the store is empty and the
blocks sent are the node's blocks of `startBlock, …, last` in order. -/
theorem Ordered.complete (heights : ∀ height, (node height).height = height)
    (ordered : Ordered node startBlock o) {last : Int}
    (all : o.arrived.Perm (heightsFrom startBlock last)) :
    o.blockStore = [] ∧ o.sent = (heightsFrom startBlock last).map node := by
  have empty : o.blockStore = [] := by
    rcases List.eq_nil_or_concat' o.blockStore with empty | ⟨rest, block, stored⟩
    · exact empty
    · -- a stored block has arrived above `nextBlock`, so `nextBlock` lies in the range too
      have member : block ∈ o.blockStore := by simp [stored]
      have arrived : block.height ∈ heightsFrom startBlock last :=
        all.subset (show block.height ∈ o.arrived from
          List.mem_map_of_mem (List.mem_append_right _ member))
      rw [mem_heightsFrom] at arrived
      have above := (ordered.stored block member).2
      have next : o.nextBlock ∈ o.arrived :=
        all.symm.subset (mem_heightsFrom.mpr ⟨ordered.started, by omega⟩)
      exact absurd next (ordered.nextBlock_not_mem_arrived heights)
  refine ⟨empty, ?_⟩
  have lengths := all.length_eq
  rw [OrderBlock.arrived, empty, List.append_nil, ordered.map_height_sent heights,
    length_heightsFrom, length_heightsFrom] at lengths
  rw [ordered.sent]
  simp only [heightsFrom, lengths]

end Ordered

/-! ## The run invariant -/

namespace InitialSync

variable {idxr : Idxr} {s s' : InitialSync}

/-- The two events, with what each needs and what it changes. -/
theorem next_cases {event : Event} (stepped : s.next idxr event = some s') :
    (∃ worker, s.workers[worker]? = some none ∧ s.loop.running = true ∧
      s' = { s with
        loop := s.loop.step idxr.syncTip idxr.startBlock idxr.batchSize idxr.chainTip
        workers := s.workers.set worker
          (some (s.loop.nextBatch idxr.syncTip idxr.startBlock idxr.batchSize idxr.chainTip)) }) ∨
    (∃ worker heights, s.workers[worker]? = some (some heights) ∧
      s' = { s with
        workers := s.workers.set worker none
        order := s.order.receive (heights.map idxr.node) }) := by
  cases event with
  | take worker =>
      simp only [next] at stepped
      split at stepped
      · rename_i idle
        split at stepped
        · rename_i running
          exact .inl ⟨worker, idle, running, (Option.some.inj stepped).symm⟩
        · cases stepped
      · cases stepped
  | deliver worker =>
      simp only [next] at stepped
      split at stepped
      · rename_i heights busy
        exact .inr ⟨worker, heights, busy, (Option.some.inj stepped).symm⟩
      · cases stepped

/-- The run invariant. -/
structure Synced (idxr : Idxr) (top : Int) (s : InitialSync) : Prop where
  batched : Batched idxr.syncTip idxr.startBlock idxr.batchSize idxr.chainTip s.loop
  bounded : s.loop.endBlock ≤ top
  workers : s.workers.length = idxr.rpcThreads
  /-- Every height handed out has arrived at `orderBlock` or is still with its worker. -/
  handed : (s.order.arrived ++ s.pending).Perm s.loop.batches.flatten
  ordered : Ordered idxr.node idxr.startBlock s.order

variable {top : Int}

theorem synced_start (sane : idxr.Sane top) : Synced idxr top (start idxr) where
  batched := Batched.start sane.start_le sane.rising sane.first
  bounded := sane.first.trans (sane.bounded 0)
  workers := List.length_replicate
  handed := by simp [start, pending, Slots.held, OrderBlock.arrived, OrderBlock.start,
    HeightsLoop.start]
  ordered := Ordered.start

/-- The heights handed out are distinct and from `startBlock` on. -/
theorem Synced.nodup_handed (synced : Synced idxr top s) :
    (s.order.arrived ++ s.pending).Nodup ∧
      ∀ height ∈ s.pending, idxr.startBlock ≤ height := by
  have distinct : s.loop.batches.flatten.Nodup := by
    rw [synced.batched.covered]
    exact nodup_heightsFrom _ _
  refine ⟨synced.handed.nodup_iff.mpr distinct, fun height member => ?_⟩
  have handed := synced.handed.subset (List.mem_append_right _ member)
  rw [synced.batched.covered, mem_heightsFrom] at handed
  exact handed.1

theorem Synced.take (sane : idxr.Sane top) (synced : Synced idxr top s) {worker : Nat}
    (idle : s.workers[worker]? = some none) (running : s.loop.running = true) :
    Synced idxr top { s with
      loop := s.loop.step idxr.syncTip idxr.startBlock idxr.batchSize idxr.chainTip
      workers := s.workers.set worker
        (some (s.loop.nextBatch idxr.syncTip idxr.startBlock idxr.batchSize idxr.chainTip)) } := by
  set batch := s.loop.nextBatch idxr.syncTip idxr.startBlock idxr.batchSize idxr.chainTip
  refine ⟨synced.batched.step sane.rising sane.positive sane.low
      (by have := synced.bounded; have := sane.fits; omega) running,
    synced.batched.refresh_le sane.bounded synced.bounded, by simp [synced.workers], ?_,
    synced.ordered⟩
  -- the new batch is with its worker, and it is the last batch sent
  have pending : (Slots.held (s.workers.set worker (some batch))).flatten.Perm (batch ++ s.pending) :=
    (Slots.held_set_some idle).flatten
  show (s.order.arrived ++ (Slots.held (s.workers.set worker (some batch))).flatten).Perm
    (s.loop.batches ++ [batch]).flatten
  rw [List.flatten_append, List.flatten_singleton]
  calc s.order.arrived ++ (Slots.held (s.workers.set worker (some batch))).flatten
      _ ~ s.order.arrived ++ (s.pending ++ batch) :=
        (pending.trans List.perm_append_comm).append_left _
      _ = (s.order.arrived ++ s.pending) ++ batch := (List.append_assoc _ _ _).symm
      _ ~ s.loop.batches.flatten ++ batch := synced.handed.append_right _

theorem Synced.deliver (sane : idxr.Sane top) (synced : Synced idxr top s) {worker : Nat}
    {heights : List Int} (busy : s.workers[worker]? = some (some heights)) :
    Synced idxr top { s with
      workers := s.workers.set worker none
      order := s.order.receive (heights.map idxr.node) } := by
  have pending : s.pending.Perm (heights ++ (Slots.held (s.workers.set worker none)).flatten) :=
    (Slots.held_set_none busy).flatten
  obtain ⟨distinct, started⟩ := synced.nodup_handed
  -- the delivered heights are distinct, from `startBlock` on, and have not arrived yet
  have distinct' : (s.order.arrived ++ heights ++
      (Slots.held (s.workers.set worker none)).flatten).Nodup := by
    rw [List.append_assoc]
    exact (pending.append_left _).nodup_iff.mp distinct
  have front := List.nodup_append.mp (List.nodup_append.mp distinct').1
  have fresh : ∀ height ∈ heights, idxr.startBlock ≤ height ∧ height ∉ s.order.arrived := by
    intro height member
    refine ⟨started height (pending.symm.subset (List.mem_append_left _ member)), fun arrived => ?_⟩
    exact front.2.2 height arrived height member rfl
  refine ⟨synced.batched, synced.bounded, by simp [synced.workers], ?_,
    synced.ordered.receive sane.heights front.2.1 fresh⟩
  show ((s.order.receive (heights.map idxr.node)).arrived ++
    (Slots.held (s.workers.set worker none)).flatten).Perm s.loop.batches.flatten
  calc (s.order.receive (heights.map idxr.node)).arrived ++
        (Slots.held (s.workers.set worker none)).flatten
      _ ~ (s.order.arrived ++ heights) ++ (Slots.held (s.workers.set worker none)).flatten := by
        have := OrderBlock.arrived_receive s.order (heights.map idxr.node)
        rw [map_height_map_node sane.heights] at this
        exact this.append_right _
      _ = s.order.arrived ++ (heights ++ (Slots.held (s.workers.set worker none)).flatten) :=
        List.append_assoc _ _ _
      _ ~ s.order.arrived ++ s.pending := pending.symm.append_left _
      _ ~ s.loop.batches.flatten := synced.handed

theorem Synced.step (sane : idxr.Sane top) (synced : Synced idxr top s)
    (stepped : Step idxr s s') : Synced idxr top s' := by
  obtain ⟨event, stepped⟩ := stepped
  rcases next_cases stepped with ⟨worker, idle, running, rfl⟩ | ⟨worker, heights, busy, rfl⟩
  · exact synced.take sane idle running
  · exact synced.deliver sane busy

/-- The run lemma. -/
theorem Reachable.synced (sane : idxr.Sane top) (reach : Reachable idxr s) : Synced idxr top s := by
  induction reach with
  | refl => exact synced_start sane
  | tail _ stepped synced => exact synced.step sane stepped

/-! ## The end of a run -/

/-- The producer's part of a run is the loop's iterations from its start. -/
theorem Reachable.iterates (reach : Reachable idxr s) :
    Relation.ReflTransGen
      (WhileLoop.Iterates HeightsLoop.running
        (HeightsLoop.step idxr.syncTip idxr.startBlock idxr.batchSize idxr.chainTip))
      (HeightsLoop.start idxr.startBlock idxr.endBlock) s.loop := by
  induction reach with
  | refl => exact .refl
  | tail _ stepped iterates =>
      obtain ⟨event, stepped⟩ := stepped
      rcases next_cases stepped with ⟨worker, -, running, rfl⟩ | ⟨worker, heights, -, rfl⟩
      · exact iterates.tail ⟨running, rfl⟩
      · exact iterates

/-- At the end, `orderBlock` has sent the node's blocks of `startBlock, …, E`, with `E` the loop's
last `endBlock`. -/
theorem Reachable.sent_of_finished (sane : idxr.Sane top) (reach : Reachable idxr s)
    (finished : s.Finished) :
    s.order.sent = (heightsFrom idxr.startBlock s.loop.endBlock).map idxr.node := by
  have synced := reach.synced sane
  have idle : s.pending = [] := by
    rw [pending, Slots.held_eq_nil.mpr finished.2, List.flatten_nil]
  have past : s.loop.endBlock < s.loop.i := by
    simpa [HeightsLoop.running] using finished.1
  have all := synced.handed
  rw [idle, List.append_nil, synced.batched.covered, min_eq_right (by omega)] at all
  exact (synced.ordered.complete sane.heights all).2

/-- What measures the work left: twice the iterations the loop may still run, and the batches the
workers hold. A take lowers the first by at least two and raises the second by one. -/
def workLeft (top : Int) (s : InitialSync) : Nat :=
  2 * (top + 1 - s.loop.i).toNat + (Slots.held s.workers).length

theorem Synced.workLeft_lt (sane : idxr.Sane top) (synced : Synced idxr top s)
    (stepped : Step idxr s s') : workLeft top s' < workLeft top s := by
  obtain ⟨event, stepped⟩ := stepped
  rcases next_cases stepped with ⟨worker, idle, running, rfl⟩ | ⟨worker, heights, busy, rfl⟩
  · have held := (@Slots.held_set_some _ _ _
      (s.loop.nextBatch idxr.syncTip idxr.startBlock idxr.batchSize idxr.chainTip) idle).length_eq
    have below : s.loop.i ≤ s.loop.endBlock := by simpa [HeightsLoop.running] using running
    have := synced.bounded
    have := sane.positive
    have := sane.fits
    have next_i := synced.batched.step_i_eq sane.positive sane.low (by omega) running
    simp only [workLeft, next_i, held, List.length_cons]
    omega
  · have held := (Slots.held_set_none busy).length_eq
    simp only [workLeft, held, List.length_cons]
    omega

/-- Progress: a run that has not finished can take a step. -/
theorem Synced.progress (sane : idxr.Sane top) (synced : Synced idxr top s)
    (unfinished : ¬ s.Finished) : ∃ s', Step idxr s s' := by
  have nonempty : 0 < s.workers.length := by
    rw [synced.workers]
    exact sane.threads
  have enabled : ∀ event, (s.next idxr event).isSome → ∃ s', Step idxr s s' := fun event some =>
    (Option.isSome_iff_exists.mp some).imp fun _ stepped => ⟨event, stepped⟩
  rcases Slots.busy_or_idle nonempty with ⟨worker, heights, busy⟩ | ⟨idle, first⟩
  · exact enabled (.deliver worker) (by simp [next, busy])
  · have running : s.loop.running = true := by
      by_contra stopped
      exact unfinished ⟨by simpa using stopped, idle⟩
    exact enabled (.take 0) (by simp [next, first, running])

/-- From every reachable state the run can go on to its end. -/
theorem Reachable.reaches_finished (sane : idxr.Sane top) (reach : Reachable idxr s) :
    ∃ s', Relation.ReflTransGen (Step idxr) s s' ∧ s'.Finished := by
  induction hleft : workLeft top s using Nat.strong_induction_on generalizing s with
  | _ left ih =>
      by_cases finished : s.Finished
      · exact ⟨s, .refl, finished⟩
      · have synced := reach.synced sane
        obtain ⟨middle, stepped⟩ := synced.progress sane finished
        obtain ⟨s', onward, done⟩ :=
          ih _ (hleft ▸ synced.workLeft_lt sane stepped) (reach.tail stepped) rfl
        exact ⟨s', .head stepped onward, done⟩

end InitialSync

/-- The initial sync, with a node whose answers to `GetChainInfo` never decrease, never fall
below the first `endBlock` and stay at most `top`, with `top + batchSize` below `2 ^ 63` so that no
sum of Go's `int` wraps: `processBlockHeights` finishes, every batch it sends is a non-empty run
of at most `batchSize` consecutive heights, and the batches are `startBlock, …, E` for its last
`endBlock` `E`. For every interleaving of the `getBlocks` workers, a run can always reach its end,
where its producer is that same loop and `orderBlock` has sent the node's blocks of
`startBlock, …, E` in order, each once; and at no point does `orderBlock` hold a block back
while every height below it from `startBlock` on has arrived. -/
theorem initial_sync_delivers_in_order (idxr : Idxr) {top : Int} (positive : 0 < idxr.batchSize)
    (threads : 0 < idxr.rpcThreads) (low : -2 ^ 63 ≤ idxr.startBlock)
    (fits : top + idxr.batchSize < 2 ^ 63) (start_le : idxr.startBlock ≤ idxr.endBlock)
    (rising : Monotone idxr.chainTip) (first : idxr.endBlock ≤ idxr.chainTip 0)
    (bounded : ∀ k, idxr.chainTip k ≤ top)
    (heights : ∀ height, (idxr.node height).height = height) :
    ∃ loop, processBlockHeights idxr.syncTip idxr.startBlock idxr.endBlock idxr.batchSize
        idxr.chainTip (top + 1 - idxr.startBlock).toNat = some loop ∧
      (∀ batch ∈ loop.batches, Consecutive idxr.batchSize batch) ∧
      loop.batches.flatten = heightsFrom idxr.startBlock loop.endBlock ∧
      ∀ s, InitialSync.Reachable idxr s →
        (∃ s', Relation.ReflTransGen (InitialSync.Step idxr) s s' ∧ s'.Finished) ∧
        (s.Finished → s.loop = loop ∧
          s.order.sent = (heightsFrom idxr.startBlock loop.endBlock).map idxr.node) ∧
        ∀ block ∈ s.order.blockStore, ∃ height, idxr.startBlock ≤ height ∧
          height < block.height ∧ height ∉ s.order.arrived := by
  have sane : idxr.Sane top :=
    ⟨positive, threads, low, fits, start_le, rising, first, bounded, heights⟩
  obtain ⟨loop, finished, consecutive, covered⟩ :=
    processBlockHeights_batches positive low fits start_le rising first bounded
  refine ⟨loop, finished, consecutive, covered, fun s reach => ⟨reach.reaches_finished sane,
    fun done => ?_, (reach.synced sane).ordered.missing_below heights⟩⟩
  -- the run's producer stopped where the loop stops, so it is the loop's result
  have same : s.loop = loop :=
    (WhileLoop.run_eq_of_iterates reach.iterates done.1 finished).symm
  exact ⟨same, same ▸ reach.sent_of_finished sane done⟩

/-- Two workers, batches of two from height `0`, a first `endBlock` of `3`, and a node whose tip is
`4` at every call. -/
def twoWorkers : Idxr :=
  ⟨2, 0, 3, true, 2, fun _ => 4, fun height => ⟨⟨"", height, "", ""⟩, []⟩⟩

theorem initial_sync_delivers_in_order_twoWorkers :
    (0 < twoWorkers.batchSize ∧ 0 < twoWorkers.rpcThreads ∧ -2 ^ 63 ≤ twoWorkers.startBlock ∧
      4 + twoWorkers.batchSize < 2 ^ 63 ∧ twoWorkers.startBlock ≤ twoWorkers.endBlock ∧ Monotone twoWorkers.chainTip ∧
      twoWorkers.endBlock ≤ twoWorkers.chainTip 0 ∧ (∀ k, twoWorkers.chainTip k ≤ 4) ∧
      ∀ height, (twoWorkers.node height).height = height) ∧
    ∃ loop, processBlockHeights twoWorkers.syncTip twoWorkers.startBlock twoWorkers.endBlock
        twoWorkers.batchSize twoWorkers.chainTip (4 + 1 - twoWorkers.startBlock).toNat = some loop ∧
      (∀ batch ∈ loop.batches, Consecutive twoWorkers.batchSize batch) ∧
      loop.batches.flatten = heightsFrom twoWorkers.startBlock loop.endBlock ∧
      ∀ s, InitialSync.Reachable twoWorkers s →
        (∃ s', Relation.ReflTransGen (InitialSync.Step twoWorkers) s s' ∧ s'.Finished) ∧
        (s.Finished → s.loop = loop ∧
          s.order.sent = (heightsFrom twoWorkers.startBlock loop.endBlock).map twoWorkers.node) ∧
        ∀ block ∈ s.order.blockStore, ∃ height, twoWorkers.startBlock ≤ height ∧
          height < block.height ∧ height ∉ s.order.arrived :=
  ⟨⟨by decide, by decide, by decide, by decide, by decide, monotone_const, by decide,
      fun _ => le_rfl, fun _ => rfl⟩,
    initial_sync_delivers_in_order twoWorkers (by decide) (by decide) (by decide) (by decide)
      (by decide) monotone_const (by decide) (fun _ => le_rfl) (fun _ => rfl)⟩

end Indexer
end Coinquery
