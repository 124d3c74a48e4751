import Mathlib

/-!
# The block queue of the Ethereum monitor

`BlockQueue` of `modules/common/src/block-queue.ts`: it keeps up to `maxBlockRequests` block
requests outstanding, collects the blocks as the requests resolve, in any order, and hands
consecutive runs of them to `getBlocks`, now or through a listener once enough have arrived.

JavaScript runs each call and each resolved request to completion, so a method is a function of
the queue's state and a run is a sequence of two events: the monitor calls `getBlocks` (after its
previous call has returned, as `scanBlocks2` awaits it) or an outstanding request resolves. A
request that throws is retried inside `tryRequest` without touching the queue, so it is no event.

`getConsecutiveBlocks` sorts the outstanding indices with JavaScript's default `sort()`, which
compares decimal strings, and tests the oldest one for truthiness, which index `0` fails.
`consecutive_release_fails` shows the queue releasing block `1` while block `0` is outstanding.
-/

namespace Coinquery.EthMonitor

structure BlockQueueConfig where
  maxSize : Nat
  maxBlockRequests : Nat
  minSize : Nat
deriving DecidableEq, Repr

/-- `Partial<BlockQueueConfig>`: an absent key is `none`. -/
structure PartialBlockQueueConfig where
  maxSize : Option Nat
  maxBlockRequests : Option Nat
  minSize : Option Nat
deriving DecidableEq, Repr

def blockQueueConfigDefaults : BlockQueueConfig :=
  ⟨10, 5, 1⟩

/-- `{ ...blockQueueConfigDefaults, ...config }`. -/
def PartialBlockQueueConfig.merge (config : PartialBlockQueueConfig) : BlockQueueConfig :=
  ⟨config.maxSize.getD blockQueueConfigDefaults.maxSize,
    config.maxBlockRequests.getD blockQueueConfigDefaults.maxBlockRequests,
    config.minSize.getD blockQueueConfigDefaults.minSize⟩

structure BlockWrapper (Block : Type) where
  index : Nat
  block : Block
deriving DecidableEq, Repr

/-- The fields of a `BlockQueue`; a request is its block index, its promise being the event that
resolves it, and a listener is a pending `getBlocks` call. -/
structure BlockQueue (Block : Type) where
  blocks : List (BlockWrapper Block)
  blockIndex : Nat
  highestBlockIndex : Nat
  config : BlockQueueConfig
  maxReadySize : Nat
  requests : List Nat
  listeners : Nat
deriving DecidableEq, Repr

/-- JavaScript's default `sort()` order on numbers: by their decimal strings. -/
def jsDefaultLE (a b : Nat) : Prop :=
  Nat.toDigits 10 a ≤ Nat.toDigits 10 b

instance : DecidableRel jsDefaultLE := fun a b =>
  inferInstanceAs (Decidable (Nat.toDigits 10 a ≤ Nat.toDigits 10 b))

/-- The loop of `getConsecutiveBlocks`: the run of `results` whose indices count up from `i`. -/
def takeConsecutive {Block : Type} : Nat → List (BlockWrapper Block) → List (BlockWrapper Block)
  | _, [] => []
  | i, r :: results => if r.index = i then r :: takeConsecutive (i + 1) results else []

namespace BlockQueue

variable {Block : Type}

def new (blockIndex highestBlockIndex : Nat) (config : PartialBlockQueueConfig) : BlockQueue Block :=
  ⟨[], blockIndex, highestBlockIndex, config.merge, 100, [], 0⟩

def removeRequest (queue : BlockQueue Block) (blockIndex : Nat) : BlockQueue Block :=
  { queue with requests := queue.requests.filter fun r => r ≠ blockIndex }

def removeBlocks (queue : BlockQueue Block) (blocks : List (BlockWrapper Block)) : BlockQueue Block :=
  { queue with blocks := queue.blocks.filter fun b => blocks.all fun b2 => b2.index ≠ b.index }

def getNextRequestCount (queue : BlockQueue Block) : Nat :=
  let remaining : Int := queue.highestBlockIndex - queue.blockIndex
  let count := min remaining (min ((queue.config.maxBlockRequests : Int) - queue.requests.length)
    ((queue.maxReadySize : Int) - queue.requests.length - queue.blocks.length))
  if count < 0 then 0 else count.toNat

def addRequest (queue : BlockQueue Block) (index : Nat) : BlockQueue Block :=
  { queue with requests := queue.requests ++ [index] }

/-- The loop of `fillWithNewRequests`: `this.addRequest(this.blockIndex++)`, `count` times. -/
def addRequests : Nat → BlockQueue Block → BlockQueue Block
  | 0, queue => queue
  | count + 1, queue =>
    addRequests count { queue.addRequest queue.blockIndex with blockIndex := queue.blockIndex + 1 }

def fillWithNewRequests (queue : BlockQueue Block) : BlockQueue Block :=
  addRequests queue.getNextRequestCount queue

def getConsecutiveBlocks (queue : BlockQueue Block) : List (BlockWrapper Block) :=
  -- the comparator `a.index > b.index ? 1 : -1` sorts by index: no two blocks share an index
  match queue.blocks.insertionSort fun a b => a.index ≤ b.index with
  | [] => []
  | results@(oldest :: _) =>
    let oldestRequest := (queue.requests.insertionSort jsDefaultLE).head?
    let oldestResult := oldest.index
    -- `oldestRequest && oldestResult > oldestRequest`: `undefined` and `0` are both falsy
    let waitForRequest := match oldestRequest with
      | some request => request != 0 && decide (oldestResult > request)
      | none => false
    if waitForRequest then [] else takeConsecutive oldestResult results

def limitReadyBlocks (queue : BlockQueue Block) (blocks : List (BlockWrapper Block)) :
    List (BlockWrapper Block) :=
  blocks.take queue.config.maxSize

def releaseBlocks (queue : BlockQueue Block) (blocks : List (BlockWrapper Block)) :
    BlockQueue Block × List Block :=
  ((queue.removeBlocks blocks).fillWithNewRequests, blocks.map BlockWrapper.block)

/-- `getBlocks`: the blocks released now, or `none` when the call waits as a listener. -/
def getBlocks (queue : BlockQueue Block) : BlockQueue Block × Option (List Block) :=
  let readyBlocks := queue.limitReadyBlocks queue.getConsecutiveBlocks
  if queue.getNextRequestCount = 0 ∧ queue.requests.length = 0 then
    let (queue, blocks) := queue.releaseBlocks readyBlocks
    (queue, some blocks)
  else
    let queue := queue.fillWithNewRequests
    if readyBlocks.length ≥ queue.config.minSize then
      let (queue, blocks) := queue.releaseBlocks readyBlocks
      (queue, some blocks)
    else ({ queue with listeners := queue.listeners + 1 }, none)

/-- `onResponse`: the queue after a request resolves, and what each listener receives. -/
def onResponse (queue : BlockQueue Block) (blockIndex : Nat) (block : Option Block) :
    BlockQueue Block × List (Except String (List Block)) :=
  let queue := queue.removeRequest blockIndex
  match block with
  | none =>
    ({ queue with listeners := 0 }.fillWithNewRequests,
      List.replicate queue.listeners (.error "Error loading block"))
  | some block =>
    let queue := { queue with blocks := queue.blocks ++ [BlockWrapper.mk blockIndex block] }
    let readyBlocks := queue.limitReadyBlocks queue.getConsecutiveBlocks
    if queue.listeners > 0 ∧ (readyBlocks.length ≥ queue.config.minSize ∨ queue.requests.length = 0) then
      (({ queue with listeners := 0 }.removeBlocks readyBlocks).fillWithNewRequests,
        List.replicate queue.listeners (.ok (readyBlocks.map BlockWrapper.block)))
    else (queue.fillWithNewRequests, [])

end BlockQueue

/-! ## Runs -/

/-- The queue with its caller: whether a `getBlocks` call is pending, and the arrays the calls
have returned so far. -/
structure Monitor (Block : Type) where
  queue : BlockQueue Block
  waiting : Bool
  received : List (List Block)
deriving DecidableEq, Repr

namespace Monitor

variable {Block : Type}

def start (blockIndex highestBlockIndex : Nat) (config : PartialBlockQueueConfig) : Monitor Block :=
  ⟨BlockQueue.new blockIndex highestBlockIndex config, false, []⟩

/-- The monitor calls `getBlocks`. -/
def callGetBlocks (monitor : Monitor Block) : Monitor Block :=
  match monitor.queue.getBlocks with
  | (queue, some blocks) => ⟨queue, false, monitor.received ++ [blocks]⟩
  | (queue, none) => ⟨queue, true, monitor.received⟩

/-- The request for `index` resolves with the block `blockSource` gives for it. -/
def resolve (blockSource : Nat → Block) (monitor : Monitor Block) (index : Nat) : Monitor Block :=
  let response := monitor.queue.onResponse index (some (blockSource index))
  let delivered := response.2.filterMap Except.toOption
  ⟨response.1, monitor.waiting && delivered.isEmpty, monitor.received ++ delivered⟩

inductive Step (blockSource : Nat → Block) : Monitor Block → Monitor Block → Prop
  | call {monitor : Monitor Block} (idle : monitor.waiting = false) :
      Step blockSource monitor monitor.callGetBlocks
  | resolve {monitor : Monitor Block} {index : Nat} (outstanding : index ∈ monitor.queue.requests) :
      Step blockSource monitor (monitor.resolve blockSource index)

def Reachable (blockSource : Nat → Block) (blockIndex highestBlockIndex : Nat)
    (config : PartialBlockQueueConfig) : Monitor Block → Prop :=
  Relation.ReflTransGen (Step blockSource) (start blockIndex highestBlockIndex config)

end Monitor

/-! ## Every array fits `maxSize` -/

namespace BlockQueue

variable {Block : Type} {queue : BlockQueue Block}

@[simp]
theorem addRequests_config (count : Nat) (queue : BlockQueue Block) :
    (addRequests count queue).config = queue.config := by
  induction count generalizing queue with
  | zero => rfl
  | succ count induction => exact induction _

@[simp]
theorem fillWithNewRequests_config : queue.fillWithNewRequests.config = queue.config :=
  addRequests_config _ _

/-- What `getBlocks` can do: release the ready blocks at once (with or without filling the
requests first), or register a listener. -/
theorem getBlocks_cases (queue : BlockQueue Block) :
    (∃ filled, (filled = queue ∨ filled = queue.fillWithNewRequests) ∧
      queue.getBlocks = ((filled.removeBlocks (queue.limitReadyBlocks queue.getConsecutiveBlocks)).fillWithNewRequests,
        some ((queue.limitReadyBlocks queue.getConsecutiveBlocks).map BlockWrapper.block))) ∨
    queue.getBlocks = ({ queue.fillWithNewRequests with listeners := queue.fillWithNewRequests.listeners + 1 }, none) := by
  unfold getBlocks
  dsimp only
  split_ifs
  · exact .inl ⟨queue, .inl rfl, rfl⟩
  · exact .inl ⟨queue.fillWithNewRequests, .inr rfl, rfl⟩
  · exact .inr rfl

/-- What `onResponse` does with a block: either every listener receives the ready blocks, or no
one receives anything. -/
theorem onResponse_some_cases (queue : BlockQueue Block) (blockIndex : Nat) (block : Block) :
    ∃ arrived : BlockQueue Block, arrived.config = queue.config ∧
      ((queue.onResponse blockIndex (some block)).2 = [] ∨
        (queue.onResponse blockIndex (some block)).2 =
          List.replicate arrived.listeners (.ok ((arrived.limitReadyBlocks arrived.getConsecutiveBlocks).map BlockWrapper.block))) := by
  refine ⟨{ queue.removeRequest blockIndex with
    blocks := (queue.removeRequest blockIndex).blocks ++ [BlockWrapper.mk blockIndex block] }, rfl, ?_⟩
  unfold onResponse
  dsimp only
  split_ifs
  · exact .inr rfl
  · exact .inl rfl

theorem getBlocks_config : queue.getBlocks.1.config = queue.config := by
  rcases getBlocks_cases queue with ⟨filled, filled_eq | filled_eq, released⟩ | waits
  all_goals first
    | (rw [released, filled_eq]; simp [removeBlocks])
    | (rw [waits]; simp)

theorem onResponse_config {blockIndex : Nat} {block : Option Block} :
    (queue.onResponse blockIndex block).1.config = queue.config := by
  unfold onResponse
  cases block with
  | none => simp [removeRequest]
  | some block =>
      dsimp only
      split_ifs <;> simp [removeRequest, removeBlocks]

theorem length_limitReadyBlocks_le (blocks : List (BlockWrapper Block)) :
    (queue.limitReadyBlocks blocks).length ≤ queue.config.maxSize := by
  simp [limitReadyBlocks]

theorem length_le_of_getBlocks {blocks : List Block} (released : queue.getBlocks.2 = some blocks) :
    blocks.length ≤ queue.config.maxSize := by
  rcases getBlocks_cases queue with ⟨filled, -, releases⟩ | waits
  · rw [releases, Option.some.injEq] at released
    rw [← released, List.length_map]
    exact length_limitReadyBlocks_le _
  · rw [waits] at released
    cases released

theorem length_le_of_onResponse {blockIndex : Nat} {block : Option Block} {blocks : List Block}
    (answered : .ok blocks ∈ (queue.onResponse blockIndex block).2) :
    blocks.length ≤ queue.config.maxSize := by
  cases block with
  | none => simp [onResponse] at answered
  | some block =>
      obtain ⟨arrived, same, silent | resolves⟩ := onResponse_some_cases queue blockIndex block
      · rw [silent] at answered
        cases answered
      · rw [resolves] at answered
        obtain ⟨-, answer⟩ := List.mem_replicate.mp answered
        cases answer
        rw [List.length_map, ← same]
        exact length_limitReadyBlocks_le _

end BlockQueue

namespace Monitor

variable {Block : Type} {blockSource : Nat → Block}

/-- The invariant of a run: the configuration is fixed and no array returned is longer than its
`maxSize`. -/
def Bounded (config : BlockQueueConfig) (monitor : Monitor Block) : Prop :=
  monitor.queue.config = config ∧ ∀ blocks ∈ monitor.received, blocks.length ≤ config.maxSize

theorem Step.bounded {config : BlockQueueConfig} {monitor next : Monitor Block}
    (step : Step blockSource monitor next) (bounded : monitor.Bounded config) : next.Bounded config := by
  obtain ⟨config_eq, received_le⟩ := bounded
  cases step with
  | call idle =>
      have same : monitor.queue.getBlocks.1.config = config := BlockQueue.getBlocks_config.trans config_eq
      have fits : ∀ blocks, monitor.queue.getBlocks.2 = some blocks → blocks.length ≤ config.maxSize := by
        intro blocks released
        rw [← config_eq]
        exact BlockQueue.length_le_of_getBlocks released
      unfold callGetBlocks
      generalize monitor.queue.getBlocks = returned at same fits ⊢
      obtain ⟨queue, _ | blocks⟩ := returned
      · exact ⟨same, received_le⟩
      · refine ⟨same, fun released member => ?_⟩
        rcases List.mem_append.mp member with earlier | now
        · exact received_le released earlier
        · rw [List.mem_singleton.mp now]
          exact fits blocks rfl
  | resolve outstanding =>
      refine ⟨BlockQueue.onResponse_config.trans config_eq, fun released member => ?_⟩
      rcases List.mem_append.mp member with earlier | now
      · exact received_le released earlier
      · obtain ⟨answer, answered, delivered⟩ := List.mem_filterMap.mp now
        cases answer with
        | error message => cases delivered
        | ok blocks =>
            cases delivered
            rw [← config_eq]
            exact BlockQueue.length_le_of_onResponse answered

end Monitor

/-! ## Releasing out of order -/

/-- From block `0` with two requests outstanding, block `1` resolves first: `0` is falsy, so the
oldest request does not hold block `1` back, and the waiting `getBlocks` call receives `[1]`. -/
theorem consecutive_release_fails :
    ¬ ∀ (Block : Type) (blockSource : Nat → Block) (blockIndex highestBlockIndex : Nat)
        (config : PartialBlockQueueConfig), blockIndex ≤ highestBlockIndex →
        1 ≤ config.merge.minSize → config.merge.minSize ≤ config.merge.maxSize →
        1 ≤ config.merge.maxBlockRequests → ∀ monitor : Monitor Block,
        Monitor.Reachable blockSource blockIndex highestBlockIndex config monitor →
        monitor.received.flatten <+: (List.range' blockIndex (highestBlockIndex - blockIndex)).map blockSource ∧
          ∀ blocks ∈ monitor.received, blocks.length ≤ config.merge.maxSize := by
  intro consecutive
  let config : PartialBlockQueueConfig := ⟨none, none, none⟩
  let called := (Monitor.start 0 2 config : Monitor Nat).callGetBlocks
  have outstanding : 1 ∈ called.queue.requests := by decide
  have reach : Monitor.Reachable id 0 2 config (called.resolve id 1) :=
    (Relation.ReflTransGen.single (Monitor.Step.call rfl)).tail (Monitor.Step.resolve outstanding)
  have released : (called.resolve id 1).received = [[1]] := by decide
  have prefix_of := (consecutive Nat id 0 2 config (by decide) (by decide) (by decide) (by decide) _ reach).1
  rw [released] at prefix_of
  exact absurd prefix_of (by decide)

end Coinquery.EthMonitor
