import Mathlib
import Coinquery.Indexer.SyncToTip
import Coinquery.Library.WhileLoop
import Coinquery.Api.Pagination

/-!
# `Indexer.processBlockHeights`

The producer of the initial sync. From `startBlock` it sends the heights up to `endBlock` on
`blockHeightsChan`, `batchSize` at a time. When the loop index comes within one batch of `endBlock`
it first calls `setEndBlock`, which with `syncTip` moves `endBlock` to the node's tip
`GetChainInfo().Blocks`. The node's answers are a sequence `chainTip`: the `k`-th call inside the loop
gets `chainTip k`. `initialSync` has called `setEndBlock` once before the loop starts; its result is
the loop's first `endBlock`. The heights are Go `int`s, and the sums `i + x` and `i += batchSize`
and the difference `endBlock - batchSize` wrap at 64 bits.

When the answers never decrease, never fall below the first `endBlock` and stay at most a bound
`top` with `top + batchSize < 2 ^ 63`, so that no sum wraps, every batch is a non-empty run of at most `batchSize` consecutive heights, and the batches together are
`startBlock, …, E` with `E` the last `endBlock` (`processBlockHeights_batches`). An answer below the
first `endBlock` stops the loop early, after it has sent an empty batch: `empty_batch_below_endBlock`.
Past the bound `i += batchSize` wraps to a negative height below `endBlock`, and the loop goes on.
-/

namespace Coinquery
namespace Indexer

/-- `setEndBlock`: with `syncTip`, the node's tip `info.Blocks`; otherwise the flag's `endBlock`,
raised to `startBlock` when it is lower. -/
def setEndBlock (syncTip : Bool) (blocks startBlock endBlock : Int) : Int :=
  if syncTip then blocks else if endBlock < startBlock then startBlock else endBlock

/-- The inner loop `for x := 0; x < idxr.batchSize; x++ { block = i + x; if block > idxr.endBlock
{ break }; heights = append(heights, block) }`, from the exact sum `i + x` with `count` iterations
left. -/
def batchHeights (endBlock : Int) : Int → Nat → List Int
  | _, 0 => []
  | sum, count + 1 =>
      let block := Api.goInt sum
      if block > endBlock then [] else block :: batchHeights endBlock (sum + 1) count

/-- The variables of `processBlockHeights`' loop, and what it has sent. -/
structure HeightsLoop where
  /-- The loop index `i`. -/
  i : Int
  /-- `idxr.endBlock`. -/
  endBlock : Int
  /-- How many times the loop has called `GetChainInfo`. -/
  calls : Nat
  /-- The batches sent on `blockHeightsChan`, in order. -/
  batches : List (List Int)
  deriving DecidableEq, Repr

namespace HeightsLoop

def start (startBlock endBlock : Int) : HeightsLoop :=
  ⟨startBlock, endBlock, 0, []⟩

/-- The loop condition `i <= idxr.endBlock`. -/
def running (loop : HeightsLoop) : Bool :=
  decide (loop.i ≤ loop.endBlock)

/-- `i >= idxr.endBlock-idxr.batchSize && i <= idxr.endBlock`: the iteration calls `setEndBlock`
before it builds its batch. -/
def finalBatch (batchSize : Int) (loop : HeightsLoop) : Bool :=
  decide (loop.i ≥ Api.goInt (loop.endBlock - batchSize)) && decide (loop.i ≤ loop.endBlock)

/-- The check at the top of an iteration. Only a call with `syncTip` asks the node. -/
def refresh (syncTip : Bool) (startBlock batchSize : Int) (chainTip : Nat → Int)
    (loop : HeightsLoop) : HeightsLoop :=
  if loop.finalBatch batchSize then
    { loop with
      endBlock := setEndBlock syncTip (chainTip loop.calls) startBlock loop.endBlock
      calls := if syncTip then loop.calls + 1 else loop.calls }
  else loop

/-- The batch the iteration at `loop` sends. -/
def nextBatch (syncTip : Bool) (startBlock batchSize : Int) (chainTip : Nat → Int)
    (loop : HeightsLoop) : List Int :=
  batchHeights (loop.refresh syncTip startBlock batchSize chainTip).endBlock loop.i batchSize.toNat

/-- One iteration: the check, the send of the batch, and `i += idxr.batchSize`. -/
def step (syncTip : Bool) (startBlock batchSize : Int) (chainTip : Nat → Int)
    (loop : HeightsLoop) : HeightsLoop :=
  { loop.refresh syncTip startBlock batchSize chainTip with
    i := Api.goInt (loop.i + batchSize)
    batches := loop.batches ++ [loop.nextBatch syncTip startBlock batchSize chainTip] }

end HeightsLoop

/-- `processBlockHeights`, with room for `fuel` iterations. The `select` on `doneChan` is left out:
nothing closes `doneChan` during the initial sync. -/
def processBlockHeights (syncTip : Bool) (startBlock endBlock batchSize : Int)
    (chainTip : Nat → Int) (fuel : Nat) : Option HeightsLoop :=
  WhileLoop.run HeightsLoop.running (HeightsLoop.step syncTip startBlock batchSize chainTip) fuel
    (HeightsLoop.start startBlock endBlock)

/-! ## The batches -/

/-- Where `i + x` does not wrap, the inner loop sends the heights from `i` up to the batch's end or
to `endBlock`. -/
theorem batchHeights_eq (endBlock : Int) {block : Int} {count : Nat} (lower : -2 ^ 63 ≤ block)
    (upper : block + count ≤ 2 ^ 63) :
    batchHeights endBlock block count = heightsFrom block (min (block + count - 1) endBlock) := by
  induction count generalizing block with
  | zero =>
      simp only [batchHeights]
      exact (heightsFrom_of_lt (by omega)).symm
  | succ count ih =>
      have exact_sum : Api.goInt block = block := Api.goInt_of_bounds lower (by omega)
      simp only [batchHeights, exact_sum]
      split
      · exact (heightsFrom_of_lt (by omega)).symm
      · have first : block ≤ min (block + (count + 1 : Nat) - 1) endBlock := by omega
        rw [ih (by omega) (by omega), heightsFrom_cons first]
        congr 2
        omega

/-- A non-empty run of at most `batchSize` consecutive heights. -/
def Consecutive (batchSize : Int) (batch : List Int) : Prop :=
  ∃ low high, low ≤ high ∧ high < low + batchSize ∧ batch = heightsFrom low high

theorem Consecutive.ne_nil {batchSize : Int} {batch : List Int} (consecutive : Consecutive batchSize batch) :
    batch ≠ [] := by
  obtain ⟨low, high, le, -, rfl⟩ := consecutive
  rw [heightsFrom_cons le]
  exact List.cons_ne_nil _ _

namespace HeightsLoop

variable {syncTip : Bool} {startBlock batchSize : Int} {chainTip : Nat → Int} {loop : HeightsLoop}

@[simp] theorem refresh_i : (loop.refresh syncTip startBlock batchSize chainTip).i = loop.i := by
  unfold refresh
  split <;> rfl

@[simp] theorem refresh_batches :
    (loop.refresh syncTip startBlock batchSize chainTip).batches = loop.batches := by
  unfold refresh
  split <;> rfl

@[simp] theorem step_i :
    (loop.step syncTip startBlock batchSize chainTip).i = Api.goInt (loop.i + batchSize) :=
  rfl

@[simp] theorem step_endBlock :
    (loop.step syncTip startBlock batchSize chainTip).endBlock =
      (loop.refresh syncTip startBlock batchSize chainTip).endBlock :=
  rfl

@[simp] theorem step_calls :
    (loop.step syncTip startBlock batchSize chainTip).calls =
      (loop.refresh syncTip startBlock batchSize chainTip).calls :=
  rfl

@[simp] theorem step_batches :
    (loop.step syncTip startBlock batchSize chainTip).batches =
      loop.batches ++ [loop.nextBatch syncTip startBlock batchSize chainTip] :=
  rfl

end HeightsLoop

/-! ## The loop invariant -/

/-- The node's answers from the call `calls` on are at least `endBlock`. -/
def Ahead (syncTip : Bool) (chainTip : Nat → Int) (endBlock : Int) (calls : Nat) : Prop :=
  syncTip = true → ∀ k, calls ≤ k → endBlock ≤ chainTip k

/-- What holds at the top of every iteration. -/
structure Batched (syncTip : Bool) (startBlock batchSize : Int) (chainTip : Nat → Int)
    (loop : HeightsLoop) : Prop where
  floor : startBlock ≤ loop.endBlock
  started : startBlock ≤ loop.i
  ahead : Ahead syncTip chainTip loop.endBlock loop.calls
  consecutive : ∀ batch ∈ loop.batches, Consecutive batchSize batch
  /-- The batches so far are the heights from `startBlock` below `i`, cut at `endBlock` once a
  batch has stopped there. -/
  covered : loop.batches.flatten = heightsFrom startBlock (min (loop.i - 1) loop.endBlock)

section Invariant

variable {syncTip : Bool} {startBlock endBlock batchSize : Int} {chainTip : Nat → Int}

theorem Batched.start (start_le : startBlock ≤ endBlock) (rising : Monotone chainTip)
    (first : endBlock ≤ chainTip 0) :
    Batched syncTip startBlock batchSize chainTip (HeightsLoop.start startBlock endBlock) where
  floor := start_le
  started := le_refl _
  ahead _ k _ := first.trans (rising (Nat.zero_le k))
  consecutive := by simp [HeightsLoop.start]
  covered := by
    simp only [HeightsLoop.start, List.flatten_nil]
    exact (heightsFrom_of_lt (by omega)).symm

/-- `setEndBlock` never lowers `endBlock`, and what the node answers next is still ahead of it. -/
theorem Batched.refresh (rising : Monotone chainTip)
    {loop : HeightsLoop} (inv : Batched syncTip startBlock batchSize chainTip loop) :
    let refreshed := loop.refresh syncTip startBlock batchSize chainTip
    loop.endBlock ≤ refreshed.endBlock ∧ Ahead syncTip chainTip refreshed.endBlock refreshed.calls := by
  intro refreshed
  unfold refreshed HeightsLoop.refresh
  split
  · cases syncTip with
    | true =>
        -- the answer of this call is ahead of `endBlock`, and the later ones are ahead of it
        refine ⟨inv.ahead rfl loop.calls le_rfl, fun _ k later => ?_⟩
        exact rising (show loop.calls ≤ k by simp at later; omega)
    | false =>
        have unchanged : setEndBlock false (chainTip loop.calls) startBlock loop.endBlock =
            loop.endBlock := by
          simp [setEndBlock, not_lt.mpr inv.floor]
        exact ⟨unchanged.ge, fun never => by cases never⟩
  · exact ⟨le_rfl, inv.ahead⟩

/-- From `startBlock` to `endBlock + batchSize` the sum `i += batchSize` does not wrap. -/
theorem Batched.step_i_eq (positive : 0 < batchSize) (low : -2 ^ 63 ≤ startBlock) {loop : HeightsLoop}
    (inv : Batched syncTip startBlock batchSize chainTip loop)
    (fits : loop.endBlock + batchSize < 2 ^ 63) (running : loop.running = true) :
    (loop.step syncTip startBlock batchSize chainTip).i = loop.i + batchSize := by
  have below : loop.i ≤ loop.endBlock := by simpa [HeightsLoop.running] using running
  have started := inv.started
  rw [HeightsLoop.step_i]
  exact Api.goInt_of_bounds (by omega) (by omega)

/-- The step lemma: an iteration with `endBlock + batchSize` below `2 ^ 63` keeps `Batched`. -/
theorem Batched.step (rising : Monotone chainTip) (positive : 0 < batchSize)
    (low : -2 ^ 63 ≤ startBlock) {loop : HeightsLoop}
    (inv : Batched syncTip startBlock batchSize chainTip loop)
    (fits : loop.endBlock + batchSize < 2 ^ 63) (running : loop.running = true) :
    Batched syncTip startBlock batchSize chainTip (loop.step syncTip startBlock batchSize chainTip) := by
  obtain ⟨raised, ahead⟩ := inv.refresh rising
  set refreshed := loop.refresh syncTip startBlock batchSize chainTip
  have below : loop.i ≤ loop.endBlock := by simpa [HeightsLoop.running] using running
  have started := inv.started
  have next_i := inv.step_i_eq positive low fits running
  -- neither does `i + x` for the heights of the batch
  have batch : loop.nextBatch syncTip startBlock batchSize chainTip =
      heightsFrom loop.i (min (loop.i + batchSize - 1) refreshed.endBlock) := by
    rw [HeightsLoop.nextBatch, batchHeights_eq _ (show -2 ^ 63 ≤ loop.i by omega)
      (show loop.i + (batchSize.toNat : Int) ≤ 2 ^ 63 by omega)]
    congr 2
    omega
  refine ⟨inv.floor.trans raised, by rw [next_i]; omega, by simpa using ahead, ?_, ?_⟩
  · intro sent member
    simp only [HeightsLoop.step_batches, List.mem_append, List.mem_singleton] at member
    rcases member with earlier | rfl
    · exact inv.consecutive sent earlier
    · exact ⟨_, _, by omega, by omega, batch⟩
  · -- the new batch continues the heights sent so far, which stop at `i - 1`
    have joined : heightsFrom startBlock (loop.i - 1) ++
        heightsFrom loop.i (min (loop.i + batchSize - 1) refreshed.endBlock) =
        heightsFrom startBlock (min (loop.i + batchSize - 1) refreshed.endBlock) := by
      simpa using heightsFrom_append (show startBlock ≤ loop.i - 1 + 1 by omega)
        (show loop.i - 1 ≤ min (loop.i + batchSize - 1) refreshed.endBlock by omega)
    rw [HeightsLoop.step_batches, List.flatten_append, inv.covered, List.flatten_singleton, batch,
      show min (loop.i - 1) loop.endBlock = loop.i - 1 by omega, joined, next_i,
      HeightsLoop.step_endBlock]

/-- With the node's answers at most `top`, `endBlock` stays at most `top`. -/
theorem Batched.refresh_le {top : Int} (bounded : ∀ k, chainTip k ≤ top) {loop : HeightsLoop}
    (inv : Batched syncTip startBlock batchSize chainTip loop) (below : loop.endBlock ≤ top) :
    (loop.refresh syncTip startBlock batchSize chainTip).endBlock ≤ top := by
  unfold HeightsLoop.refresh
  split
  · simp only [setEndBlock]
    split
    · exact bounded _
    · simp [not_lt.mpr inv.floor, below]
  · exact below

/-- `processBlockHeights` finishes within `top + 1 - startBlock` iterations, each of which moves
`i` up past a height at most `top` without a wrap, and its batches cover `startBlock, …, E` for the
last `endBlock` `E`. -/
theorem processBlockHeights_batches {top : Int} (positive : 0 < batchSize)
    (low : -2 ^ 63 ≤ startBlock) (fits : top + batchSize < 2 ^ 63)
    (start_le : startBlock ≤ endBlock) (rising : Monotone chainTip) (first : endBlock ≤ chainTip 0)
    (bounded : ∀ k, chainTip k ≤ top) :
    ∃ loop, processBlockHeights syncTip startBlock endBlock batchSize chainTip
        (top + 1 - startBlock).toNat = some loop ∧
      (∀ batch ∈ loop.batches, Consecutive batchSize batch) ∧
      loop.batches.flatten = heightsFrom startBlock loop.endBlock := by
  let inv := fun loop : HeightsLoop =>
    Batched syncTip startBlock batchSize chainTip loop ∧ loop.endBlock ≤ top
  have preserve : ∀ loop, inv loop → loop.running = true →
      inv (loop.step syncTip startBlock batchSize chainTip) := fun loop held running =>
    ⟨held.1.step rising positive low (by have := held.2; omega) running,
      held.1.refresh_le bounded held.2⟩
  have initial : inv (HeightsLoop.start startBlock endBlock) :=
    ⟨Batched.start start_le rising first, first.trans (bounded 0)⟩
  -- each iteration runs with `i ≤ endBlock ≤ top` and adds `batchSize ≥ 1` to `i`
  have finishes := WhileLoop.run_isSome_of_measure inv (fun loop => (top + 1 - loop.i).toNat)
    preserve (fun loop held running => by
      have : loop.i ≤ loop.endBlock := by simpa [HeightsLoop.running] using running
      rw [held.1.step_i_eq positive low (by have := held.2; omega) running]
      omega) initial (le_refl _)
  obtain ⟨loop, finished⟩ := Option.isSome_iff_exists.mp finishes
  obtain ⟨⟨batched, -⟩, stopped⟩ := WhileLoop.run_invariant inv preserve initial finished
  have past : loop.endBlock < loop.i := by simpa [HeightsLoop.running] using stopped
  refine ⟨loop, finished, batched.consecutive, ?_⟩
  rw [batched.covered, min_eq_right (by omega)]

/-- A first answer below the `endBlock` the loop starts with: with `syncTip`, `startBlock = 0`,
`endBlock = 5`, `batchSize = 1` and the node answering `2` at every call, the iteration at `i = 4`
moves `endBlock` down to `2` and sends an empty batch; the batches cover `0, …, 3`, not
`0, …, 2`. -/
theorem empty_batch_below_endBlock :
    Monotone (fun _ : Nat => (2 : Int)) ∧
      ∃ loop, processBlockHeights true 0 5 1 (fun _ => 2) 5 = some loop ∧
        loop.batches = [[0], [1], [2], [3], []] ∧
        ¬ (∀ batch ∈ loop.batches, Consecutive 1 batch) ∧
        loop.batches.flatten ≠ heightsFrom 0 loop.endBlock :=
  ⟨monotone_const, ⟨5, 2, 1, [[0], [1], [2], [3], []]⟩, by decide, rfl,
    fun consecutive => (consecutive [] (by decide)).ne_nil rfl, by decide⟩

end Invariant

end Indexer
end Coinquery
