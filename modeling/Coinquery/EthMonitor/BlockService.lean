import Mathlib

/-!
# Block-range services of the Ethereum monitor

`blockService` of `modules/common/src/service.ts` turns an action on a range of blocks into a
service action: each call takes a batch of at most `batchSize` blocks from `blockIndex` in the
direction of `step`, truncated at `endBlock` going up or at `floor` going down, passes its range to
the action and moves `blockIndex` past it. `innerServiceLoop` calls the service action until it
asks to stop, here with the service enabled throughout. The two actions are `scanReceipts`
(`scripts/scan-receipts.ts`) and `validateBlock` (`src/validation/block-validation.ts`).

Read as the intervals between their two ends, the ranges of a run tile the blocks from
`blockIndex` to `endBlock - 1` going up (`innerServiceLoop_tilesUp`), and down to `floor + 1`
going down (`innerServiceLoop_tilesDown`). The two ends are ordered by JavaScript's default
`sort()`, which compares decimal strings, and neither action processes the range it is given:
`scanReceipts` reads the block at `state.blockIndex`, and `validateBlock` counts `batchSize`
blocks up from it.
-/

namespace Coinquery.EthMonitor

/-- `IndexRange`: the two ends of a batch. -/
structure IndexRange where
  start : Int
  «end» : Int
deriving DecidableEq, Repr

/-- The state fields a block service reads: `BlockServiceFields`. -/
structure BlockServiceState where
  blockIndex : Int
  step : Int
  batchSize : Int
  /-- Optional; read as `0` when absent. -/
  floor : Option Int
deriving DecidableEq, Repr

/-- `ServiceResult<State>`. -/
structure ServiceResult (State : Type) where
  shouldContinue : Bool
  state : State
deriving DecidableEq, Repr

/-- `getEndBlock(ground, step)`, given the highest stored block index. -/
def getEndBlock (step highestBlock : Int) : Int :=
  if step < 0 then 0 else highestBlock

/-- `getTruncatedBatchSize(state, endBlock)`. -/
def getTruncatedBatchSize (state : BlockServiceState) (endBlock : Int) : Int :=
  let floor := state.floor.getD 0
  let boundedSize := if state.step > 0 then endBlock - state.blockIndex else state.blockIndex - floor
  let size := min boundedSize state.batchSize
  if size < 0 then 0 else size

/-- `String(n)` of a number with an integer value. -/
def jsString (n : Int) : List Char :=
  if n < 0 then '-' :: Nat.toDigits 10 n.natAbs else Nat.toDigits 10 n.toNat

/-- `points.sort()`: JavaScript's default order compares the numbers' strings; equal strings keep
their order. -/
def jsSort (points : List Int) : List Int :=
  points.insertionSort fun a b => jsString a ≤ jsString b

/-- `rangeFromPoints(points)`; `blockService` always passes two points, so the defaults are never
read. -/
def rangeFromPoints (points : List Int) : IndexRange :=
  ⟨points.getD 0 0, points.getD 1 0⟩

/-- `validateBlockState(state)`. -/
def validateBlockState (state : BlockServiceState) : List String :=
  if state.step ≠ -1 ∧ state.step ≠ 1 then ["state.step must be 1 or -1"] else []

/-- What an action does with a call: the block indices it processes, and its result. -/
abbrev BlockAction := BlockServiceState → IndexRange → List Int × ServiceResult BlockServiceState

/-- `blockService(model, actionSource)`'s service action, with `endBlock` the `getEndBlock` it read
when it was built. Besides the result, the call it made: the range and the blocks processed. -/
def blockService (action : BlockAction) (endBlock : Int) (state : BlockServiceState) :
    Except String (Option (IndexRange × List Int) × ServiceResult BlockServiceState) :=
  match validateBlockState state with
  | error :: _ => .error error
  | [] =>
    let batchSize := getTruncatedBatchSize state endBlock
    if batchSize = 0 then .ok (none, ⟨false, state⟩)
    else
      let range := rangeFromPoints
        (jsSort [state.blockIndex, state.blockIndex + (batchSize - 1) * state.step])
      let called := action state range
      .ok (some (range, called.1),
        ⟨called.2.shouldContinue,
          { called.2.state with blockIndex := state.blockIndex + batchSize * state.step }⟩)

/-- `innerServiceLoop(model, name, actionSource)` with the service enabled throughout: the calls
the action reports, with room for `fuel` iterations. A thrown error is caught and ends the loop. -/
def innerServiceLoop {State Call : Type} (action : State → Except String (Option Call × ServiceResult State)) :
    Nat → State → Option (List Call)
  | 0, _ => none
  | fuel + 1, state =>
    match action state with
    | .error _ => some []
    | .ok (call, result) =>
      if result.shouldContinue then (innerServiceLoop action fuel result.state).map (call.toList ++ ·)
      else some call.toList

/-- `scanReceipts(model, state, range)`: the receipts of the transactions of block
`state.blockIndex`. -/
def scanReceipts : BlockAction := fun state _ =>
  ([state.blockIndex], ⟨true, state⟩)

/-- `arrayRange(start, end)`: the integers from `start` below `end`. -/
def arrayRange (start «end» : Int) : List Int :=
  (List.range («end» - start).toNat).map fun offset : Nat => start + (offset : Int)

/-- `validateBlock(model, state, range)`: the blocks from `state.blockIndex` below
`state.blockIndex + state.batchSize`. -/
def validateBlock : BlockAction := fun state _ =>
  (arrayRange state.blockIndex (state.blockIndex + state.batchSize), ⟨true, state⟩)

/-! ## One call -/

theorem validateBlockState_eq_nil {state : BlockServiceState} (valid : state.step = -1 ∨ state.step = 1) :
    validateBlockState state = [] := by
  unfold validateBlockState
  rcases valid with step_eq | step_eq <;> simp [step_eq]

theorem getTruncatedBatchSize_nonneg (state : BlockServiceState) (endBlock : Int) :
    0 ≤ getTruncatedBatchSize state endBlock := by
  simp only [getTruncatedBatchSize]
  split_ifs <;> omega

theorem getTruncatedBatchSize_up {state : BlockServiceState} (up : state.step = 1) (endBlock : Int) :
    getTruncatedBatchSize state endBlock = max 0 (min (endBlock - state.blockIndex) state.batchSize) := by
  simp only [getTruncatedBatchSize, up]
  split_ifs <;> omega

theorem getTruncatedBatchSize_down {state : BlockServiceState} (down : state.step = -1) (endBlock : Int) :
    getTruncatedBatchSize state endBlock =
      max 0 (min (state.blockIndex - state.floor.getD 0) state.batchSize) := by
  simp only [getTruncatedBatchSize, down]
  split_ifs <;> omega

theorem jsSort_pair (a b : Int) :
    jsSort [a, b] = if jsString a ≤ jsString b then [a, b] else [b, a] := by
  simp only [jsSort, List.insertionSort, List.foldr_cons, List.foldr_nil, List.orderedInsert]

/-- Whichever way the two ends are sorted, the range lies between them. -/
theorem span_rangeFromPoints (a b : Int) :
    min (rangeFromPoints (jsSort [a, b])).start (rangeFromPoints (jsSort [a, b])).«end» = min a b ∧
      max (rangeFromPoints (jsSort [a, b])).start (rangeFromPoints (jsSort [a, b])).«end» = max a b := by
  rw [jsSort_pair]
  split <;> simp [rangeFromPoints, min_comm, max_comm]

example : rangeFromPoints (jsSort [9, 10]) = ⟨10, 9⟩ := by decide

/-- An action that returns the state it was given and asks to continue, as both actions here do. -/
def KeepsState (action : BlockAction) : Prop :=
  ∀ state range, (action state range).2 = ⟨true, state⟩

theorem scanReceipts_keepsState : KeepsState scanReceipts := fun _ _ => rfl

section Run

variable {action : BlockAction} {endBlock : Int} {state : BlockServiceState}

/-- An empty batch ends the loop without calling the action. -/
theorem innerServiceLoop_of_empty (valid : state.step = -1 ∨ state.step = 1)
    (empty : getTruncatedBatchSize state endBlock = 0) (fuel : Nat) :
    innerServiceLoop (blockService action endBlock) (fuel + 1) state = some [] := by
  simp [innerServiceLoop, blockService, validateBlockState_eq_nil valid, empty]

/-- A nonempty batch goes to an action that keeps the state, and the loop goes on past it. -/
theorem innerServiceLoop_of_batch (keeps : KeepsState action) (valid : state.step = -1 ∨ state.step = 1)
    (nonempty : getTruncatedBatchSize state endBlock ≠ 0) (fuel : Nat) :
    innerServiceLoop (blockService action endBlock) (fuel + 1) state =
      (innerServiceLoop (blockService action endBlock) fuel
        { state with blockIndex := state.blockIndex + getTruncatedBatchSize state endBlock * state.step }).map
        ((rangeFromPoints (jsSort [state.blockIndex,
            state.blockIndex + (getTruncatedBatchSize state endBlock - 1) * state.step]),
          (action state (rangeFromPoints (jsSort [state.blockIndex,
            state.blockIndex + (getTruncatedBatchSize state endBlock - 1) * state.step]))).1) :: ·) := by
  unfold KeepsState at keeps
  simp only [innerServiceLoop, blockService, validateBlockState_eq_nil valid, nonempty, if_false, keeps]
  rfl

end Run

/-! ## The ranges of a run tile the blocks -/

/-- The ranges, read as the intervals between their two ends, cover the blocks from `lo` below
`hi` one after another, going up. -/
def TilesUp : Int → List IndexRange → Int → Prop
  | lo, [], hi => lo = hi
  | lo, range :: ranges, hi =>
      min range.start range.«end» = lo ∧ lo ≤ max range.start range.«end» ∧
        TilesUp (max range.start range.«end» + 1) ranges hi

/-- The ranges cover the blocks from `hi` down to above `lo` one after another, going down. -/
def TilesDown : Int → List IndexRange → Int → Prop
  | hi, [], lo => hi = lo
  | hi, range :: ranges, lo =>
      max range.start range.«end» = hi ∧ min range.start range.«end» ≤ hi ∧
        TilesDown (min range.start range.«end» - 1) ranges lo

/-- Going up from `blockIndex` to `endBlock`, a run calls the action on ranges that tile the
blocks in between, and ends. -/
theorem innerServiceLoop_tilesUp {action : BlockAction} (keeps : KeepsState action) {endBlock : Int}
    (fuel : Nat) {state : BlockServiceState} (up : state.step = 1) (positive : 1 ≤ state.batchSize)
    (below : state.blockIndex ≤ endBlock) (room : (endBlock - state.blockIndex).toNat < fuel) :
    ∃ calls, innerServiceLoop (blockService action endBlock) fuel state = some calls ∧
      TilesUp state.blockIndex (calls.map (·.1)) endBlock := by
  induction fuel generalizing state with
  | zero => omega
  | succ fuel induction =>
      have size := getTruncatedBatchSize_up up endBlock
      by_cases done : state.blockIndex = endBlock
      · -- the batch is empty and the loop stops
        exact ⟨[], innerServiceLoop_of_empty (.inr up) (by omega) fuel, done⟩
      · -- one batch of `k` blocks from `blockIndex`, then the rest from `blockIndex + k`
        obtain ⟨calls, run, tiles⟩ := @induction
          { state with blockIndex := state.blockIndex + getTruncatedBatchSize state endBlock * state.step }
          up positive (by simp only [up]; omega) (by simp only [up]; omega)
        refine ⟨_, by rw [innerServiceLoop_of_batch keeps (.inr up) (by omega), run]; rfl, ?_⟩
        obtain ⟨lowest, highest⟩ := span_rangeFromPoints state.blockIndex
          (state.blockIndex + (getTruncatedBatchSize state endBlock - 1) * state.step)
        refine ⟨by rw [lowest, up]; omega, by rw [highest, up]; omega, ?_⟩
        rw [highest, up, show max state.blockIndex (state.blockIndex +
            (getTruncatedBatchSize state endBlock - 1) * 1) + 1 =
            state.blockIndex + getTruncatedBatchSize state endBlock * 1 by omega]
        simpa [up] using tiles

/-- Going down from `blockIndex` to `floor`, a run calls the action on ranges that tile the
blocks from `blockIndex` down to `floor + 1`, and ends. -/
theorem innerServiceLoop_tilesDown {action : BlockAction} (keeps : KeepsState action) {endBlock : Int}
    (fuel : Nat) {state : BlockServiceState} (down : state.step = -1) (positive : 1 ≤ state.batchSize)
    (above : state.floor.getD 0 ≤ state.blockIndex)
    (room : (state.blockIndex - state.floor.getD 0).toNat < fuel) :
    ∃ calls, innerServiceLoop (blockService action endBlock) fuel state = some calls ∧
      TilesDown state.blockIndex (calls.map (·.1)) (state.floor.getD 0) := by
  induction fuel generalizing state with
  | zero => omega
  | succ fuel induction =>
      have size := getTruncatedBatchSize_down down endBlock
      by_cases done : state.blockIndex = state.floor.getD 0
      · exact ⟨[], innerServiceLoop_of_empty (.inl down) (by omega) fuel, done⟩
      · obtain ⟨calls, run, tiles⟩ := @induction
          { state with blockIndex := state.blockIndex + getTruncatedBatchSize state endBlock * state.step }
          down positive (by simp only [down]; omega) (by simp only [down]; omega)
        refine ⟨_, by rw [innerServiceLoop_of_batch keeps (.inl down) (by omega), run]; rfl, ?_⟩
        obtain ⟨lowest, highest⟩ := span_rangeFromPoints state.blockIndex
          (state.blockIndex + (getTruncatedBatchSize state endBlock - 1) * state.step)
        refine ⟨by rw [highest, down]; omega, by rw [lowest, down]; omega, ?_⟩
        rw [lowest, down, show min state.blockIndex (state.blockIndex +
            (getTruncatedBatchSize state endBlock - 1) * -1) - 1 =
            state.blockIndex + getTruncatedBatchSize state endBlock * -1 by omega]
        simpa [down] using tiles

/-- `scanReceipts` going down from block `10` to the floor `6` in batches of two. -/
theorem innerServiceLoop_tilesDown_ten :
    let state : BlockServiceState := ⟨10, -1, 2, some 6⟩
    (state.step = -1 ∧ 1 ≤ state.batchSize ∧ state.floor.getD 0 ≤ state.blockIndex ∧
      (state.blockIndex - state.floor.getD 0).toNat < 5) ∧
    ∃ calls, innerServiceLoop (blockService scanReceipts 20) 5 state = some calls ∧
      TilesDown state.blockIndex (calls.map (·.1)) (state.floor.getD 0) := by
  intro state
  exact ⟨⟨rfl, by decide, by decide, by decide⟩,
    innerServiceLoop_tilesDown scanReceipts_keepsState 5 rfl (by decide) (by decide) (by decide)⟩

/-! ## What the actions process -/

/-- Going up, `scanReceipts` processes no block below the one the run started from. -/
theorem scanReceipts_processed_ge {endBlock : Int} (fuel : Nat) {state : BlockServiceState}
    (up : state.step = 1) {calls : List (IndexRange × List Int)}
    (run : innerServiceLoop (blockService scanReceipts endBlock) fuel state = some calls) :
    ∀ block ∈ (calls.map (·.2)).flatten, state.blockIndex ≤ block := by
  induction fuel generalizing state calls with
  | zero => simp [innerServiceLoop] at run
  | succ fuel induction =>
      by_cases empty : getTruncatedBatchSize state endBlock = 0
      · rw [innerServiceLoop_of_empty (.inr up) empty, Option.some.injEq] at run
        subst run
        simp
      · rw [innerServiceLoop_of_batch scanReceipts_keepsState (.inr up) empty,
          Option.map_eq_some_iff] at run
        obtain ⟨rest, rest_run, rfl⟩ := run
        have later := @induction
          { state with blockIndex := state.blockIndex + getTruncatedBatchSize state endBlock * state.step }
          up rest rest_run
        have nonneg := getTruncatedBatchSize_nonneg state endBlock
        intro block member
        simp only [List.map_cons, List.flatten_cons, List.mem_append, scanReceipts,
          List.mem_singleton] at member
        rcases member with first | other
        · omega
        · have above := later block other
          simp only [up] at above
          omega

/-- Going up with batches of two or more blocks, the ranges of a run tile the blocks from
`blockIndex` below `endBlock`, yet `scanReceipts` never processes `blockIndex + 1`: it reads only
the first block of each batch. -/
theorem scan_receipts_misses_tiled_blocks {endBlock : Int} {state : BlockServiceState}
    (up : state.step = 1) (wide : 2 ≤ state.batchSize) (room : state.blockIndex + 2 ≤ endBlock) :
    ∃ calls, innerServiceLoop (blockService scanReceipts endBlock)
        ((endBlock - state.blockIndex).toNat + 1) state = some calls ∧
      TilesUp state.blockIndex (calls.map (·.1)) endBlock ∧
      state.blockIndex + 1 ∉ (calls.map (·.2)).flatten := by
  obtain ⟨calls, run, tiles⟩ := @innerServiceLoop_tilesUp scanReceipts scanReceipts_keepsState endBlock
    _ state up (by omega) (by omega) (Nat.lt_succ_self _)
  refine ⟨calls, run, tiles, ?_⟩
  -- the first batch has two blocks or more; the rest of the run reads from past it
  have size := getTruncatedBatchSize_up up endBlock
  rw [innerServiceLoop_of_batch scanReceipts_keepsState (.inr up) (by omega),
    Option.map_eq_some_iff] at run
  obtain ⟨rest, rest_run, rfl⟩ := run
  have later := @scanReceipts_processed_ge endBlock _
    { state with blockIndex := state.blockIndex + getTruncatedBatchSize state endBlock * state.step } up
    rest rest_run
  simp only [List.map_cons, List.flatten_cons, List.mem_append, scanReceipts, List.mem_singleton,
    not_or]
  refine ⟨by omega, fun member => ?_⟩
  have above := later _ member
  simp only [up] at above
  omega

theorem scan_receipts_misses_tiled_blocks_nine :
    ((⟨9, 1, 2, none⟩ : BlockServiceState).step = 1 ∧ 2 ≤ (⟨9, 1, 2, none⟩ : BlockServiceState).batchSize ∧
      (⟨9, 1, 2, none⟩ : BlockServiceState).blockIndex + 2 ≤ 11) ∧
    ∃ calls, innerServiceLoop (blockService scanReceipts 11) ((11 - 9 : Int).toNat + 1) ⟨9, 1, 2, none⟩ =
        some calls ∧
      TilesUp 9 (calls.map (·.1)) 11 ∧ 9 + 1 ∉ (calls.map (·.2)).flatten :=
  ⟨⟨rfl, by decide, by decide⟩,
    @scan_receipts_misses_tiled_blocks 11 ⟨9, 1, 2, none⟩ rfl (by decide) (by decide)⟩

end Coinquery.EthMonitor
