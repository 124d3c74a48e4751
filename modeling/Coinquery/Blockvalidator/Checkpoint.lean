import Mathlib.Logic.Relation
import Mathlib.Order.Interval.Finset.Defs
import Mathlib.Order.Interval.Finset.Basic
import Mathlib.Data.Int.Interval

/-!
# The blockvalidator and its resume checkpoint

`cmd/blockvalidator` compares every block from the stored `validatedBlock` up to the last block
in the database with the node's. `orderResults` hands the results to `checkResult` in height
order; a block that differs is sent to `repairBlock`, whose goroutines finish in any order. Each
block found valid or repaired calls `blockValidated`, which writes
`validatedBlock = startBlock + blocksValidated` while the reorg offset allows, so that the next
run starts there.

The pipeline is a state machine with two events: `checkResult` takes the next height, and a
repair finishes (successfully or to be re-queued). `blockValidated` holds `bvMutex`, so each
event is atomic.

* `Validation.Reachable.inv`: the heights handed to `checkResult` are exactly the validated
  heights and the heights pending repair, each once, and `blocksValidated` counts the validated
  ones.
* `Validation.Reachable.checkpoint_le`: every height up to a written checkpoint has been checked,
  and was validated or pending repair at the time of the write.
* `Validation.Reachable.validated_of_done`: when `doneChan` is closed every height is validated.
* The checkpoint is a count, not the least unvalidated height, so a pending repair below it is
  skipped by the next run: `checkpoint_passes_pending_repair`.
-/

namespace Coinquery.Blockvalidator

/-- The field of `utxo.Tx` that the validator reads. -/
structure Tx where
  txID : String
  deriving DecidableEq, Repr

/-- The fields of `utxo.Block` that the validator reads. -/
structure Block where
  hash : String
  height : Int
  txs : List Tx
  deriving DecidableEq, Repr

structure BlockResult where
  dbHash : String
  dbTxIds : List String
  nodeBlock : Block
  deriving DecidableEq, Repr

/-- The map `revalidateOffset`; a coin missing from a Go map reads as `0`. -/
def revalidateOffset (coin : String) : Int :=
  match coin with
  | "bch" => 10
  | "btc" => 10
  | "dash" => 50
  | "dgb" => 250
  | "doge" => 100
  | "ltc" => 50
  | _ => 0

/-- The fields of `blockValidator` that `blockValidated` reads and writes, with the `-coin` flag;
`done` says whether `doneChan` is closed. -/
structure BlockValidator where
  coin : String
  startBlock : Int
  totalBlocks : Int
  blocksValidated : Int
  done : Bool
  deriving DecidableEq, Repr

/-- `generateBlockHeights`: the heights from the stored `validatedBlock` to the last block in the
database. -/
def generateBlockHeights (coin : String) (validatedBlock endBlock : Int) : BlockValidator :=
  { coin, startBlock := validatedBlock, totalBlocks := endBlock - validatedBlock + 1,
    blocksValidated := 0, done := false }

/-- `blockValidated`: the value it writes to `validatedBlock`, if any, and the validator after. -/
def blockValidated (v : BlockValidator) : Option Int × BlockValidator :=
  let write :=
    if v.blocksValidated + revalidateOffset v.coin.toLower ≤ v.totalBlocks then
      some (v.startBlock + v.blocksValidated)
    else none
  let blocksValidated := v.blocksValidated + 1
  (write, { v with blocksValidated := blocksValidated, done := v.done || blocksValidated == v.totalBlocks })

/-- The node's transactions whose ids are not among the database's. -/
def missingTxs (dbTxIds : List String) (txs : List Tx) : List Tx :=
  txs.filter fun tx => tx.txID ∉ dbTxIds

/-- The decision of `checkResult` on one result: `none` when the block is valid, or the block
it sends to `repairChan`. -/
def checkResult (result : BlockResult) : Option Block :=
  if result.nodeBlock.hash ≠ result.dbHash then some result.nodeBlock
  else if result.nodeBlock.txs.length ≠ result.dbTxIds.length then
    some { result.nodeBlock with txs := missingTxs result.dbTxIds result.nodeBlock.txs }
  else none

/-- The outcome of `repairBlock` on one block, from the results of `InsertBlock` and of the
`InsertTx` calls: the block is valid when all of them succeed, and re-queued otherwise. -/
def repairBlock (insertBlock : Except String Int) (insertTx : List (Except String Unit)) : Bool :=
  match insertBlock with
  | .error _ => false
  | .ok _ =>
    let failedRepair := insertTx.any fun result => !result.toBool
    !failedRepair

/-! ## The pipeline -/

/-- A write of `validatedBlock`, with the heights validated and pending repair at that moment. -/
structure Checkpoint where
  value : Int
  validated : List Int
  pending : List Int
  deriving DecidableEq, Repr

/-- The state of a run: the validator, the next height `orderResults` hands to `checkResult`,
the blocks on `repairChan` or under repair, and two records that the program does not keep: the
heights validated so far and every write of `validatedBlock`. -/
structure Validation where
  validator : BlockValidator
  endBlock : Int
  nextBlock : Int
  repairs : List Block
  validated : List Int
  checkpoints : List Checkpoint
  deriving DecidableEq, Repr

namespace Validation

def start (coin : String) (validatedBlock endBlock : Int) : Validation :=
  { validator := generateBlockHeights coin validatedBlock endBlock, endBlock,
    nextBlock := validatedBlock, repairs := [], validated := [], checkpoints := [] }

/-- The heights pending repair. -/
def pending (s : Validation) : List Int :=
  s.repairs.map Block.height

/-- The block at `height` is valid: record it and call `blockValidated`. -/
def validate (s : Validation) (height : Int) : Validation :=
  let validated := s.validated ++ [height]
  let called := blockValidated s.validator
  { s with
    validator := called.2
    validated := validated
    checkpoints := s.checkpoints ++ (called.1.map fun value => ⟨value, validated, s.pending⟩).toList }

/-- `checkResult` receives the result for `nextBlock`. -/
def check (s : Validation) (result : BlockResult) : Validation :=
  let s := { s with nextBlock := s.nextBlock + 1 }
  match checkResult result with
  | none => s.validate result.nodeBlock.height
  | some block => { s with repairs := s.repairs ++ [block] }

/-- A repair of `block` finishes; a failed one re-queues the block. -/
def repair (s : Validation) (block : Block) (insertBlock : Except String Int)
    (insertTx : List (Except String Unit)) : Validation :=
  if repairBlock insertBlock insertTx then
    { s with repairs := s.repairs.erase block }.validate block.height
  else s

/-- The events of a run. Once `doneChan` is closed `main` returns and nothing else happens. -/
inductive Step : Validation → Validation → Prop
  | check {s : Validation} (result : BlockResult) (running : s.validator.done = false)
      (next : result.nodeBlock.height = s.nextBlock) (within : s.nextBlock ≤ s.endBlock) :
      Step s (s.check result)
  | repair {s : Validation} {block : Block} (running : s.validator.done = false)
      (queued : block ∈ s.repairs) (insertBlock : Except String Int)
      (insertTx : List (Except String Unit)) :
      Step s (s.repair block insertBlock insertTx)

def Reachable (coin : String) (validatedBlock endBlock : Int) : Validation → Prop :=
  Relation.ReflTransGen Step (start coin validatedBlock endBlock)

end Validation

/-! ## Heights handed out -/

/-- `heights` lists each height of `[a, b)` exactly once. -/
def Delivers (heights : List Int) (a b : Int) : Prop :=
  heights.Nodup ∧ ∀ h, h ∈ heights ↔ a ≤ h ∧ h < b

namespace Delivers

variable {heights heights' : List Int} {a b : Int}

theorem perm (delivers : Delivers heights a b) (perm : heights.Perm heights') :
    Delivers heights' a b :=
  ⟨perm.nodup_iff.mp delivers.1, fun h => perm.mem_iff.symm.trans (delivers.2 h)⟩

theorem append_singleton (delivers : Delivers heights a b) (started : a ≤ b) :
    Delivers (heights ++ [b]) a (b + 1) := by
  obtain ⟨nodup, mem⟩ := delivers
  have fresh : b ∉ heights := fun member => by have := (mem b).mp member; omega
  refine ⟨List.nodup_append.mpr ⟨nodup, List.nodup_singleton b, ?_⟩, fun h => ?_⟩
  · intro x member y other
    rw [List.mem_singleton.mp other]
    exact fun same => fresh (same ▸ member)
  · rw [List.mem_append, mem, List.mem_singleton]
    omega

theorem length_eq (delivers : Delivers heights a b) : (heights.length : Int) = max 0 (b - a) := by
  have same : heights.toFinset = Finset.Ico a b := by
    ext h
    rw [List.mem_toFinset, delivers.2, Finset.mem_Ico]
  have cards := congrArg Finset.card same
  rw [List.toFinset_card_of_nodup delivers.1, Int.card_Ico] at cards
  omega

end Delivers

namespace Validation

variable {s : Validation} {height : Int}

/-! ### What `blockValidated` and `validate` change -/

@[simp]
theorem blockValidated_startBlock (v : BlockValidator) :
    (blockValidated v).2.startBlock = v.startBlock :=
  rfl

@[simp]
theorem blockValidated_totalBlocks (v : BlockValidator) :
    (blockValidated v).2.totalBlocks = v.totalBlocks :=
  rfl

@[simp]
theorem blockValidated_blocksValidated (v : BlockValidator) :
    (blockValidated v).2.blocksValidated = v.blocksValidated + 1 :=
  rfl

theorem blockValidated_done (v : BlockValidator) :
    (blockValidated v).2.done = (v.done || v.blocksValidated + 1 == v.totalBlocks) :=
  rfl

/-- What `blockValidated` writes is `startBlock + blocksValidated`, whichever block was validated. -/
theorem eq_of_blockValidated {v : BlockValidator} {value : Int}
    (written : (blockValidated v).1 = some value) : value = v.startBlock + v.blocksValidated := by
  simp only [blockValidated] at written
  split at written
  · exact (Option.some.inj written).symm
  · cases written

@[simp]
theorem validate_nextBlock : (s.validate height).nextBlock = s.nextBlock :=
  rfl

@[simp]
theorem validate_endBlock : (s.validate height).endBlock = s.endBlock :=
  rfl

@[simp]
theorem validate_repairs : (s.validate height).repairs = s.repairs :=
  rfl

@[simp]
theorem validate_validated : (s.validate height).validated = s.validated ++ [height] :=
  rfl

@[simp]
theorem validate_validator : (s.validate height).validator = (blockValidated s.validator).2 :=
  rfl

theorem mem_validate_checkpoints {c : Checkpoint} :
    c ∈ (s.validate height).checkpoints ↔
      c ∈ s.checkpoints ∨ (blockValidated s.validator).1 = some c.value ∧
        c.validated = s.validated ++ [height] ∧ c.pending = s.pending := by
  simp only [validate, List.mem_append, Option.mem_toList, Option.map_eq_some_iff]
  constructor
  · rintro (old | ⟨value, written, rfl⟩)
    · exact .inl old
    · exact .inr ⟨written, rfl, rfl⟩
  · rintro (old | ⟨written, validated, pending⟩)
    · exact .inl old
    · refine .inr ⟨c.value, written, ?_⟩
      cases c
      subst validated pending
      rfl

/-- The result `checkResult` takes is either valid, and then `validate`d, or sent to repair. -/
theorem check_cases (s : Validation) (result : BlockResult) :
    s.check result = { s with nextBlock := s.nextBlock + 1 }.validate result.nodeBlock.height ∨
      ∃ block : Block, block.height = result.nodeBlock.height ∧
        s.check result = { s with nextBlock := s.nextBlock + 1, repairs := s.repairs ++ [block] } := by
  unfold check checkResult
  split_ifs
  · exact .inr ⟨result.nodeBlock, rfl, rfl⟩
  · exact .inr ⟨{ result.nodeBlock with txs := missingTxs result.dbTxIds result.nodeBlock.txs }, rfl, rfl⟩
  · exact .inl rfl

/-! ### The invariant -/

/-- The heights handed to `checkResult` are the validated heights and those pending repair,
each once; `blocksValidated` counts the validated ones; `doneChan` closes only once all blocks
are counted; and every checkpoint written covers heights validated or pending repair. -/
structure Inv (s : Validation) : Prop where
  delivered : Delivers (s.validated ++ s.pending) s.validator.startBlock s.nextBlock
  counted : s.validator.blocksValidated = s.validated.length
  started : s.validator.startBlock ≤ s.nextBlock
  within : s.nextBlock = s.validator.startBlock ∨ s.nextBlock ≤ s.endBlock + 1
  total : s.validator.totalBlocks = s.endBlock - s.validator.startBlock + 1
  done : s.validator.done = true → s.validator.blocksValidated = s.validator.totalBlocks
  checkpoints : ∀ c ∈ s.checkpoints, ∀ h, s.validator.startBlock ≤ h → h ≤ c.value →
    h ∈ c.validated ++ c.pending

theorem inv_start (coin : String) (validatedBlock endBlock : Int) :
    Inv (start coin validatedBlock endBlock) where
  delivered := ⟨List.nodup_nil, fun h => by simp [start, pending, generateBlockHeights]⟩
  counted := rfl
  started := le_rfl
  within := .inl rfl
  total := rfl
  done := fun closed => by cases closed
  checkpoints := fun _ written => by cases written

/-- A checkpoint written while `height` is validated lies below every height not yet handed to
`checkResult`: it counts validated blocks, and those are among the heights handed out. -/
theorem checkpoint_covered {value : Int}
    (delivered : Delivers (s.validated ++ height :: s.pending) s.validator.startBlock s.nextBlock)
    (counted : s.validator.blocksValidated = s.validated.length)
    (written : (blockValidated s.validator).1 = some value) :
    ∀ h, s.validator.startBlock ≤ h → h ≤ value → h ∈ s.validated ++ [height] ++ s.pending := by
  intro h above below
  have length := delivered.length_eq
  simp only [List.length_append, List.length_cons] at length
  have value_eq := eq_of_blockValidated written
  rw [List.append_assoc, List.singleton_append, delivered.2]
  omega

/-- `validate` keeps the invariant when the height validated was handed out and is no longer
pending. -/
theorem inv_validate
    (delivered : Delivers (s.validated ++ height :: s.pending) s.validator.startBlock s.nextBlock)
    (counted : s.validator.blocksValidated = s.validated.length)
    (started : s.validator.startBlock ≤ s.nextBlock)
    (within : s.nextBlock = s.validator.startBlock ∨ s.nextBlock ≤ s.endBlock + 1)
    (total : s.validator.totalBlocks = s.endBlock - s.validator.startBlock + 1)
    (running : s.validator.done = false)
    (checkpoints : ∀ c ∈ s.checkpoints, ∀ h, s.validator.startBlock ≤ h → h ≤ c.value →
      h ∈ c.validated ++ c.pending) :
    Inv (s.validate height) where
  delivered := by simpa [pending] using delivered
  counted := by simp [counted]
  started := by simpa using started
  within := by simpa using within
  total := by simpa using total
  done := by
    rw [validate_validator, blockValidated_done, running, Bool.false_or, beq_iff_eq]
    intro closed
    simpa using closed
  checkpoints := by
    intro c written
    rcases mem_validate_checkpoints.mp written with old | ⟨written, validated, pending⟩
    · simpa using checkpoints c old
    · rw [validated, pending, validate_validator, blockValidated_startBlock]
      exact checkpoint_covered delivered counted written

theorem Inv.check (inv : Inv s) {result : BlockResult} (running : s.validator.done = false)
    (next : result.nodeBlock.height = s.nextBlock) (within : s.nextBlock ≤ s.endBlock) :
    Inv (s.check result) := by
  have started := inv.started
  have handed := inv.delivered.append_singleton started
  rcases check_cases s result with checked | ⟨block, height, checked⟩
  · rw [checked]
    refine inv_validate (handed.perm ?_) inv.counted (by simp; omega) (by simp; omega) inv.total
      running inv.checkpoints
    show (s.validated ++ s.pending ++ [s.nextBlock]).Perm (s.validated ++ result.nodeBlock.height :: s.pending)
    rw [next, List.append_assoc]
    exact (List.perm_append_singleton s.nextBlock s.pending).append_left s.validated
  · rw [checked]
    exact
      { delivered := by simpa [pending, height, next] using handed
        counted := inv.counted
        started := by simp; omega
        within := by simp; omega
        total := inv.total
        done := inv.done
        checkpoints := inv.checkpoints }

theorem Inv.repair (inv : Inv s) {block : Block} (running : s.validator.done = false)
    (queued : block ∈ s.repairs) (insertBlock : Except String Int)
    (insertTx : List (Except String Unit)) :
    Inv (s.repair block insertBlock insertTx) := by
  unfold Validation.repair
  split
  · have erased : s.pending.Perm (block.height :: (s.repairs.erase block).map Block.height) :=
      (List.perm_cons_erase queued).map Block.height
    exact inv_validate (inv.delivered.perm (erased.append_left s.validated)) inv.counted inv.started
      inv.within inv.total running inv.checkpoints
  · exact inv

theorem Step.inv {s s' : Validation} (step : Step s s') (inv : Inv s) : Inv s' := by
  cases step with
  | check result running next within => exact inv.check running next within
  | repair running queued insertBlock insertTx => exact inv.repair running queued insertBlock insertTx

theorem Step.startBlock {s s' : Validation} (step : Step s s') :
    s'.validator.startBlock = s.validator.startBlock ∧ s'.endBlock = s.endBlock := by
  cases step with
  | check result =>
      rcases check_cases s result with checked | ⟨block, _, checked⟩ <;> rw [checked] <;> simp
  | repair _ _ insertBlock insertTx =>
      unfold Validation.repair
      split <;> simp

variable {coin : String} {validatedBlock endBlock : Int}

theorem Reachable.inv (reach : Reachable coin validatedBlock endBlock s) : Inv s := by
  induction reach with
  | refl => exact inv_start coin validatedBlock endBlock
  | tail _ step inv => exact step.inv inv

theorem Reachable.startBlock (reach : Reachable coin validatedBlock endBlock s) :
    s.validator.startBlock = validatedBlock ∧ s.endBlock = endBlock := by
  induction reach with
  | refl => exact ⟨rfl, rfl⟩
  | tail _ step same => rw [step.startBlock.1, step.startBlock.2]; exact same

/-- The run of one height, `0`, for a coin that `revalidateOffset` does not list: `checkResult`
finds the block valid, `blockValidated` writes the checkpoint `0`, and `doneChan` is closed. -/
def oneValidBlock : Validation :=
  (start "eth" 0 0).check ⟨"h", [], ⟨"h", 0, []⟩⟩

theorem reachable_oneValidBlock : Reachable "eth" 0 0 oneValidBlock :=
  .single (.check _ rfl rfl (by decide))

/-- Every height up to a written checkpoint had been handed to `checkResult` and was validated or
pending repair when the checkpoint was written. -/
theorem Reachable.checkpoint_le (reach : Reachable coin validatedBlock endBlock s) :
    ∀ c ∈ s.checkpoints, ∀ h, validatedBlock ≤ h → h ≤ c.value → h ∈ c.validated ∨ h ∈ c.pending := by
  intro c written h above below
  rw [← reach.startBlock.1] at above
  exact List.mem_append.mp (reach.inv.checkpoints c written h above below)

theorem checkpoint_le_oneValidBlock :
    Reachable "eth" 0 0 oneValidBlock ∧
      ∀ c ∈ oneValidBlock.checkpoints, ∀ h, 0 ≤ h → h ≤ c.value → h ∈ c.validated ∨ h ∈ c.pending :=
  ⟨reachable_oneValidBlock, Reachable.checkpoint_le reachable_oneValidBlock⟩

/-- Once `doneChan` is closed, every height from `validatedBlock` to the last block is
validated. -/
theorem Reachable.validated_of_done (reach : Reachable coin validatedBlock endBlock s)
    (closed : s.validator.done = true) :
    ∀ h, validatedBlock ≤ h → h ≤ endBlock → h ∈ s.validated := by
  intro h above below
  obtain ⟨started_eq, end_eq⟩ := reach.startBlock
  obtain ⟨delivered, counted, -, within, total, done, -⟩ := reach.inv
  have all_counted := done closed
  have length := delivered.length_eq
  simp only [List.length_append] at length
  -- every block is counted, so none is pending and every height has been handed out
  have no_pending : s.pending = [] := List.eq_nil_of_length_eq_zero (by omega)
  have member := (delivered.2 h).mpr (by omega)
  rwa [no_pending, List.append_nil] at member

theorem validated_of_done_oneValidBlock :
    Reachable "eth" 0 0 oneValidBlock ∧ oneValidBlock.validator.done = true ∧
      ∀ h, 0 ≤ h → h ≤ 0 → h ∈ oneValidBlock.validated :=
  ⟨reachable_oneValidBlock, rfl, Reachable.validated_of_done reachable_oneValidBlock rfl⟩

end Validation

/-! ## The checkpoint passes pending repairs -/

/-- With `-coin btc` and heights `0` to `11`, the block at height `0` differs from the node's and
waits for its repair while heights `1` and `2` match: the second `blockValidated` writes
`validatedBlock = 1` with height `0` not validated, and a run restarted from there never
validates it. -/
theorem checkpoint_passes_pending_repair :
    ¬ ∀ (coin : String) (validatedBlock endBlock : Int) (s : Validation),
        Validation.Reachable coin validatedBlock endBlock s →
        ∀ c ∈ s.checkpoints, ∀ h, validatedBlock ≤ h → h < c.value → h ∈ c.validated := by
  intro sound
  let result (height : Int) (dbHash : String) : BlockResult := ⟨dbHash, [], ⟨"node", height, []⟩⟩
  let stale := (Validation.start "btc" 0 11).check (result 0 "stale")
  let first := stale.check (result 1 "node")
  let second := first.check (result 2 "node")
  have reach : Validation.Reachable "btc" 0 11 second :=
    ((Relation.ReflTransGen.single (Validation.Step.check _ rfl rfl (by decide))).tail
      (Validation.Step.check _ (by decide +kernel) (by decide +kernel) (by decide +kernel))).tail
      (Validation.Step.check _ (by decide +kernel) (by decide +kernel) (by decide +kernel))
  have written : ⟨1, [1, 2], [0]⟩ ∈ second.checkpoints := by decide +kernel
  exact absurd (sound "btc" 0 11 second reach _ written 0 le_rfl (by decide)) (by decide)

end Coinquery.Blockvalidator
