import Coinquery.Txo.Reorg

/-!
# `Indexer.syncToTip`

After the initial sync the indexer follows the node: on each block notification `syncToTip` reads
the height of `LastBlock()` and sends the node's blocks from that height up to the node's tip to
`writeBlock`, which inserts each with `in_recover = false`. The node's chain is a function from
heights to block headers. A round fails when `LastBlock()` finds no live block (the Go code then
dereferences nil) or when an insert raises (`writeBlock` calls `log.Fatal`); `InsertBlock` retries a
raising call, which raises again on the unchanged table.
-/

namespace Coinquery
namespace Indexer

open SelectInto Txo

/-- The heights `low, low + 1, …, high` of the loop `for i := low; i <= high; i++`. -/
def heightsFrom (low high : Int) : List Int :=
  (List.range (high + 1 - low).toNat).map fun offset : Nat => low + (offset : Int)

/-- `writeBlock` inserting blocks in order; the first raise ends the run. -/
def insertBlocks (pick : Pick BlockRow) (fuel : Nat) (inRecover : Bool) :
    List BlockHeader → Table → Option (Except String Table)
  | [], table => some (.ok table)
  | header :: rest, table =>
      match blockInsert pick fuel table header inRecover with
      | some (.ok (inserted, _)) => insertBlocks pick fuel inRecover rest inserted
      | some (.error message) => some (.error message)
      | none => none

/-- The Go runtime's message for the nil dereference of `lastBlock.Height`. -/
def nilDereference : String :=
  "runtime error: invalid memory address or nil pointer dereference"

/-- One round of `syncToTip` against a node whose chain is `node` with tip `tip`. -/
def syncToTip (pick : Pick BlockRow) (fuel : Nat) (node : Int → BlockHeader) (tip : Int)
    (table : Table) : Option (Except String Table) :=
  match table.lastBlockHeight with
  | none => some (.error nilDereference)
  | some last => insertBlocks pick fuel false ((heightsFrom last tip).map node) table

/-- `rounds` successive rounds against the same node chain. -/
def syncRounds (pick : Pick BlockRow) (fuel : Nat) (node : Int → BlockHeader) (tip : Int) :
    Nat → Table → Option (Except String Table)
  | 0, table => some (.ok table)
  | rounds + 1, table =>
      match syncToTip pick fuel node tip table with
      | some (.ok after) => syncRounds pick fuel node tip rounds after
      | failed => failed

/-- The node's chain between `low` and `tip`: blocks of the tree at their heights, each pointing
at the one below, and at the one above through the `nextblockhash` the node reports, which is
empty at the tip. -/
structure NodeChain (tree : BlockTree) (node : Int → BlockHeader) (low tip : Int) : Prop where
  mem : ∀ height, low ≤ height → height ≤ tip → node height ∈ tree.blocks
  height_eq : ∀ height, low ≤ height → height ≤ tip → (node height).height = height
  prev : ∀ height, low < height → height ≤ tip → (node height).prevHash = (node (height - 1)).hash
  next : ∀ height, low ≤ height → height < tip → (node height).nextHash = (node (height + 1)).hash
  next_tip : (node tip).nextHash = ""

/-- Tables the indexer reaches: an initial sync of some node chain from the empty table, followed
by rounds of `syncToTip` against node chains of the same tree. -/
inductive SyncReachable (tree : BlockTree) : Table → Prop
  | initialSync {node : Int → BlockHeader} {low high : Int} {pick : Pick BlockRow} {fuel : Nat}
      {table : Table} (chain : NodeChain tree node low high)
      (synced : insertBlocks pick fuel false ((heightsFrom low high).map node) Table.empty =
        some (.ok table)) :
      SyncReachable tree table
  | round {node : Int → BlockHeader} {low tip : Int} {pick : Pick BlockRow} {fuel : Nat}
      {table after : Table} (reach : SyncReachable tree table) (chain : NodeChain tree node low tip)
      (synced : syncToTip pick fuel node tip table = some (.ok after)) :
      SyncReachable tree after

/-- Every height of `[low, tip]` has exactly the node's block live. -/
def Converged (node : Int → BlockHeader) (low tip : Int) (table : Table) : Prop :=
  ∀ height, low ≤ height → height ≤ tip →
    (∀ row ∈ table.liveRows, row.height = height → row.blockHash = (node height).hash) ∧
      ∃ row ∈ table.liveRows, row.height = height ∧ row.blockHash = (node height).hash

theorem mem_heightsFrom {low high height : Int} :
    height ∈ heightsFrom low high ↔ low ≤ height ∧ height ≤ high := by
  simp only [heightsFrom, List.mem_map, List.mem_range]
  constructor
  · rintro ⟨offset, below, rfl⟩
    omega
  · rintro ⟨above_low, below_high⟩
    exact ⟨(height - low).toNat, by omega, by omega⟩

/-- A statement about every height of an interval follows from its check on `heightsFrom`. -/
theorem forall_of_heightsFrom {low high : Int} {property : Int → Prop}
    (check : ∀ height ∈ heightsFrom low high, property height) :
    ∀ height, low ≤ height → height ≤ high → property height :=
  fun height above below => check height (mem_heightsFrom.mpr ⟨above, below⟩)

theorem heightsFrom_of_lt {low high : Int} (lt : high < low) : heightsFrom low high = [] := by
  simp [heightsFrom, show (high + 1 - low).toNat = 0 by omega]

theorem length_heightsFrom (low high : Int) :
    (heightsFrom low high).length = (high + 1 - low).toNat := by
  simp [heightsFrom]

theorem nodup_heightsFrom (low high : Int) : (heightsFrom low high).Nodup := by
  refine List.nodup_range.map ?_
  intro offset other same
  simp only at same
  omega

theorem heightsFrom_append {low mid high : Int} (above : low ≤ mid + 1) (below : mid ≤ high) :
    heightsFrom low mid ++ heightsFrom (mid + 1) high = heightsFrom low high := by
  have split : (high + 1 - low).toNat = (mid + 1 - low).toNat + (high + 1 - (mid + 1)).toNat := by
    omega
  rw [heightsFrom, heightsFrom, heightsFrom, split, List.range_add, List.map_append, List.map_map]
  congr 1
  apply List.map_congr_left
  intro offset _
  simp only [Function.comp_apply]
  omega

theorem heightsFrom_cons {low high : Int} (le : low ≤ high) :
    heightsFrom low high = low :: heightsFrom (low + 1) high := by
  have single : heightsFrom low low = [low] := by
    rw [heightsFrom, show (low + 1 - low).toNat = 1 by omega]
    simp
  rw [← heightsFrom_append (by omega) le, single, List.singleton_append]

/-! ## Fuel is only room -/

theorem insertBlocks_mono {pick : Pick BlockRow} {fuel more : Nat} {inRecover : Bool}
    {headers : List BlockHeader} {table : Table} {result : Except String Table}
    (finished : insertBlocks pick fuel inRecover headers table = some result) (le : fuel ≤ more) :
    insertBlocks pick more inRecover headers table = some result := by
  induction headers generalizing table with
  | nil => exact finished
  | cons header rest ih =>
      simp only [insertBlocks] at finished ⊢
      cases insert : blockInsert pick fuel table header inRecover with
      | none => simp [insert] at finished
      | some outcome =>
          rw [blockInsert_mono insert le]
          rw [insert] at finished
          cases outcome with
          | error message => exact finished
          | ok inserted => exact ih finished

theorem syncToTip_mono {pick : Pick BlockRow} {fuel more : Nat} {node : Int → BlockHeader}
    {tip : Int} {table : Table} {result : Except String Table}
    (finished : syncToTip pick fuel node tip table = some result) (le : fuel ≤ more) :
    syncToTip pick more node tip table = some result := by
  unfold syncToTip at finished ⊢
  split at finished
  · exact finished
  · exact insertBlocks_mono finished le

theorem syncRounds_mono {pick : Pick BlockRow} {fuel more : Nat} {node : Int → BlockHeader}
    {tip : Int} {rounds : Nat} {table : Table} {result : Except String Table}
    (finished : syncRounds pick fuel node tip rounds table = some result) (le : fuel ≤ more) :
    syncRounds pick more node tip rounds table = some result := by
  induction rounds generalizing table with
  | zero => exact finished
  | succ rounds ih =>
      simp only [syncRounds] at finished ⊢
      cases round : syncToTip pick fuel node tip table with
      | none => simp [round] at finished
      | some outcome =>
          rw [syncToTip_mono round le]
          rw [round] at finished
          cases outcome with
          | error message => exact finished
          | ok after => exact ih finished

/-! ## Runs of rounds -/

theorem syncRounds_add (pick : Pick BlockRow) (fuel : Nat) (node : Int → BlockHeader) (tip : Int)
    (first second : Nat) (table : Table) :
    syncRounds pick fuel node tip (first + second) table =
      match syncRounds pick fuel node tip first table with
      | some (.ok after) => syncRounds pick fuel node tip second after
      | failed => failed := by
  induction first generalizing table with
  | zero => simp [syncRounds]
  | succ first ih =>
      rw [Nat.add_right_comm, syncRounds, syncRounds]
      cases syncToTip pick fuel node tip table with
      | none => rfl
      | some outcome =>
          cases outcome with
          | error message => rfl
          | ok after => exact ih after

/-- A table that a round leaves unchanged stays so for every number of rounds. -/
theorem syncRounds_of_fixed {pick : Pick BlockRow} {fuel : Nat} {node : Int → BlockHeader}
    {tip : Int} {table : Table} (fixed : syncToTip pick fuel node tip table = some (.ok table))
    (rounds : Nat) : syncRounds pick fuel node tip rounds table = some (.ok table) := by
  induction rounds with
  | zero => rfl
  | succ rounds ih => simp only [syncRounds, fixed, ih]

/-- The conditions of a node chain, checked height by height on `heightsFrom`. -/
theorem NodeChain.of_checks {tree : BlockTree} {node : Int → BlockHeader} {low tip : Int}
    (mem : ∀ height ∈ heightsFrom low tip, node height ∈ tree.blocks)
    (height_eq : ∀ height ∈ heightsFrom low tip, (node height).height = height)
    (prev : ∀ height ∈ heightsFrom (low + 1) tip,
      (node height).prevHash = (node (height - 1)).hash)
    (next : ∀ height ∈ heightsFrom low (tip - 1),
      (node height).nextHash = (node (height + 1)).hash)
    (next_tip : (node tip).nextHash = "") : NodeChain tree node low tip where
  mem := forall_of_heightsFrom mem
  height_eq := forall_of_heightsFrom height_eq
  prev height above below := prev height (mem_heightsFrom.mpr ⟨by omega, below⟩)
  next height above below := next height (mem_heightsFrom.mpr ⟨above, by omega⟩)
  next_tip := next_tip

/-! ## A reorganisation of depth four -/

/-- The chain `f0 … f4` the indexer synced first. -/
def firstChain : Int → BlockHeader
  | 0 => ⟨"f0", 0, "", "f1"⟩
  | 1 => ⟨"f1", 1, "f0", "f2"⟩
  | 2 => ⟨"f2", 2, "f1", "f3"⟩
  | 3 => ⟨"f3", 3, "f2", "f4"⟩
  | _ => ⟨"f4", 4, "f3", ""⟩

/-- The node's chain after a reorganisation of depth four: `f0`, then `m1 … m4`. -/
def mainChain : Int → BlockHeader
  | 0 => ⟨"f0", 0, "", "m1"⟩
  | 1 => ⟨"m1", 1, "f0", "m2"⟩
  | 2 => ⟨"m2", 2, "m1", "m3"⟩
  | 3 => ⟨"m3", 3, "m2", "m4"⟩
  | _ => ⟨"m4", 4, "m3", ""⟩

/-- The blocks of both chains; `f0` appears with each chain's view of its next block. -/
def depthFourTree : BlockTree :=
  BlockTree.ofList ((heightsFrom 0 4).map firstChain ++ (heightsFrom 0 4).map mainChain)
    (by decide) (by decide)

theorem firstChain_nodeChain : NodeChain depthFourTree firstChain 0 4 :=
  NodeChain.of_checks
    (fun height member => BlockTree.mem_ofList.mpr (by revert height member; decide))
    (by decide) (by decide) (by decide) rfl

theorem mainChain_nodeChain : NodeChain depthFourTree mainChain 0 4 :=
  NodeChain.of_checks
    (fun height member => BlockTree.mem_ofList.mpr (by revert height member; decide))
    (by decide) (by decide) (by decide) rfl

/-- The table after the initial sync of `firstChain`. -/
def syncedFirstChain : Table :=
  ⟨[⟨1, "f0", 0, "", "f1", false⟩, ⟨2, "f1", 1, "f0", "f2", false⟩,
    ⟨3, "f2", 2, "f1", "f3", false⟩, ⟨4, "f3", 3, "f2", "f4", false⟩,
    ⟨5, "f4", 4, "f3", "", false⟩], 6⟩

theorem syncedFirstChain_reachable : SyncReachable depthFourTree syncedFirstChain :=
  @SyncReachable.initialSync depthFourTree firstChain 0 4 Pick.first 2 syncedFirstChain
    firstChain_nodeChain (by decide)

/-- After the first round from height 4: `m4` went in above the missing `m3`, which orphaned it
with `f3` and `f4`. -/
def afterFirstRound : Table :=
  ⟨[⟨1, "f0", 0, "", "f1", false⟩, ⟨2, "f1", 1, "f0", "f2", false⟩,
    ⟨3, "f2", 2, "f1", "f3", false⟩, ⟨4, "f3", 3, "f2", "m4", true⟩,
    ⟨5, "f4", 4, "f3", "", true⟩, ⟨6, "m4", 4, "m3", "", true⟩], 7⟩

/-- After the second round from height 2: `m2` and `m3` went in above the missing `m1` and were
orphaned with `f1`, `f2` and the stored `m4`; the idempotency check then revived `m4` alone. -/
def afterSecondRound : Table :=
  ⟨[⟨1, "f0", 0, "", "f1", false⟩, ⟨2, "f1", 1, "f0", "m2", true⟩,
    ⟨3, "f2", 2, "f1", "", true⟩, ⟨4, "f3", 3, "f2", "m4", true⟩,
    ⟨5, "f4", 4, "f3", "", true⟩, ⟨6, "m4", 4, "m3", "", false⟩,
    ⟨7, "m2", 2, "m1", "m3", true⟩, ⟨8, "m3", 3, "m2", "m4", true⟩], 9⟩

theorem first_round_depthFour :
    syncToTip Pick.first 4 mainChain 4 syncedFirstChain = some (.ok afterFirstRound) := by
  decide

theorem second_round_depthFour :
    syncToTip Pick.first 4 mainChain 4 afterFirstRound = some (.ok afterSecondRound) := by
  decide

/-- From the second round on, each round starts at the live `m4` and only re-inserts it. -/
theorem afterSecondRound_fixed :
    syncToTip Pick.first 4 mainChain 4 afterSecondRound = some (.ok afterSecondRound) := by
  decide

/-- Every run of two rounds or more ends at `afterSecondRound`. -/
theorem syncRounds_depthFour (rounds : Nat) (enough : 2 ≤ rounds) :
    syncRounds Pick.first 4 mainChain 4 rounds syncedFirstChain = some (.ok afterSecondRound) := by
  obtain ⟨later, rfl⟩ : ∃ later, rounds = 2 + later := ⟨rounds - 2, by omega⟩
  rw [syncRounds_add]
  have two_rounds : syncRounds Pick.first 4 mainChain 4 2 syncedFirstChain =
      some (.ok afterSecondRound) := by
    simp [syncRounds, first_round_depthFour, second_round_depthFour]
  rw [two_rounds]
  exact syncRounds_of_fixed afterSecondRound_fixed later

theorem reorg_convergence_fails :
    ¬ ∀ (tree : BlockTree) (start : Table) (node : Int → BlockHeader) (low tip : Int),
      SyncReachable tree start → NodeChain tree node low tip → low ≤ tip →
        ∀ pick : Pick BlockRow, ∃ rounds ≤ (tip - low + 1).toNat, ∃ (fuel : Nat) (table : Table),
          syncRounds pick fuel node tip rounds start = some (.ok table) ∧
            Converged node low tip table := by
  intro converges
  obtain ⟨rounds, -, fuel, table, run, converged⟩ :=
    converges depthFourTree syncedFirstChain mainChain 0 4 syncedFirstChain_reachable
      mainChain_nodeChain (by decide) Pick.first
  -- with fuel 4 every run is known; a run with other fuel agrees with it once both have room
  obtain ⟨known, known_run, known_eq⟩ : ∃ known,
      syncRounds Pick.first 4 mainChain 4 rounds syncedFirstChain = some (.ok known) ∧
        (known = syncedFirstChain ∨ known = afterFirstRound ∨ known = afterSecondRound) := by
    match rounds with
    | 0 => exact ⟨_, rfl, .inl rfl⟩
    | 1 => exact ⟨_, by simp [syncRounds, first_round_depthFour], .inr (.inl rfl)⟩
    | later + 2 => exact ⟨_, syncRounds_depthFour (later + 2) (by omega), .inr (.inr rfl)⟩
  have same : some (Except.ok known) = some (Except.ok table) :=
    (syncRounds_mono known_run (le_max_right fuel 4)).symm.trans
      (syncRounds_mono run (le_max_left fuel 4))
  simp only [Option.some.injEq, Except.ok.injEq] at same
  subst same
  -- none of the three tables has `m1` live at height 1
  have at_one := (converged 1 (by decide) (by decide)).2
  rcases known_eq with rfl | rfl | rfl <;> revert at_one <;> decide

end Indexer
end Coinquery
