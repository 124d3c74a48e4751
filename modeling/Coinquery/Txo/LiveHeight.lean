import Coinquery.Txo.Reachable

/-!
# One live block per height

Every `block_insert` call keeps two facts about the `block` table: no two rows share
`(block_hash, height)`, and no two live rows share a height. Each statement of the function either
only orphans and relinks rows, or makes the rows of one key live after orphaning every other row at
that height, or inserts a fresh key at a height where every row is orphaned; the two loops repeat
statements of these kinds.
-/

namespace Coinquery
namespace Txo

open SelectInto

namespace Table

/-- The two distinctness facts `block_insert` maintains. -/
structure Sound (table : Table) : Prop where
  keys_distinct : table.rows.Pairwise fun row other => row.key ≠ other.key
  live_heights_distinct : table.rows.Pairwise fun row other =>
    row.isOrphaned = false → other.isOrphaned = false → row.height ≠ other.height

theorem sound_empty : empty.Sound := ⟨List.Pairwise.nil, List.Pairwise.nil⟩

/-- Rewriting every row by a key-preserving `change` keeps the table sound when two rows that are
live afterwards at one height under different keys were both live before. -/
theorem Sound.map {table after : Table} (sound : table.Sound) {change : BlockRow → BlockRow}
    (rows_eq : after.rows = table.rows.map change) (keeps : ∀ row, (change row).key = row.key)
    (live : ∀ row other, (change row).isOrphaned = false → (change other).isOrphaned = false →
      row.height = other.height → row.key ≠ other.key →
        row.isOrphaned = false ∧ other.isOrphaned = false) :
    after.Sound := by
  have height_eq : ∀ row, (change row).height = row.height := fun row =>
    congrArg Prod.snd (keeps row)
  constructor
  · rw [rows_eq, List.pairwise_map]
    refine sound.keys_distinct.imp ?_
    intro row other distinct
    rwa [keeps, keeps]
  · rw [rows_eq, List.pairwise_map]
    refine (sound.keys_distinct.and sound.live_heights_distinct).imp ?_
    rintro row other ⟨distinct, live_distinct⟩ row_live other_live same_height
    rw [height_eq, height_eq] at same_height
    obtain ⟨was_live, other_was_live⟩ := live row other row_live other_live same_height distinct
    exact live_distinct was_live other_was_live same_height

/-- A change that makes no row live keeps the table sound. -/
theorem Sound.map_of_stays {table after : Table} (sound : table.Sound)
    {change : BlockRow → BlockRow} (rows_eq : after.rows = table.rows.map change)
    (keeps : ∀ row, (change row).key = row.key)
    (stays : ∀ row, (change row).isOrphaned = false → row.isOrphaned = false) :
    after.Sound :=
  sound.map rows_eq keeps fun row other row_live other_live _ _ =>
    ⟨stays row row_live, stays other other_live⟩

/-- A change that leaves live, at the height of `key`, only rows of `key` keeps the table sound. -/
theorem Sound.map_of_promotes {table after : Table} (sound : table.Sound)
    {change : BlockRow → BlockRow} (rows_eq : after.rows = table.rows.map change)
    (keeps : ∀ row, (change row).key = row.key) (key : String × Int)
    (promotes : ∀ row, (change row).isOrphaned = false →
      row.key = key ∨ (row.isOrphaned = false ∧ row.height ≠ key.2)) :
    after.Sound := by
  refine sound.map rows_eq keeps ?_
  intro row other row_live other_live same_height distinct
  rcases promotes row row_live with row_key | ⟨row_was, row_off⟩
  · have row_height : row.height = key.2 := congrArg Prod.snd row_key
    rcases promotes other other_live with other_key | ⟨_, other_off⟩
    · exact absurd (row_key.trans other_key.symm) distinct
    · exact absurd (same_height ▸ row_height) other_off
  · rcases promotes other other_live with other_key | ⟨other_was, _⟩
    · have other_height : other.height = key.2 := congrArg Prod.snd other_key
      exact absurd (same_height.trans other_height) row_off
    · exact ⟨row_was, other_was⟩

/-- Adopting the rows of `key` and orphaning every other row at its height keeps the table
sound. -/
theorem Sound.promote {table after : Table} (sound : table.Sound) (key : String × Int)
    (adopt kill : BlockRow → BlockRow) (adopt_key : ∀ row, (adopt row).key = row.key)
    (kill_key : ∀ row, (kill row).key = row.key) (killed : ∀ row, (kill row).isOrphaned = true)
    (rows_eq : after.rows = table.rows.map fun row =>
      if row.key = key then adopt row else if row.height = key.2 then kill row else row) :
    after.Sound := by
  refine sound.map_of_promotes rows_eq ?_ key ?_
  · intro row
    split_ifs <;> simp [adopt_key, kill_key]
  · intro row live
    by_cases own : row.key = key
    · exact .inl own
    · by_cases same_height : row.height = key.2
      · simp [own, same_height, killed] at live
      · simp only [own, same_height, if_false] at live
        exact .inr ⟨live, same_height⟩

/-- An `UPDATE` whose assignment keeps the key and makes no row live keeps the table sound. -/
theorem Sound.update {table : Table} (sound : table.Sound) {cond : BlockRow → Bool}
    {set : BlockRow → BlockRow} (keeps : ∀ row, (set row).key = row.key)
    (stays : ∀ row, (set row).isOrphaned = false → row.isOrphaned = false) :
    (table.update cond set).Sound := by
  refine sound.map_of_stays (update_rows table cond set) ?_ ?_
  · intro row
    split <;> simp [keeps]
  · intro row
    split
    · exact stays row
    · exact id

/-- Inserting a fresh key at a height where every row is orphaned keeps the table sound. -/
theorem Sound.insert {table : Table} (sound : table.Sound) {row : Nat → BlockRow}
    (fresh : ∀ stored ∈ table.rows, stored.key ≠ (row table.nextId).key)
    (vacant : ∀ stored ∈ table.rows, stored.height = (row table.nextId).height →
      stored.isOrphaned = true) :
    (table.insert row).Sound := by
  constructor
  · rw [insert_rows, List.pairwise_append]
    refine ⟨sound.keys_distinct, List.pairwise_singleton _ _, ?_⟩
    intro stored member new new_member
    rw [List.mem_singleton.mp new_member]
    exact fresh stored member
  · rw [insert_rows, List.pairwise_append]
    refine ⟨sound.live_heights_distinct, List.pairwise_singleton _ _, ?_⟩
    intro stored member new new_member stored_live _ same_height
    rw [List.mem_singleton.mp new_member] at same_height
    simp [vacant stored member same_height] at stored_live

end Table

/-! ## The statements of `block_insert` -/

theorem sound_linkPrevious {table : Table} (sound : table.Sound) (pick : Pick BlockRow)
    (header : BlockHeader) : (linkPrevious pick table header).Sound := by
  unfold linkPrevious
  split
  · exact sound.update (fun _ => rfl) fun _ => id
  · exact sound

theorem isStored_iff_key (header : BlockHeader) (row : BlockRow) :
    isStored header row = true ↔ row.key = (header.hash, header.height) := by
  simp [isStored, BlockRow.key]

/-- What lines 72-82 do to one row: the stored copy of the block is adopted, the other rows at its
height are orphaned. -/
theorem revive_rows (pick : Pick BlockRow) (table : Table) (header : BlockHeader) :
    (revive pick table header).1.rows = table.rows.map fun row =>
      if row.key = (header.hash, header.height) then row.adopt (some header.nextHash)
      else if row.height = header.height then row.orphan else row := by
  simp only [revive, Table.update_rows, List.map_map]
  apply List.map_congr_left
  intro row _
  by_cases stored : row.key = (header.hash, header.height)
  · have stored' := (isStored_iff_key header row).mpr stored
    have same_hash : row.blockHash = header.hash := congrArg Prod.fst stored
    simp [stored', stored, same_hash]
  · have stored' : isStored header row = false :=
      Bool.eq_false_iff.mpr fun is_stored => stored ((isStored_iff_key header row).mp is_stored)
    by_cases same_height : row.height = header.height
    · have other_hash : row.blockHash ≠ header.hash := fun same =>
        stored (by simp [BlockRow.key, same, same_height])
      simp [stored, stored', same_height, other_hash]
    · simp [stored, stored', same_height]

/-- The revived copy of the block is the one live row left at its height. -/
theorem sound_revive {table : Table} (sound : table.Sound) (pick : Pick BlockRow)
    (header : BlockHeader) : (revive pick table header).1.Sound :=
  sound.promote (header.hash, header.height) (BlockRow.adopt (some header.nextHash))
    BlockRow.orphan (fun _ => rfl) (fun _ => rfl) (fun _ => rfl) (revive_rows pick table header)

/-- What lines 150-161 do to one row: the walked ancestor is adopted, its siblings detached. -/
theorem adoptCurrent_rows (table : Table) (current : String) (height : Int)
    (next : Option String) :
    ((table.update (fun row => sqlNe row.blockHash (some current) && sqlEq row.height (some height))
        BlockRow.detach).update
      (fun row => sqlEq row.blockHash (some current) && sqlEq row.height (some height))
        (BlockRow.adopt next)).rows = table.rows.map fun row =>
      if row.key = (current, height) then row.adopt next
      else if row.height = height then row.detach else row := by
  simp only [Table.update_rows, List.map_map]
  apply List.map_congr_left
  intro row _
  by_cases own : row.key = (current, height)
  · have same_hash : row.blockHash = current := congrArg Prod.fst own
    have same_height : row.height = height := congrArg Prod.snd own
    simp [own, same_hash, same_height]
  · by_cases same_height : row.height = height
    · have other_hash : row.blockHash ≠ current := fun same =>
        own (by simp [BlockRow.key, same, same_height])
      simp [own, same_height, other_hash]
    · simp [own, same_height]

theorem AncestorWalk.sound_step (pick : Pick BlockRow) {walk : AncestorWalk}
    (sound : walk.table.Sound) : (step pick walk).table.Sound := by
  simp only [AncestorWalk.step, AncestorWalk.ofParent_table]
  refine Table.Sound.update ?_ (fun _ => rfl) fun _ => id
  cases at_hash : walk.prevBlockHash with
  | none => simpa [Table.update] using sound
  | some current =>
      cases at_height : walk.prevBlockHeight with
      | none => simpa [Table.update] using sound
      | some height =>
          exact sound.promote (current, height) (BlockRow.adopt walk.nextBlockHash)
            BlockRow.detach (fun _ => rfl) (fun _ => rfl) (fun _ => rfl)
            (adoptCurrent_rows walk.table current height walk.nextBlockHash)

theorem DescendantWalk.sound_step (pick : Pick BlockRow) {walk : DescendantWalk}
    (sound : walk.table.Sound) : (step pick walk).table.Sound :=
  sound.update (fun _ => rfl) fun _ live => by simp at live

theorem AncestorWalk.sound_run (pick : Pick BlockRow) {fuel : Nat} {walk final : AncestorWalk}
    (sound : walk.table.Sound) (finished : run pick fuel walk = some final) : final.table.Sound :=
  (WhileLoop.run_invariant (fun walk : AncestorWalk => walk.table.Sound)
    (fun _ sound _ => AncestorWalk.sound_step pick sound) sound finished).1

theorem DescendantWalk.sound_run (pick : Pick BlockRow) {fuel : Nat}
    {walk final : DescendantWalk} (sound : walk.table.Sound)
    (finished : run pick fuel walk = some final) : final.table.Sound :=
  (WhileLoop.run_invariant (fun walk : DescendantWalk => walk.table.Sound)
    (fun _ sound _ => DescendantWalk.sound_step pick sound) sound finished).1

/-! ## Whole calls and whole runs -/

theorem sound_validateAncestors {pick : Pick BlockRow} {fuel : Nat} {table : Table}
    {header : BlockHeader} {validated : Table} (sound : table.Sound)
    (finished : validateAncestors pick fuel table header = some validated) : validated.Sound := by
  obtain ⟨walk, walk_run, ends⟩ := validateAncestors_eq_some finished
  have walk_sound : walk.table.Sound :=
    AncestorWalk.sound_run pick (by rw [AncestorWalk.ofParent_table]; exact sound) walk_run
  rcases ends with ⟨_, rfl⟩ | ⟨_, descendants, descendants_run, rfl⟩
  · exact walk_sound
  · have orphaned_sound : (walk.table.update (fun row => sqlEq row.height walk.prevBlockHeight)
        BlockRow.orphan).Sound :=
      walk_sound.update (fun _ => rfl) fun _ live => by simp at live
    exact DescendantWalk.sound_run pick orphaned_sound descendants_run

/-- When the idempotency check finds no stored copy, no row has the block's key. -/
theorem revive_snd_eq_none {pick : Pick BlockRow} {table : Table} {header : BlockHeader}
    (none_stored : (revive pick table header).2 = none) :
    ∀ row ∈ table.rows, row.key ≠ (header.hash, header.height) := by
  simp only [revive, Option.map_eq_none_iff, Pick.choose_eq_none_iff, Table.returning,
    List.map_eq_nil_iff, List.filter_eq_nil_iff] at none_stored
  intro row member stored
  exact none_stored row member ((isStored_iff_key header row).mpr stored)

/-- A new block goes into a table where no row has its key and every row at its height has just
been orphaned. -/
theorem sound_insert_of_revive {pick : Pick BlockRow} {table : Table} {header : BlockHeader}
    (sound : table.Sound) (none_stored : (revive pick table header).2 = none) :
    ((revive pick table header).1.insert (newRow header)).Sound := by
  have absent := revive_snd_eq_none none_stored
  refine (sound_revive sound pick header).insert ?_ ?_
  · intro stored member
    rw [revive_rows] at member
    obtain ⟨source, source_member, rfl⟩ := List.mem_map.mp member
    have source_key := absent source source_member
    split_ifs <;> simpa [BlockRow.key, newRow] using source_key
  · intro stored member same_height
    rw [revive_rows] at member
    obtain ⟨source, source_member, rfl⟩ := List.mem_map.mp member
    have source_key := absent source source_member
    split_ifs at same_height ⊢ with own at_height
    · exact absurd own source_key
    · rfl
    · exact absurd same_height at_height

theorem sound_blockInsert {pick : Pick BlockRow} {fuel : Nat} {table : Table}
    {header : BlockHeader} {inRecover : Bool} {after : Table} {id : Nat} (sound : table.Sound)
    (insert : blockInsert pick fuel table header inRecover = some (.ok (after, id))) :
    after.Sound := by
  have linked_sound := sound_linkPrevious sound pick header
  obtain ⟨_, ⟨_, rfl⟩ | ⟨none_stored, _, ends⟩⟩ := blockInsert_eq_ok insert
  · exact sound_revive linked_sound pick header
  · have inserted_sound := sound_insert_of_revive linked_sound none_stored
    rcases ends with ⟨_, rfl⟩ | ⟨_, validate⟩
    · exact inserted_sound
    · exact sound_validateAncestors inserted_sound validate

theorem sound_of_reachable {tree : BlockTree} {recovers : Set Bool} {table : Table}
    (reach : Reachable tree recovers table) : table.Sound :=
  reach.induction Table.Sound Table.sound_empty
    fun _ _ _ _ _ _ _ _ _ sound insert => sound_blockInsert sound insert

/-- A list whose elements pairwise cannot both pass `test` has at most one element passing it. -/
private theorem length_filter_le_one {α : Type} {rows : List α} {test : α → Bool}
    (apart : rows.Pairwise fun row other => test row → test other → False) :
    (rows.filter test).length ≤ 1 := by
  have filtered : (rows.filter test).Pairwise fun _ _ => False :=
    List.pairwise_filter.mpr apart
  match rows.filter test, filtered with
  | [], _ => simp
  | [_], _ => simp
  | _ :: _ :: _, pairwise => exact absurd (List.rel_of_pairwise_cons pairwise List.mem_cons_self) id

theorem at_most_one_live_block_per_height {tree : BlockTree} {table : Table}
    (reach : Reachable tree Set.univ table) :
    (∀ height : Int,
      (table.rows.filter fun row => row.height == height && !row.isOrphaned).length ≤ 1) ∧
      ∀ (hash : String) (height : Int),
        (table.rows.filter fun row => row.blockHash == hash && row.height == height).length ≤ 1 := by
  have sound := sound_of_reachable reach
  constructor
  · intro height
    refine length_filter_le_one (sound.live_heights_distinct.imp ?_)
    intro row other distinct row_test other_test
    simp only [Bool.and_eq_true, beq_iff_eq, Bool.not_eq_true'] at row_test other_test
    exact distinct row_test.2 other_test.2 (row_test.1.trans other_test.1.symm)
  · intro hash height
    refine length_filter_le_one (sound.keys_distinct.imp ?_)
    intro row other distinct row_test other_test
    simp only [Bool.and_eq_true, beq_iff_eq] at row_test other_test
    exact distinct (by simp [BlockRow.key, row_test.1, row_test.2, other_test.1, other_test.2])

/-- A genesis block, its child and a competing child. -/
def forkAtOne : BlockTree :=
  BlockTree.ofList [⟨"g0", 0, "", "g1"⟩, ⟨"g1", 1, "g0", ""⟩, ⟨"f1", 1, "g0", ""⟩]
    (by decide) (by decide)

/-- The table after inserting the genesis block, its child, then the competing child. -/
def forkAtOneTable : Table :=
  ⟨[⟨1, "g0", 0, "", "f1", false⟩, ⟨2, "g1", 1, "g0", "", true⟩, ⟨3, "f1", 1, "g0", "", false⟩], 4⟩

theorem at_most_one_live_block_per_height_forkAtOne :
    Reachable forkAtOne Set.univ forkAtOneTable ∧
      (∀ height : Int, (forkAtOneTable.rows.filter fun row =>
        row.height == height && !row.isOrphaned).length ≤ 1) ∧
      ∀ (hash : String) (height : Int), (forkAtOneTable.rows.filter fun row =>
        row.blockHash == hash && row.height == height).length ≤ 1 := by
  have genesis : blockInsert Pick.first 1 Table.empty ⟨"g0", 0, "", "g1"⟩ false =
      some (.ok (⟨[⟨1, "g0", 0, "", "g1", false⟩], 2⟩, 1)) := by decide
  have child : blockInsert Pick.first 1 ⟨[⟨1, "g0", 0, "", "g1", false⟩], 2⟩
      ⟨"g1", 1, "g0", ""⟩ false =
        some (.ok (⟨[⟨1, "g0", 0, "", "g1", false⟩, ⟨2, "g1", 1, "g0", "", false⟩], 3⟩, 2)) := by
    decide
  have fork : blockInsert Pick.first 1
      ⟨[⟨1, "g0", 0, "", "g1", false⟩, ⟨2, "g1", 1, "g0", "", false⟩], 3⟩
      ⟨"f1", 1, "g0", ""⟩ false = some (.ok (forkAtOneTable, 3)) := by decide
  have reach : Reachable forkAtOne Set.univ forkAtOneTable :=
    (((Reachable.empty).step (BlockTree.mem_ofList.mpr (by decide)) (Set.mem_univ _) genesis).step
      (BlockTree.mem_ofList.mpr (by decide)) (Set.mem_univ _) child).step
      (BlockTree.mem_ofList.mpr (by decide)) (Set.mem_univ _) fork
  exact ⟨reach, at_most_one_live_block_per_height reach⟩

end Txo
end Coinquery
