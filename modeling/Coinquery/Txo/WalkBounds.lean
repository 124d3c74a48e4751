import Coinquery.Txo.Reachable

/-!
# Both loops of `block_insert` end

No statement of `block_insert` changes a row's `block_hash`, `height` or `last_block_hash`: the
table's links (`Table.links`) change only by the inserted row. On a reachable table every link is
a block of the tree (`Table.FromTree`), so a row's parent link names rows exactly one height lower.

The ancestor walk looks one height lower at each iteration and goes on only from a row it found,
so it ends within the heights below the new block. The descendant walk follows a child link at each
iteration, one height higher, so it ends within the heights of the table. Both bounds take the
heights of the table the loops run on, the new block's row included: measured by the table before
the call, the descendant walk below a block inserted under its stored child runs one iteration
more than the bound.
-/

namespace Coinquery
namespace Txo

open SelectInto

/-! ## Links -/

/-- The columns a row takes from its block: `block_hash`, `height` and `last_block_hash`. -/
def BlockRow.link (row : BlockRow) : String × Int × String :=
  (row.blockHash, row.height, row.lastBlockHash)

/-- The links of the stored rows, in table order. -/
def Table.links (table : Table) : List (String × Int × String) :=
  table.rows.map BlockRow.link

/-- The link of the row `block_insert` stores for a block. -/
def BlockHeader.link (header : BlockHeader) : String × Int × String :=
  (header.hash, header.height, header.prevHash)

@[simp]
theorem BlockRow.link_orphan (row : BlockRow) : row.orphan.link = row.link := rfl

@[simp]
theorem BlockRow.link_detach (row : BlockRow) : row.detach.link = row.link := rfl

@[simp]
theorem BlockRow.link_setNext (next : Option String) (row : BlockRow) :
    (row.setNext next).link = row.link := rfl

@[simp]
theorem BlockRow.link_adopt (next : Option String) (row : BlockRow) :
    (row.adopt next).link = row.link := rfl

/-- An `UPDATE` that assigns only `next_block_hash` and `is_orphaned` keeps the links. -/
theorem Table.links_update (table : Table) (cond : BlockRow → Bool) {set : BlockRow → BlockRow}
    (keeps : ∀ row, (set row).link = row.link) : (table.update cond set).links = table.links := by
  rw [links, update_rows, List.map_map]
  refine List.map_congr_left fun row _ => ?_
  by_cases chosen : cond row <;> simp [chosen, keeps]

theorem Table.links_insert (table : Table) (header : BlockHeader) :
    (table.insert (newRow header)).links = table.links ++ [header.link] := by
  simp [links, insert_rows, newRow, BlockRow.link, BlockHeader.link]

theorem link_mem_links {table : Table} {row : BlockRow} (member : row ∈ table.rows) :
    row.link ∈ table.links :=
  List.mem_map_of_mem member

/-- A row that `UPDATE … RETURNING` yields carries the link of a stored row. -/
theorem link_mem_of_mem_returning {table : Table} {cond : BlockRow → Bool}
    {set : BlockRow → BlockRow} (keeps : ∀ row, (set row).link = row.link) {row : BlockRow}
    (member : row ∈ table.returning cond set) : row.link ∈ table.links := by
  obtain ⟨stored, in_filter, rfl⟩ := List.mem_map.mp member
  rw [keeps]
  exact link_mem_links (List.mem_filter.mp in_filter).1

theorem links_linkPrevious (pick : Pick BlockRow) (table : Table) (header : BlockHeader) :
    (linkPrevious pick table header).links = table.links := by
  unfold linkPrevious
  split
  · exact Table.links_update _ _ (BlockRow.link_setNext _)
  · rfl

theorem links_revive (pick : Pick BlockRow) (table : Table) (header : BlockHeader) :
    (revive pick table header).1.links = table.links := by
  rw [revive, Table.links_update _ _ BlockRow.link_orphan,
    Table.links_update _ _ (BlockRow.link_adopt _)]

/-! ## The walks keep the links -/

/-- The first `UPDATE`s of an ancestor step keep the links; `ofParent` keeps the table. -/
theorem AncestorWalk.links_step (pick : Pick BlockRow) (walk : AncestorWalk) :
    (step pick walk).table.links = walk.table.links := by
  rw [step, ofParent_table, Table.links_update _ _ (BlockRow.link_setNext _),
    Table.links_update _ _ (BlockRow.link_adopt _), Table.links_update _ _ BlockRow.link_detach]

theorem DescendantWalk.links_step (pick : Pick BlockRow) (walk : DescendantWalk) :
    (step pick walk).table.links = walk.table.links :=
  Table.links_update _ _ BlockRow.link_orphan

theorem links_validateAncestors {pick : Pick BlockRow} {fuel : Nat} {table : Table}
    {header : BlockHeader} {validated : Table}
    (finished : validateAncestors pick fuel table header = some validated) :
    validated.links = table.links := by
  obtain ⟨walk, walk_run, ends⟩ := validateAncestors_eq_some finished
  have walk_links := (WhileLoop.run_invariant (fun walk : AncestorWalk => walk.table.links = table.links)
    (fun walk same _ => (AncestorWalk.links_step pick walk).trans same) (by simp) walk_run).1
  rcases ends with ⟨-, rfl⟩ | ⟨-, descendants, descendants_run, rfl⟩
  · exact walk_links
  · refine (WhileLoop.run_invariant (fun walk : DescendantWalk => walk.table.links = table.links)
      (fun walk same _ => (DescendantWalk.links_step pick walk).trans same) ?_ descendants_run).1
    exact (Table.links_update _ _ BlockRow.link_orphan).trans walk_links

/-- A completed call adds the block's link or nothing. -/
theorem links_blockInsert {pick : Pick BlockRow} {fuel : Nat} {table : Table}
    {header : BlockHeader} {inRecover : Bool} {after : Table} {id : Nat}
    (insert : blockInsert pick fuel table header inRecover = some (.ok (after, id))) :
    after.links = table.links ∨ after.links = table.links ++ [header.link] := by
  have revived_links : (revive pick (linkPrevious pick table header) header).1.links = table.links :=
    (links_revive _ _ _).trans (links_linkPrevious _ _ _)
  obtain ⟨-, stored | ⟨-, -, inserted⟩⟩ := blockInsert_eq_ok insert
  · exact .inl (stored.2 ▸ revived_links)
  · right
    rcases inserted with ⟨-, rfl⟩ | ⟨-, validated⟩
    · rw [Table.links_insert, revived_links]
    · rw [links_validateAncestors validated, Table.links_insert, revived_links]

/-! ## Links come from the tree -/

/-- Every link is the link of a block of the tree. -/
def Table.FromTree (tree : BlockTree) (links : List (String × Int × String)) : Prop :=
  ∀ link ∈ links, ∃ block ∈ tree.blocks, link = block.link

theorem fromTree_of_reachable {tree : BlockTree} {recovers : Set Bool} {table : Table}
    (reach : Reachable tree recovers table) : Table.FromTree tree table.links := by
  refine Reachable.induction (fun table => Table.FromTree tree table.links) ?_ ?_ reach
  · intro link member
    exact absurd member List.not_mem_nil
  · intro pick fuel before after header inRecover id member _ from_tree insert link link_member
    rcases links_blockInsert insert with same | added
    · exact from_tree link (same ▸ link_member)
    · rw [added] at link_member
      rcases List.mem_append.mp link_member with old | new
      · exact from_tree link old
      · exact ⟨header, member, List.mem_singleton.mp new⟩

/-- Links of one hash sit at one height. -/
theorem Table.FromTree.height_eq {tree : BlockTree} {links : List (String × Int × String)}
    (from_tree : Table.FromTree tree links) {link other : String × Int × String}
    (link_mem : link ∈ links) (other_mem : other ∈ links) (same : link.1 = other.1) :
    link.2.1 = other.2.1 := by
  obtain ⟨block, block_mem, rfl⟩ := from_tree link link_mem
  obtain ⟨block', block_mem', rfl⟩ := from_tree other other_mem
  exact (tree.hash_injective block_mem block_mem' same).1

/-- A link whose parent hash names a stored hash sits one height above it. -/
theorem Table.FromTree.child_height {tree : BlockTree} {links : List (String × Int × String)}
    (from_tree : Table.FromTree tree links) {parent child : String × Int × String}
    (parent_mem : parent ∈ links) (child_mem : child ∈ links) (linked : child.2.2 = parent.1) :
    child.2.1 = parent.2.1 + 1 := by
  obtain ⟨block, block_mem, rfl⟩ := from_tree parent parent_mem
  obtain ⟨block', block_mem', rfl⟩ := from_tree child child_mem
  exact tree.parent_height block_mem block_mem' linked

/-! ## Where the walks start -/

/-- The ancestor walk's variables at the loop (lines 127-141): the new block's parent looked up by
its hash, and the new block's hash handed on. -/
def ancestorStart (pick : Pick BlockRow) (table : Table) (header : BlockHeader) : AncestorWalk :=
  AncestorWalk.ofParent table (some header.hash) (some header.height)
    (pick.choose (table.rows.filter fun row => row.blockHash == header.prevHash))

/-- The descendant walk's variables at its loop (lines 180-187): the height below the last walked
block orphaned, the walk starting from that block. -/
def descendantStart (walk : AncestorWalk) : DescendantWalk :=
  ⟨walk.table.update (fun row => sqlEq row.height walk.prevBlockHeight) BlockRow.orphan,
    walk.nextBlockHash⟩

/-- The table both walks run on: the previous block relinked, a stored copy revived, and the new
row inserted. -/
def insertedTable (pick : Pick BlockRow) (table : Table) (header : BlockHeader) : Table :=
  (revive pick (linkPrevious pick table header) header).1.insert (newRow header)

theorem validateAncestors_eq (pick : Pick BlockRow) (fuel : Nat) (table : Table)
    (header : BlockHeader) :
    validateAncestors pick fuel table header =
      (AncestorWalk.run pick fuel (ancestorStart pick table header)).bind fun walk =>
        if walk.missingAncestor then
          (DescendantWalk.run pick fuel (descendantStart walk)).bind fun descendants =>
            some descendants.table
        else some walk.table :=
  rfl

theorem links_insertedTable (pick : Pick BlockRow) (table : Table) (header : BlockHeader) :
    (insertedTable pick table header).links = table.links ++ [header.link] := by
  rw [insertedTable, Table.links_insert, links_revive, links_linkPrevious]

/-! ## The ancestor walk -/

namespace AncestorWalk

/-- What the ancestor walk keeps over a table of links `links`: the links, a stored hash as the
next hash, and, while no ancestor is missing, a stored row at the height it looks at next. -/
structure Keeps (links : List (String × Int × String)) (walk : AncestorWalk) : Prop where
  links_eq : walk.table.links = links
  next_stored : ∀ hash, walk.nextBlockHash = some hash → ∃ link ∈ links, link.1 = hash
  found : walk.missingAncestor = false → ∃ link ∈ links, walk.prevBlockHeight = some link.2.1

theorem ofParent_found {table : Table} {next : Option String} {height : Option Int}
    {parent : Option BlockRow} (found : (ofParent table next height parent).missingAncestor = false) :
    ∃ row, parent = some row ∧ (ofParent table next height parent).prevBlockHeight = some row.height := by
  cases parent with
  | none => simp [ofParent] at found
  | some row => exact ⟨row, rfl, rfl⟩

@[simp]
theorem nextBlockHash_ofParent (table : Table) (next : Option String) (height : Option Int)
    (parent : Option BlockRow) : (ofParent table next height parent).nextBlockHash = next := by
  cases parent <;> rfl

theorem prevBlockHeight_ofParent {table : Table} {next : Option String} {height : Option Int}
    {parent : Option BlockRow} (below : ∀ row, parent = some row → height.map (· - 1) = some row.height) :
    (ofParent table next height parent).prevBlockHeight = height.map (· - 1) := by
  cases parent with
  | none => rfl
  | some row => exact (below row rfl).symm

/-- A row the parent lookup returns is stored, one height below the looked-up height. -/
theorem mem_returning_parent {table : Table} {hash : Option String} {height : Option Int}
    {next : Option String} {row : BlockRow}
    (member : row ∈ table.returning (fun row => sqlEq row.blockHash hash && sqlEq row.height height)
      (BlockRow.setNext next)) :
    row.link ∈ table.links ∧ height = some row.height := by
  refine ⟨link_mem_of_mem_returning (BlockRow.link_setNext next) member, ?_⟩
  obtain ⟨stored, in_filter, rfl⟩ := List.mem_map.mp member
  have matched := (List.mem_filter.mp in_filter).2
  simp only [Bool.and_eq_true, sqlEq, beq_iff_eq] at matched
  exact matched.2

/-- Each step looks one height lower. -/
theorem prevBlockHeight_step (pick : Pick BlockRow) (walk : AncestorWalk) :
    (step pick walk).prevBlockHeight = walk.prevBlockHeight.map (· - 1) :=
  prevBlockHeight_ofParent fun _ chosen => (mem_returning_parent (pick.choose_mem chosen)).2

theorem keeps_step (pick : Pick BlockRow) {links : List (String × Int × String)} {walk : AncestorWalk}
    (keeps : walk.Keeps links) : (step pick walk).Keeps links := by
  refine ⟨(links_step pick walk).trans keeps.links_eq, ?_, ?_⟩
  · -- the next hash is the walked row's
    intro hash next
    simp only [step, nextBlockHash_ofParent] at next
    obtain ⟨current, chosen, rfl⟩ := Option.map_eq_some_iff.mp next
    refine ⟨current.link, ?_, rfl⟩
    have stored := link_mem_of_mem_returning (BlockRow.link_adopt _) (pick.choose_mem chosen)
    rwa [Table.links_update _ _ BlockRow.link_detach, keeps.links_eq] at stored
  · -- a found parent is a stored row
    intro found
    obtain ⟨parent, chosen, height_eq⟩ := ofParent_found found
    have stored := (mem_returning_parent (pick.choose_mem chosen)).1
    rw [Table.links_update _ _ (BlockRow.link_adopt _), Table.links_update _ _ BlockRow.link_detach,
      keeps.links_eq] at stored
    exact ⟨parent.link, stored, height_eq⟩

/-- From a height `h` no lower than the stored heights, the walk ends within `h - hmin + 1`
iterations, keeping its invariant. -/
theorem run_bounded (pick : Pick BlockRow) {links : List (String × Int × String)} {hmin : Int}
    (lower : ∀ link ∈ links, hmin ≤ link.2.1) {walk : AncestorWalk} (keeps : walk.Keeps links)
    {height : Int} (start : walk.prevBlockHeight = some height) {fuel : Nat}
    (room : (height - hmin + 1).toNat ≤ fuel) :
    ∃ final, run pick fuel walk = some final ∧ final.Keeps links := by
  -- the measure is the number of heights left down to `hmin`
  let measure : AncestorWalk → Nat := fun walk => walk.prevBlockHeight.elim 0 fun h => (h - hmin + 1).toNat
  have decrease : ∀ walk : AncestorWalk, walk.Keeps links → continues walk = true →
      measure (step pick walk) < measure walk := by
    intro walk keeps go
    have no_missing : walk.missingAncestor = false := by
      simp only [continues, Bool.and_eq_true, Bool.not_eq_true'] at go
      exact go.1
    obtain ⟨link, stored, at_height⟩ := keeps.found no_missing
    have above := lower link stored
    simp only [measure, prevBlockHeight_step, at_height, Option.map_some, Option.elim_some]
    omega
  have finishes := WhileLoop.run_isSome_of_measure (Keeps links) measure (fun walk keeps _ =>
    keeps_step pick keeps) decrease keeps (by simpa [measure, start] using room)
  obtain ⟨final, finished⟩ := Option.isSome_iff_exists.mp finishes
  exact ⟨final, finished, (WhileLoop.run_invariant (Keeps links) (fun walk keeps _ =>
    keeps_step pick keeps) keeps finished).1⟩

end AncestorWalk

/-! ## The descendant walk -/

namespace DescendantWalk

/-- What the descendant walk keeps: the links, and a stored hash as the next hash. -/
structure Keeps (links : List (String × Int × String)) (walk : DescendantWalk) : Prop where
  links_eq : walk.table.links = links
  next_stored : ∀ hash, walk.nextBlockHash = some hash → ∃ link ∈ links, link.1 = hash

/-- The child a step moves to is stored, and its parent hash is the hash it left. -/
theorem step_child (pick : Pick BlockRow) (walk : DescendantWalk) {hash : String}
    (moved : (step pick walk).nextBlockHash = some hash) :
    ∃ link ∈ walk.table.links, link.1 = hash ∧ walk.nextBlockHash = some link.2.2 := by
  obtain ⟨child, chosen, rfl⟩ := Option.map_eq_some_iff.mp moved
  have in_filter := List.mem_filter.mp (pick.choose_mem chosen)
  have stored := link_mem_links in_filter.1
  rw [Table.links_update _ _ BlockRow.link_orphan] at stored
  refine ⟨child.link, stored, rfl, ?_⟩
  have linked := in_filter.2
  simp only [sqlEq, beq_iff_eq] at linked
  exact linked

theorem keeps_step (pick : Pick BlockRow) {links : List (String × Int × String)}
    {walk : DescendantWalk} (keeps : walk.Keeps links) : (step pick walk).Keeps links := by
  refine ⟨(links_step pick walk).trans keeps.links_eq, fun hash moved => ?_⟩
  obtain ⟨link, stored, named, -⟩ := step_child pick walk moved
  exact ⟨link, keeps.links_eq ▸ stored, named⟩

/-- The heights from the stored row of `hash` up to `hmax`. -/
def heightsAbove (links : List (String × Int × String)) (hmax : Int) (hash : String) : Nat :=
  match links.find? (fun link => link.1 == hash) with
  | some link => (hmax - link.2.1 + 1).toNat
  | none => 0

theorem heightsAbove_eq {tree : BlockTree} {links : List (String × Int × String)}
    (from_tree : Table.FromTree tree links) (hmax : Int) {link : String × Int × String}
    (stored : link ∈ links) : heightsAbove links hmax link.1 = (hmax - link.2.1 + 1).toNat := by
  have found_some : (links.find? fun other => other.1 == link.1).isSome :=
    List.find?_isSome.mpr ⟨link, stored, by simp⟩
  obtain ⟨found, found_eq⟩ := Option.isSome_iff_exists.mp found_some
  have found_hash : found.1 = link.1 := by simpa using List.find?_some found_eq
  rw [heightsAbove, found_eq]
  dsimp only
  rw [from_tree.height_eq (List.mem_of_find?_eq_some found_eq) stored found_hash]

/-- From a stored row, the walk ends within the heights from it up to `hmax`, whichever child each
step keeps. -/
theorem run_bounded (pick : Pick BlockRow) {tree : BlockTree} {links : List (String × Int × String)}
    (from_tree : Table.FromTree tree links) {hmax : Int} (upper : ∀ link ∈ links, link.2.1 ≤ hmax)
    {walk : DescendantWalk} (keeps : walk.Keeps links) {fuel : Nat}
    (room : walk.nextBlockHash.elim 0 (heightsAbove links hmax) ≤ fuel) :
    (run pick fuel walk).isSome := by
  -- the measure is the number of heights left up to `hmax`; a step moves one height up
  refine WhileLoop.run_isSome_of_measure (Keeps links)
    (fun walk => walk.nextBlockHash.elim 0 (heightsAbove links hmax))
    (fun walk keeps _ => keeps_step pick keeps) ?_ keeps room
  intro walk keeps go
  obtain ⟨hash, next⟩ := Option.isSome_iff_exists.mp go
  obtain ⟨link, stored, rfl⟩ := keeps.next_stored hash next
  have below := upper link stored
  rw [next, Option.elim_some, heightsAbove_eq from_tree hmax stored]
  cases moved : (step pick walk).nextBlockHash with
  | none =>
      simp only [Option.elim_none]
      omega
  | some child =>
      obtain ⟨childLink, childStored, rfl, linked⟩ := step_child pick walk moved
      rw [next, Option.some.injEq] at linked
      have up := from_tree.child_height stored (keeps.links_eq ▸ childStored) linked.symm
      rw [Option.elim_some, heightsAbove_eq from_tree hmax (keeps.links_eq ▸ childStored), up]
      omega

end DescendantWalk

/-! ## Both walks end -/

/-- The walk starts below the new block, at its parent's height, from the new block's hash. -/
theorem ancestorStart_keeps {tree : BlockTree} {table : Table}
    (from_tree : Table.FromTree tree table.links) {header : BlockHeader}
    (stored : header.link ∈ table.links) (pick : Pick BlockRow) :
    (ancestorStart pick table header).Keeps table.links ∧
      (ancestorStart pick table header).prevBlockHeight = some (header.height - 1) := by
  refine ⟨⟨congrArg Table.links (AncestorWalk.ofParent_table _ _ _ _), ?_, ?_⟩, ?_⟩
  · intro hash next
    rw [ancestorStart, AncestorWalk.nextBlockHash_ofParent, Option.some.injEq] at next
    exact ⟨header.link, stored, next⟩
  · intro found
    obtain ⟨parent, chosen, height_eq⟩ := AncestorWalk.ofParent_found found
    exact ⟨parent.link, link_mem_links (List.mem_filter.mp (pick.choose_mem chosen)).1, height_eq⟩
  · -- a parent found by its hash is the tree's parent, one height lower
    refine AncestorWalk.prevBlockHeight_ofParent fun parent chosen => ?_
    have in_filter := List.mem_filter.mp (pick.choose_mem chosen)
    have linked : header.prevHash = parent.blockHash := (beq_iff_eq.mp in_filter.2).symm
    have up := from_tree.child_height (link_mem_links in_filter.1) stored linked
    simp only [BlockHeader.link, BlockRow.link] at up
    simp only [Option.map_some, Option.some.injEq]
    omega

/-- The descendant walk after any ancestor walk ends within the heights of the table: it starts
from a stored row, no lower than `hmin`. -/
theorem descendantStart_run (pick : Pick BlockRow) {tree : BlockTree}
    {links : List (String × Int × String)} (from_tree : Table.FromTree tree links) {hmin hmax : Int}
    (bounds : ∀ link ∈ links, hmin ≤ link.2.1 ∧ link.2.1 ≤ hmax) {walk : AncestorWalk}
    (keeps : walk.Keeps links) :
    (DescendantWalk.run pick (hmax - hmin + 1).toNat (descendantStart walk)).isSome := by
  refine DescendantWalk.run_bounded pick from_tree (fun link stored => (bounds link stored).2)
    ⟨(Table.links_update _ _ BlockRow.link_orphan).trans keeps.links_eq, keeps.next_stored⟩ ?_
  cases next : walk.nextBlockHash with
  | none => simp [descendantStart, next]
  | some hash =>
      obtain ⟨link, link_mem, rfl⟩ := keeps.next_stored _ next
      have above := (bounds link link_mem).1
      simp only [descendantStart, next, Option.elim_some,
        DescendantWalk.heightsAbove_eq from_tree hmax link_mem]
      omega

/-- What a reachable table and a block of its tree give the walks: the links of the table they
run on come from the tree, the block's among them, within the bounds on its heights. -/
theorem insertedTable_links {tree : BlockTree} {recovers : Set Bool} {table : Table}
    (reach : Reachable tree recovers table) {header : BlockHeader} (member : header ∈ tree.blocks)
    (pick : Pick BlockRow) {hmin hmax : Int}
    (lower : ∀ row ∈ (insertedTable pick table header).rows, hmin ≤ row.height)
    (upper : ∀ row ∈ (insertedTable pick table header).rows, row.height ≤ hmax) :
    Table.FromTree tree (insertedTable pick table header).links ∧
      header.link ∈ (insertedTable pick table header).links ∧
      ∀ link ∈ (insertedTable pick table header).links, hmin ≤ link.2.1 ∧ link.2.1 ≤ hmax := by
  refine ⟨?_, ?_, ?_⟩
  · rw [links_insertedTable]
    intro link link_mem
    rcases List.mem_append.mp link_mem with old | new
    · exact fromTree_of_reachable reach link old
    · exact ⟨header, member, List.mem_singleton.mp new⟩
  · rw [links_insertedTable]
    exact List.mem_append_right _ (List.mem_singleton_self _)
  · intro link link_mem
    obtain ⟨row, row_mem, rfl⟩ := List.mem_map.mp link_mem
    exact ⟨lower row row_mem, upper row row_mem⟩

/-- On a table reachable by `block_insert` calls, whatever rows each `SELECT INTO` keeps, the
ancestor walk below a block of the tree ends within `height - hmin + 1` iterations and the
descendant walk after it within `hmax - hmin + 1`, for bounds on the heights of the table the
loops run on. -/
theorem block_insert_walks_end {tree : BlockTree} {recovers : Set Bool} {table : Table}
    (reach : Reachable tree recovers table) {header : BlockHeader} (member : header ∈ tree.blocks)
    (pick : Pick BlockRow) {hmin hmax : Int}
    (lower : ∀ row ∈ (insertedTable pick table header).rows, hmin ≤ row.height)
    (upper : ∀ row ∈ (insertedTable pick table header).rows, row.height ≤ hmax) :
    ∃ walk, AncestorWalk.run pick (header.height - hmin + 1).toNat
        (ancestorStart pick (insertedTable pick table header) header) = some walk ∧
      (DescendantWalk.run pick (hmax - hmin + 1).toNat (descendantStart walk)).isSome := by
  obtain ⟨from_tree, stored, bounds⟩ := insertedTable_links reach member pick lower upper
  obtain ⟨keeps, start⟩ := ancestorStart_keeps from_tree stored pick
  obtain ⟨walk, walked, walk_keeps⟩ := AncestorWalk.run_bounded pick (fun link stored => (bounds link stored).1)
    keeps start (show (header.height - 1 - hmin + 1).toNat ≤ (header.height - hmin + 1).toNat by omega)
  exact ⟨walk, walked, descendantStart_run pick from_tree bounds walk_keeps⟩

/-- A block `b` at height 0 and its child `c`; `b`'s parent is not in the tree. -/
def childFirstTree : BlockTree :=
  BlockTree.ofList [⟨"b", 0, "a", "c"⟩, ⟨"c", 1, "b", ""⟩] (by decide) (by decide)

/-- The table after `c` alone. -/
def childFirstTable : Table :=
  ⟨[⟨1, "c", 1, "b", "", false⟩], 2⟩

theorem childFirstTable_reachable : Reachable childFirstTree {true} childFirstTable :=
  Reachable.empty.step (BlockTree.mem_ofList.mpr (by decide)) rfl
    (show blockInsert Pick.first 1 Table.empty ⟨"c", 1, "b", ""⟩ true =
      some (.ok (childFirstTable, 1)) by decide)

theorem block_insert_walks_end_childFirst :
    (Reachable childFirstTree {true} childFirstTable ∧ ⟨"b", 0, "a", "c"⟩ ∈ childFirstTree.blocks ∧
      (∀ row ∈ (insertedTable Pick.first childFirstTable ⟨"b", 0, "a", "c"⟩).rows, 0 ≤ row.height) ∧
      ∀ row ∈ (insertedTable Pick.first childFirstTable ⟨"b", 0, "a", "c"⟩).rows, row.height ≤ 1) ∧
    ∃ walk, AncestorWalk.run Pick.first ((0 : Int) - 0 + 1).toNat
        (ancestorStart Pick.first (insertedTable Pick.first childFirstTable ⟨"b", 0, "a", "c"⟩)
          ⟨"b", 0, "a", "c"⟩) = some walk ∧
      (DescendantWalk.run Pick.first ((1 : Int) - 0 + 1).toNat (descendantStart walk)).isSome :=
  ⟨⟨childFirstTable_reachable, BlockTree.mem_ofList.mpr (by decide), by decide, by decide⟩,
    @block_insert_walks_end childFirstTree {true} childFirstTable childFirstTable_reachable
      ⟨"b", 0, "a", "c"⟩ (BlockTree.mem_ofList.mpr (by decide)) Pick.first 0 1 (by decide) (by decide)⟩

/-- Measured by the table before the call, whose heights are all 1, the bounds are `0 - 1 + 1`
iterations for the ancestor walk and `1 - 1 + 1` for the descendant walk. Inserted under its
stored child with `in_recover`, `b` makes the descendant walk orphan `b` and then `c`: two
iterations, and the call with room for one does not end. -/
theorem descendant_walk_exceeds_stored_heights :
    Reachable childFirstTree {true} childFirstTable ∧ childFirstTable.rows.map (·.height) = [1] ∧
      ∃ walk, AncestorWalk.run Pick.first ((0 : Int) - 1 + 1).toNat
          (ancestorStart Pick.first (insertedTable Pick.first childFirstTable ⟨"b", 0, "a", "c"⟩)
            ⟨"b", 0, "a", "c"⟩) = some walk ∧
        DescendantWalk.run Pick.first ((1 : Int) - 1 + 1).toNat (descendantStart walk) = none ∧
        blockInsert Pick.first ((1 : Int) - 1 + 1).toNat childFirstTable ⟨"b", 0, "a", "c"⟩ true = none :=
  ⟨childFirstTable_reachable, rfl, _, rfl, by decide, by decide⟩

/-- A call on a reachable table ends once its fuel covers the heights of the table its loops run
on. -/
theorem blockInsert_isSome {tree : BlockTree} {recovers : Set Bool} {table : Table}
    (reach : Reachable tree recovers table) {header : BlockHeader} (member : header ∈ tree.blocks)
    (pick : Pick BlockRow) (inRecover : Bool) {hmin hmax : Int}
    (lower : ∀ row ∈ (insertedTable pick table header).rows, hmin ≤ row.height)
    (upper : ∀ row ∈ (insertedTable pick table header).rows, row.height ≤ hmax) :
    (blockInsert pick (hmax - hmin + 1).toNat table header inRecover).isSome := by
  obtain ⟨from_tree, stored, bounds⟩ := insertedTable_links reach member pick lower upper
  obtain ⟨keeps, start⟩ := ancestorStart_keeps from_tree stored pick
  have top := (bounds _ stored).2
  obtain ⟨walk, walked, walk_keeps⟩ := AncestorWalk.run_bounded pick (fun link stored => (bounds link stored).1)
    keeps start (show (header.height - 1 - hmin + 1).toNat ≤ (hmax - hmin + 1).toNat by
      simp only [BlockHeader.link] at top
      omega)
  have descends := descendantStart_run pick from_tree bounds walk_keeps
  unfold blockInsert
  split
  · rfl
  · split
    · rfl
    · rename_i revived revive_eq
      have inserted : revived.insert (newRow header) = insertedTable pick table header := by
        rw [insertedTable, revive_eq]
      split
      · dsimp only
        rw [inserted, validateAncestors_eq, walked]
        obtain ⟨descendants, descended⟩ := Option.isSome_iff_exists.mp descends
        by_cases missing : walk.missingAncestor <;> simp [missing, descended]
      · rfl

/-- `b` inserted with `in_recover` under its stored child `c`, with room for the heights `0` and
`1` of the table the loops run on. -/
theorem blockInsert_isSome_childFirst :
    (Reachable childFirstTree {true} childFirstTable ∧ ⟨"b", 0, "a", "c"⟩ ∈ childFirstTree.blocks ∧
      (∀ row ∈ (insertedTable Pick.first childFirstTable ⟨"b", 0, "a", "c"⟩).rows, 0 ≤ row.height) ∧
      ∀ row ∈ (insertedTable Pick.first childFirstTable ⟨"b", 0, "a", "c"⟩).rows, row.height ≤ 1) ∧
    (blockInsert Pick.first ((1 : Int) - 0 + 1).toNat childFirstTable ⟨"b", 0, "a", "c"⟩ true).isSome :=
  ⟨⟨childFirstTable_reachable, BlockTree.mem_ofList.mpr (by decide), by decide, by decide⟩,
    blockInsert_isSome childFirstTable_reachable (BlockTree.mem_ofList.mpr (by decide)) Pick.first true
      (by decide) (by decide)⟩

end Txo
end Coinquery
