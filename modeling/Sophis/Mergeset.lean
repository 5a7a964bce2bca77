import Sophis.Ghostdag

namespace Sophis

open GhostdagManager List ParentDag SortableBlock

/-!
# Mergesets

`consensus/src/processes/ghostdag/mergeset.rs` and `ordering.rs`: the search
from the parents of a block finds exactly what they bring into its past besides
the past of the selected parent, and sorting puts it in order.
-/

namespace HeaderDag

variable {network : HeaderDag} {store : GhostdagStore}
  {service : Hash → Hash → Bool} {parents : List Hash}
  {selectedParent : Hash}

/-- What the search keeps while it visits the parents of a block: everything
found belongs to the mergeset, and whatever is neither queued nor being visited
has its parents found or in the past of the selected parent. -/
structure SearchInvariant (network : HeaderDag) (parents : List Hash)
    (selectedParent : Hash) (visiting : Hash → Prop)
    (search : MergesetSearch) : Prop where
  queued : ∀ block ∈ search.queue, block ∈ search.mergeset
  sound : ∀ block ∈ search.mergeset,
    network.InPast parents block ∧ ¬ network.Below block selectedParent
  past_below : ∀ block ∈ search.past, network.Below block selectedParent
  expanded : ∀ block ∈ search.mergeset, visiting block ∨ block ∈ search.queue ∨
    ∀ parent ∈ network.parents block, parent ∈ search.mergeset ∨ network.Below parent selectedParent
  started : ∀ parent ∈ parents, parent ≠ selectedParent → parent ∈ search.mergeset
  nodup : search.mergeset.Nodup

/-- How often the search can still take a block from its queue. -/
def searchMeasure (store : GhostdagStore) (search : MergesetSearch) : Nat := search.queue.length +
    (store.blocks.filter fun block => block ∉ search.mergeset).length

/-- What holds after some parents were visited. -/
structure Visited (network : HeaderDag) (store : GhostdagStore)
    (parents : List Hash) (selectedParent : Hash) (visiting : Hash → Prop)
    (visited : List Hash) (before after : MergesetSearch) : Prop where
  invariant : SearchInvariant network parents selectedParent visiting after
  grown : ∀ block ∈ before.mergeset, block ∈ after.mergeset
  found : ∀ parent ∈ visited, parent ∈ after.mergeset ∨ network.Below parent selectedParent
  measure_le : searchMeasure store after ≤ searchMeasure store before

theorem unfound_lt {mergeset : List Hash} {block : Hash} (known : block ∈ store.blocks)
    (new : block ∉ mergeset) :
    (store.blocks.filter fun other => other ∉ block :: mergeset).length <
      (store.blocks.filter fun other => other ∉ mergeset).length := by
  have split : (store.blocks.filter fun other => other ∉ block :: mergeset) =
      (store.blocks.filter fun other => other ∉ mergeset).filter fun other => other ≠ block := by
    rw [List.filter_filter]
    refine filter_congr fun other _ => ?_
    simp [not_or]
  rw [split, length_filter_lt_length_iff_exists]
  exact ⟨block, mem_filter.mpr ⟨known, by simpa using new⟩, by simp⟩

variable {visiting : Hash → Prop} {search : MergesetSearch}

section

variable (invariant : SearchInvariant network parents selectedParent visiting search)
  (exact : network.Exact store service) (selectedKnown : selectedParent ∈ store.blocks)
include invariant exact selectedKnown

theorem SearchInvariant.visitParent {parent : Hash} (known : parent ∈ store.blocks)
    (inPast : network.InPast parents parent) :
    Visited network store parents selectedParent visiting [parent] search
      ((network.manager store service).visitParent selectedParent search parent) := by
  rw [GhostdagManager.visitParent]
  split
  · next already =>
    refine ⟨invariant, fun _ mem => mem, ?_, Nat.le_refl _⟩
    rw [forall_mem_singleton]
    exact already.imp_right (invariant.past_below parent)
  · next new =>
    rw [not_or] at new
    split
    · next below =>
      have isBelow := (exact parent known selectedParent selectedKnown).mp below
      refine ⟨{ invariant with past_below := ?_ }, fun _ mem => mem, ?_, Nat.le_refl _⟩
      · exact forall_mem_cons.mpr ⟨isBelow, invariant.past_below⟩
      · rw [forall_mem_singleton]
        exact .inr isBelow
    · next notBelow =>
      have isApart : ¬ network.Below parent selectedParent :=
        fun below => notBelow ((exact parent known selectedParent selectedKnown).mpr below)
      refine ⟨⟨?_, ?_, invariant.past_below, ?_, ?_, ?_⟩,
        fun _ mem => mem_cons_of_mem _ mem, ?_, ?_⟩
      · intro block mem
        rcases mem_append.mp mem with old | isNew
        · exact mem_cons_of_mem _ (invariant.queued block old)
        · exact mem_singleton.mp isNew ▸ mem_cons_self
      · exact forall_mem_cons.mpr ⟨⟨inPast, isApart⟩, invariant.sound⟩
      · intro block mem
        rcases mem_cons.mp mem with rfl | old
        · exact .inr (.inl (mem_append_right _ (mem_singleton_self _)))
        · refine (invariant.expanded block old).imp_right ?_
          rintro (isQueued | isExpanded)
          · exact .inl (mem_append_left _ isQueued)
          · exact .inr fun other edge =>
            (isExpanded other edge).imp_left (mem_cons_of_mem _)
      · intro other edge ne
        exact mem_cons_of_mem _ (invariant.started other edge ne)
      · exact List.nodup_cons.mpr ⟨new.1, invariant.nodup⟩
      · rw [forall_mem_singleton]
        exact .inl mem_cons_self
      · have fewer := unfound_lt known new.1
        simp only [searchMeasure, length_append, length_singleton]
        omega

theorem SearchInvariant.visitParents {visited : List Hash}
    (known : ∀ parent ∈ visited, parent ∈ store.blocks)
    (inPast : ∀ parent ∈ visited, network.InPast parents parent) :
    Visited network store parents selectedParent visiting visited search (visited.foldl
      ((network.manager store service).visitParent selectedParent) search) := by
  induction visited generalizing search with
  | nil =>
    exact ⟨invariant, fun _ mem => mem, forall_mem_nil _, Nat.le_refl _⟩
  | cons parent rest ih =>
    rw [forall_mem_cons] at known inPast
    have once := invariant.visitParent exact selectedKnown known.1 inPast.1
    have others := ih once.invariant known.2 inPast.2
    refine ⟨others.invariant, fun block mem => others.grown block (once.grown block mem),
      ?_, others.measure_le.trans once.measure_le⟩
    rw [forall_mem_cons]
    refine ⟨?_, others.found⟩
    exact (once.found parent (mem_singleton_self _)).imp_left (others.grown parent)

end

variable (stored : network.Stored store) (exact : network.Exact store service)
  (parentsOf : network.ParentsOf store parents) (selected : selectedParent ∈ parents)
include stored exact parentsOf selected

theorem SearchInvariant.searchMergeset {fuel : Nat}
    (invariant : SearchInvariant network parents selectedParent (fun _ => False) search)
    (enough : searchMeasure store search < fuel) :
    ∃ mergeset, (network.manager store service).searchMergeset selectedParent fuel
        search = some mergeset ∧
      mergeset.Nodup ∧
      ∀ block, block ∈ mergeset ↔ network.InPast parents block ∧
        ¬ network.Below block selectedParent := by
  have selectedKnown := parentsOf.known selectedParent selected
  induction fuel generalizing search with
  | zero => cases enough
  | succ fuel ih =>
    rw [searchMergeset]
    split
    · next empty =>
      refine ⟨_, rfl, invariant.nodup, fun block => ⟨invariant.sound block, ?_⟩⟩
      rintro ⟨⟨tip, edge, below⟩, apart⟩
      have ne : tip ≠ selectedParent := by
        rintro rfl
        exact apart below
      have closed : ∀ other, other ∈ search.mergeset → ∀ parent ∈ network.parents other,
          parent ∈ search.mergeset ∨ network.Below parent selectedParent := by
        intro other mem
        rcases invariant.expanded other mem with
          impossible | isQueued | isExpanded
        · exact impossible.elim
        · rw [empty] at isQueued
          cases isQueued
        · exact isExpanded
      exact (below.mem_of_closed closed (invariant.started tip edge ne)).resolve_right apart
    · next current rest queue =>
      have mem : current ∈ search.mergeset := invariant.queued current (queue ▸ mem_cons_self)
      obtain ⟨inPast, apart⟩ := invariant.sound current mem
      obtain ⟨tip, isTip, belowTip⟩ := inPast
      have known := stored.known_below belowTip (parentsOf.known tip isTip)
      have notGenesis : current ≠ network.genesis := by
        rintro rfl
        exact apart (stored.genesis_below selectedKnown)
      have related : (network.manager store service).relationsStore
          current = some (network.parents current) := by
        simp [manager, known, notGenesis]
      have popped : SearchInvariant network parents selectedParent
          (fun block => block = current) { search with queue := rest } := by
        refine { invariant with queued := ?_, expanded := ?_ }
        · intro block isQueued
          exact invariant.queued block (queue ▸ mem_cons_of_mem _ isQueued)
        · intro block got
          rcases invariant.expanded block got with
            impossible | isQueued | isExpanded
          · exact impossible.elim
          · rw [queue, mem_cons] at isQueued
            exact isQueued.imp_right .inl
          · exact .inr (.inr isExpanded)
      have visited := popped.visitParents exact selectedKnown
        (fun parent edge => stored.known_parent known edge)
        (fun parent edge => ⟨tip, isTip, (Dag.below_parent edge).trans belowTip⟩)
      rw [related, Option.bind_eq_bind, Option.bind_some]
      refine ih { visited.invariant with
        expanded := ?_ } ?_
      · intro block got
        rcases visited.invariant.expanded block got with
          rfl | isQueued | isExpanded
        · exact .inr (.inr visited.found)
        · exact .inr (.inl isQueued)
        · exact .inr (.inr isExpanded)
      · have smaller := visited.measure_le
        simp only [searchMeasure, queue, length_cons] at enough
        simp only [searchMeasure] at smaller ⊢
        omega

/-- The search for the mergeset returns exactly the blocks in the past of the
parents that are not in the past of the selected parent. -/
theorem Stored.unorderedMergeset : ∃ mergeset, (network.manager store
      service).unorderedMergesetWithoutSelectedParent selectedParent parents = some mergeset ∧
    mergeset.Nodup ∧
    ∀ block, block ∈ mergeset ↔ network.InPast parents block ∧
      ¬ network.Below block selectedParent := by
  refine SearchInvariant.searchMergeset stored exact parentsOf selected
    ⟨?_, ?_, ?_, ?_, ?_, nodup_dedup _⟩ ?_
  · intro block isQueued
    exact mem_dedup.mpr isQueued
  · intro block got
    have edge := mem_filter.mp (mem_dedup.mp got)
    have ne : block ≠ selectedParent := by simpa using edge.2
    refine ⟨⟨block, edge.1, .refl block⟩, fun below => ne ?_⟩
    exact parentsOf.antichain block edge.1 selectedParent selected below
  · exact forall_mem_nil _
  · intro block got
    exact .inr (.inl (mem_dedup.mp got))
  · intro parent edge ne
    refine mem_dedup.mpr (mem_filter.mpr ⟨edge, ?_⟩)
    simpa using ne
  · have few := length_filter_le (fun parent => decide (parent ≠ selectedParent)) parents
    have known := length_filter_le (fun block => decide (block ∉
      (parents.filter fun parent => parent ≠ selectedParent).dedup))
      store.blocks
    simp only [searchMeasure, manager]
    omega

end HeaderDag

instance : Std.Total fun first second : SortableBlock => ¬ second < first := ⟨fun first second => by
    by_contra both
    rw [not_or, not_not, not_not] at both
    exact lt_asymm both.1 both.2⟩

instance : IsTrans SortableBlock fun first second => ¬ second < first :=
  ⟨fun _ _ _ below above less =>
    absurd (lt_of_lt_of_le less (SortableBlock.le_of_not_lt below)) above⟩

variable {first second : SortableBlock}

theorem SortableBlock.hash_eq_of_key_eq (eq : first.key = second.key) :
    first.hash = second.hash := by
  have bytes : first.hash.bytes.map UInt8.toNat = second.hash.bytes.map UInt8.toNat :=
    congrArg (fun key => (ofLex key).2) eq
  refine ByteCodec.FixedBytes.ext (map_injective_iff.mpr ?_ bytes)
  exact fun _ _ equal => UInt8.toNat_inj.mp equal

/-- Different blocks are never equal in the order. -/
theorem SortableBlock.lt_of_not_lt (notBelow : ¬ second < first)
    (ne : first.hash ≠ second.hash) : first < second :=
  lt_of_le_of_ne (α := Nat ×ₗ List Nat) (le_of_not_lt notBelow) fun eq => ne (hash_eq_of_key_eq eq)

theorem SortableBlock.lt_of_blueWork_lt (less : first.blueWork < second.blueWork) :
    first < second := by
  change first.key < second.key
  rw [key, key, Prod.Lex.toLex_lt_toLex]
  exact .inl less

theorem mapM_eq_some {α β : Type} {compute : α → Option β} {value : α → β} {items : List α}
    (computed : ∀ item ∈ items, compute item = some (value item)) :
    items.mapM compute = some (items.map value) := by
  induction items with
  | nil => rfl
  | cons first rest ih =>
    rw [forall_mem_cons] at computed
    rw [mapM_cons, computed.1, ih computed.2]
    rfl

def GhostdagStore.blueWork (store : GhostdagStore) (block : Hash) : Nat :=
  ((store.data block).map GhostdagRecord.blueWork).getD 0

def GhostdagStore.sortable (store : GhostdagStore) (block : Hash) : SortableBlock :=
  ⟨block, store.blueWork block⟩

namespace HeaderDag

variable {network : HeaderDag} {store : GhostdagStore} {service : Hash → Hash → Bool}

theorem Stored.manager_sortable (stored : network.Stored store) {block : Hash}
    (known : block ∈ store.blocks) :
    (network.manager store service).sortable block = some (store.sortable block) := by
  obtain ⟨data, got⟩ := stored.exists_data known
  have stored : (network.manager store service).ghostdagStore block = some data := got
  rw [sortable, stored]
  simp [GhostdagStore.sortable, GhostdagStore.blueWork, got]

/-- Sorting different blocks puts them in strictly ascending order. -/
theorem Stored.sortBlocks (stored : network.Stored store) (service : Hash → Hash → Bool)
    {blocks : List Hash} (known : ∀ block ∈ blocks, block ∈ store.blocks) (nodup : blocks.Nodup) :
    ∃ sorted, (network.manager store service).sortBlocks blocks = some sorted ∧ sorted.Perm blocks ∧
      sorted.Pairwise fun first second => store.sortable first < store.sortable second := by
  have names : (blocks.map store.sortable).map hash = blocks := by
    rw [List.map_map]
    exact List.map_id blocks
  rw [GhostdagManager.sortBlocks, mapM_eq_some fun block mem =>
    stored.manager_sortable (known block mem)]
  refine ⟨_, rfl, ?_, ?_⟩
  · exact ((perm_insertionSort _ _).map _).trans (.of_eq names)
  · rw [pairwise_map]
    have hashes : ((blocks.map store.sortable).insertionSort
        fun first second => ¬ second < first).Pairwise
          fun first second => first.hash ≠ second.hash := by
      rw [← pairwise_map, ← nodup_iff_pairwise_ne,
        ((perm_insertionSort _ _).map _).nodup_iff, names]
      exact nodup
    refine ((pairwise_insertionSort _ _).and hashes).imp_of_mem ?_
    intro first second isFirst isSecond ordered
    obtain ⟨one, -, rfl⟩ := List.mem_map.mp ((perm_insertionSort _ _).mem_iff.mp isFirst)
    obtain ⟨two, -, rfl⟩ := List.mem_map.mp ((perm_insertionSort _ _).mem_iff.mp isSecond)
    exact lt_of_not_lt ordered.1 ordered.2

theorem foldl_maxSortable (first : SortableBlock) (rest : List SortableBlock) :
    rest.foldl maxSortable first ∈ first :: rest ∧ ∀ block ∈ first :: rest,
      ¬ rest.foldl maxSortable first < block := by
  induction rest generalizing first with
  | nil =>
    refine ⟨mem_singleton_self _, fun block mem => ?_⟩
    rw [mem_singleton.mp mem]
    exact lt_irrefl _
  | cons second others ih =>
    obtain ⟨mem, largest⟩ := ih (maxSortable first second)
    rw [foldl_cons]
    have isOne : maxSortable first second = first ∨
        maxSortable first second = second := by
      rw [maxSortable]
      split
      · exact .inl rfl
      · exact .inr rfl
    have notBelow : ¬ maxSortable first second < first ∧
        ¬ maxSortable first second < second := by
      rw [maxSortable]
      split
      · next less => exact ⟨lt_irrefl _, lt_asymm less⟩
      · next notLess => exact ⟨notLess, lt_irrefl _⟩
    constructor
    · rcases mem_cons.mp mem with isMax | later
      · rw [isMax]
        rcases isOne with isFirst | isSecond
        · rw [isFirst]
          exact mem_cons_self
        · rw [isSecond]
          exact mem_cons_of_mem _ mem_cons_self
      · exact mem_cons_of_mem _ (mem_cons_of_mem _ later)
    · have bounds := largest _ mem_cons_self
      intro block isBlock less
      rcases mem_cons.mp isBlock with rfl | isLater
      · exact notBelow.1 (lt_of_le_of_lt (le_of_not_lt bounds) less)
      · rcases mem_cons.mp isLater with rfl | isOther
        · exact notBelow.2 (lt_of_le_of_lt (le_of_not_lt bounds) less)
        · exact largest block (mem_cons_of_mem _ isOther) less

/-- The selected parent is the parent with the most blue work, and with the
largest hash among those. -/
theorem Stored.findSelectedParent (stored : network.Stored store) (service : Hash → Hash → Bool)
    {parents : List Hash} (parentsOf : network.ParentsOf store parents) :
    ∃ selectedParent ∈ parents, (network.manager store service).findSelectedParent parents =
        some selectedParent ∧
      ∀ parent ∈ parents, ¬ store.sortable selectedParent < store.sortable parent := by
  rw [GhostdagManager.findSelectedParent, mapM_eq_some fun parent edge =>
    stored.manager_sortable (parentsOf.known parent edge)]
  cases parents with
  | nil => exact absurd rfl parentsOf.nonempty
  | cons first rest =>
    obtain ⟨mem, largest⟩ := foldl_maxSortable (store.sortable first) (rest.map store.sortable)
    rw [← map_cons] at mem largest
    obtain ⟨selectedParent, edge, isMax⟩ := List.mem_map.mp mem
    refine ⟨selectedParent, edge, ?_, fun parent alsoParent => ?_⟩
    · change some ((rest.map store.sortable).foldl
        GhostdagManager.maxSortable (store.sortable first)).hash = _
      rw [← isMax]
      rfl
    · rw [isMax]
      exact largest _ (List.mem_map_of_mem alsoParent)

end HeaderDag

end Sophis
