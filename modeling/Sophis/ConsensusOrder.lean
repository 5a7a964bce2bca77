import Sophis.Coloring

namespace Sophis

open List Option ParentDag

/-!
# The consensus order of blocks

A block orders its selected parent first and then its mergeset by blue work.
Blue work grows along edges, so that this order is topological, and the orders
along a selected chain put the whole past of its tip into one order.
-/

theorem mergeJoinBy_eq (before : SortableBlock → SortableBlock → Prop) [DecidableRel before]
    (trans : ∀ {one two three}, before one two → before two three → before one three)
    (first second : List SortableBlock) (firstOrdered : first.Pairwise before)
    (secondOrdered : second.Pairwise before)
    (comparable : ∀ one ∈ first, ∀ two ∈ second, before one two ∨ before two one) :
    ∃ merged, mergeJoinBy before first second = some merged ∧ merged.Perm (first ++ second) ∧
      merged.Pairwise before := by
  induction first generalizing second with
  | nil => exact ⟨second, rfl, .refl _, secondOrdered⟩
  | cons one rest mergesRest =>
    obtain ⟨oneFirst, restOrdered⟩ := pairwise_cons.mp firstOrdered
    rw [mergeJoinBy]
    induction second with
    | nil => exact ⟨one :: rest, rfl, .of_eq (append_nil _).symm, firstOrdered⟩
    | cons two others mergesOthers =>
      obtain ⟨twoFirst, othersOrdered⟩ := pairwise_cons.mp secondOrdered
      rw [mergeFirst]
      by_cases less : before one two
      · obtain ⟨merged, isMerged, perm, ordered⟩ := mergesRest
          (two :: others) restOrdered secondOrdered fun block isBlock =>
            comparable block (mem_cons_of_mem _ isBlock)
        rw [if_pos less, isMerged]
        refine ⟨one :: merged, rfl, perm.cons one,
          pairwise_cons.mpr ⟨fun block isBlock => ?_, ordered⟩⟩
        rcases mem_append.mp (perm.mem_iff.mp isBlock) with
          inRest | inSecond
        · exact oneFirst block inRest
        · rcases mem_cons.mp inSecond with rfl | inOthers
          · exact less
          · exact trans less (twoFirst block inOthers)
      · have greater : before two one := (comparable one mem_cons_self two
          mem_cons_self).resolve_left less
        obtain ⟨merged, isMerged, perm, ordered⟩ := mergesOthers
          othersOrdered fun block isBlock other isOther =>
            comparable block isBlock other (mem_cons_of_mem _ isOther)
        rw [if_neg less, if_pos greater, isMerged]
        refine ⟨two :: merged, rfl, (perm.cons two).trans perm_middle.symm,
          pairwise_cons.mpr ⟨fun block isBlock => ?_, ordered⟩⟩
        rcases mem_append.mp (perm.mem_iff.mp isBlock) with
          inFirst | inOthers
        · rcases mem_cons.mp inFirst with rfl | inRest
          · exact greater
          · exact trans greater (oneFirst block inRest)
        · exact twoFirst block inOthers

theorem SortableBlock.lt_or_gt {first second : SortableBlock} (ne : first.hash ≠ second.hash) :
    first < second ∨ second < first := by
  by_cases less : first < second
  · exact .inl less
  · exact .inr (SortableBlock.lt_of_not_lt less ne.symm)

theorem mergeAscending_eq (first second : List SortableBlock)
    (firstAscending : first.Pairwise (· < ·)) (secondAscending : second.Pairwise (· < ·))
    (disjoint : ∀ one ∈ first, ∀ two ∈ second, one.hash ≠ two.hash) :
    ∃ merged, mergeAscending first second = some merged ∧ merged.Perm (first ++ second) ∧
      merged.Pairwise (· < ·) :=
  mergeJoinBy_eq (· < ·) lt_trans first second firstAscending secondAscending
    fun one isOne two isTwo => SortableBlock.lt_or_gt (disjoint one isOne two isTwo)

namespace HeaderDag

variable {network : HeaderDag} {store : GhostdagStore} {parents : List Hash}

theorem Stored.mapM_sortable (kept : network.Stored store) {blocks : List Hash}
    (known : ∀ block ∈ blocks, block ∈ store.blocks) :
    (blocks.mapM fun block => do
      let got ← store.data block
      return SortableBlock.mk block got.blueWork) = some (blocks.map store.sortable) := by
  refine mapM_eq_some fun block mem => ?_
  obtain ⟨data, got⟩ := kept.exists_data (known block mem)
  rw [GhostdagStore.sortable, Stored.blueWork_eq got, got]
  rfl

theorem Coloured.consensusOrderedMergeset (kept : network.Stored store)
    (parentsOf : network.ParentsOf store parents) {data : GhostdagRecord}
    (coloured : network.Coloured store parents data) :
    ∃ ordered, Sophis.consensusOrderedMergeset store.data data =
        some (data.selectedParent :: ordered) ∧
      network.OrderedMergeset store parents data.selectedParent ordered := by
  obtain ⟨ordered, blues, isOrdered, areBlues, bluesSublist, redsSublist, perm⟩ := coloured.split
  have known {block : Hash} (mem : block ∈ ordered) : block ∈ store.blocks :=
    kept.known_inPast parentsOf ((isOrdered.mem_iff block).mp mem).1
  have read {blocks : List Hash} (sublist : blocks.Sublist ordered) :=
    kept.mapM_sortable fun block mem => known (sublist.subset mem)
  have sorted {blocks : List Hash} (sublist : blocks.Sublist ordered) :
      (blocks.map store.sortable).Pairwise (· < ·) :=
    pairwise_map.mpr (isOrdered.ascending.sublist sublist)
  have nodup := perm.nodup_iff.mpr isOrdered.nodup
  obtain ⟨merged, isMerged, mergedPerm, mergedAscending⟩ :=
    mergeAscending_eq (blues.map store.sortable)
      (data.mergesetReds.map store.sortable) (sorted bluesSublist)
      (sorted redsSublist) (by
        intro one isOne two isTwo eq
        obtain ⟨blue, isBlue, rfl⟩ := List.mem_map.mp isOne
        obtain ⟨red, isRed, rfl⟩ := List.mem_map.mp isTwo
        exact (nodup_append.mp nodup).2.2 blue isBlue red isRed eq)
  rw [← map_append] at mergedPerm
  have hashes : (merged.map SortableBlock.hash).Perm ordered := by
    refine (mergedPerm.map SortableBlock.hash).trans (.trans (.of_eq ?_) perm)
    rw [List.map_map]
    exact List.map_id _
  refine ⟨merged.map SortableBlock.hash, ?_, fun block => ?_, ?_⟩
  · rw [Sophis.consensusOrderedMergeset, ascendingMergesetWithoutSelectedParent, areBlues, drop_one,
      tail_cons, read bluesSublist, read redsSublist]
    simp only [bind_eq_bind, bind_some, isMerged, Option.pure_def]
  · rw [hashes.mem_iff, isOrdered.mem_iff]
  · refine pairwise_map.mpr (mergedAscending.imp_of_mem ?_)
    intro first second isFirst isSecond less
    obtain ⟨one, -, rfl⟩ := List.mem_map.mp (mergedPerm.mem_iff.mp isFirst)
    obtain ⟨two, -, rfl⟩ := List.mem_map.mp (mergedPerm.mem_iff.mp isSecond)
    exact less

variable {selectedParent : Hash} {ordered : List Hash}

theorem OrderedMergeset.topological (run : network.Run store) (sound : network.SoundWork store)
    (parentsOf : network.ParentsOf store parents)
    (isOrdered : network.OrderedMergeset store parents selectedParent ordered) :
    network.Topological (selectedParent :: ordered) := by
  refine pairwise_cons.mpr ⟨fun block mem edge => ?_, ?_⟩
  · exact ((isOrdered.mem_iff block).mp mem).2 (Dag.below_parent edge)
  · refine isOrdered.ascending.imp_of_mem ?_
    intro prior later isEarlier _ less edge
    have known := run.stored.known_inPast parentsOf ((isOrdered.mem_iff prior).mp isEarlier).1
    have below := Dag.below_parent edge
    refine lt_asymm less (run.sortable_lt_of_below sound below known ?_)
    rintro rfl
    exact Nat.lt_irrefl _ (network.rank_parent _ _ edge)

theorem OrderedMergeset.nodup_cons
    (isOrdered : network.OrderedMergeset store parents selectedParent ordered) :
    (selectedParent :: ordered).Nodup := by
  refine List.nodup_cons.mpr ⟨fun mem => ?_, isOrdered.nodup⟩
  exact ((isOrdered.mem_iff _).mp mem).2 (.refl _)

end HeaderDag

/-- The consensus orders along the selected chain of a block, one after the
other. -/
inductive HeaderDag.ChainOrder (network : HeaderDag) (store : GhostdagStore) :
    Hash → List Hash → Prop where
  | genesis : ChainOrder network store network.genesis []
  | step {block : Hash} {data : GhostdagRecord} {order merged : List Hash} :
    block ≠ network.genesis →
    store.data block = some data →
    ChainOrder network store data.selectedParent order →
    consensusOrderedMergeset store.data data = some merged →
    ChainOrder network store block (order ++ merged)

namespace HeaderDag

variable {network : HeaderDag} {store : GhostdagStore} {block : Hash}

/-- The past of a block in one order. -/
structure OrdersPast (network : HeaderDag) (block : Hash) (order : List Hash) : Prop where
  mem_iff : ∀ lower, lower ∈ order ↔ network.Below lower block ∧ lower ≠ block
  nodup : order.Nodup
  topological : network.Topological order

theorem below_and_ne_iff {lower : Hash} :
    network.Below lower block ∧ lower ≠ block ↔ network.InPast (network.parents block) lower := by
  constructor
  · rintro ⟨below, ne⟩
    exact below.exists_parent ne
  · rintro ⟨parent, edge, below⟩
    refine ⟨.step edge below, ?_⟩
    rintro rfl
    exact absurd (network.rank_parent _ _ edge) (Nat.not_lt.mpr below.rank_le)

section

variable (run : network.Run store) (sound : network.SoundWork store)
include run sound

theorem OrdersPast.append (parentsOf : network.ParentsOf store (network.parents block))
    {selectedParent : Hash} (picked : selectedParent ∈ network.parents block)
    {order ordered : List Hash} (ordersPast : network.OrdersPast selectedParent order)
    (isOrdered : network.OrderedMergeset store (network.parents block) selectedParent ordered) :
    network.OrdersPast block (order ++ selectedParent :: ordered) := by
  have later {added : Hash} (isAdded : added ∈ selectedParent :: ordered) :
      ¬ (network.Below added selectedParent ∧ added ≠ selectedParent) := by
    rintro ⟨below, ne⟩
    rcases mem_cons.mp isAdded with eq | merged
    · exact ne eq
    · exact ((isOrdered.mem_iff added).mp merged).2 below
  refine ⟨fun lower => ?_, ?_, ?_⟩
  · rw [below_and_ne_iff, mem_append, mem_cons, ordersPast.mem_iff, isOrdered.mem_iff]
    constructor
    · rintro (⟨below, -⟩ | rfl | ⟨inPast, -⟩)
      · exact ⟨selectedParent, picked, below⟩
      · exact ⟨lower, picked, .refl lower⟩
      · exact inPast
    · intro inPast
      by_cases below : network.Below lower selectedParent
      · by_cases eq : lower = selectedParent
        · exact .inr (.inl eq)
        · exact .inl ⟨below, eq⟩
      · exact .inr (.inr ⟨inPast, below⟩)
  · refine nodup_append.mpr ⟨ordersPast.nodup, isOrdered.nodup_cons, ?_⟩
    rintro lower isEarlier _ isAdded rfl
    exact later isAdded ((ordersPast.mem_iff lower).mp isEarlier)
  · refine pairwise_append.mpr ⟨ordersPast.topological,
      isOrdered.topological run sound parentsOf, ?_⟩
    intro prior isEarlier added isAdded edge
    obtain ⟨below, ne⟩ := (ordersPast.mem_iff prior).mp isEarlier
    refine later isAdded ⟨.trans (Dag.below_parent edge) below, ?_⟩
    rintro rfl
    exact absurd (network.rank_parent _ _ edge) (Nat.not_lt.mpr below.rank_le)

theorem Run.exists_chainOrder (known : block ∈ store.blocks) :
    ∃ order, network.ChainOrder store block order ∧ network.OrdersPast block order := by
  induction block using network.ascend with
  | upwards block ih =>
    by_cases isGenesis : block = network.genesis
    · subst isGenesis
      refine ⟨[], .genesis, fun lower => ?_, nodup_nil, .nil⟩
      rw [below_and_ne_iff, network.genesis_parents]
      simp [Dag.InPast]
    · have kept := run.stored
      obtain ⟨data, got⟩ := kept.exists_data known
      have coloured := run.coloured got isGenesis
      have parentsOf := (kept.parents block known isGenesis).2
      have picked := coloured.selected_parent
      obtain ⟨order, isOrder, ordersPast⟩ := ih _ picked (kept.known_parent known picked)
      obtain ⟨ordered, isMerged, isOrdered⟩ := coloured.consensusOrderedMergeset kept parentsOf
      exact ⟨_, .step isGenesis got isOrder isMerged,
        ordersPast.append run sound parentsOf picked isOrdered⟩

end

/-- The mergeset is exact and its consensus order is topological, and so is the
order of the whole past along a selected chain. -/
theorem consensusOrder_topological (run : network.Run store) (sound : network.SoundWork store) :
    (∀ service parents selectedParent, network.Exact store service →
      network.ParentsOf store parents → selectedParent ∈ parents → ∃ mergeset,
        (network.manager store service).unorderedMergesetWithoutSelectedParent selectedParent
            parents = some mergeset ∧
          mergeset.Nodup ∧
          ∀ block, block ∈ mergeset ↔ network.InPast parents block ∧
            ¬ network.Below block selectedParent) ∧
      (∀ service parents data, network.Exact store service → network.ParentsOf store parents →
        (network.manager store service).ghostdag parents = some data → ∃ ordered,
          Sophis.consensusOrderedMergeset store.data data = some (data.selectedParent :: ordered) ∧
            (data.selectedParent :: ordered).Nodup ∧
            (∀ block, block ∈ ordered ↔ network.InPast parents block ∧
              ¬ network.Below block data.selectedParent) ∧
            network.Topological (data.selectedParent :: ordered)) ∧
      ∀ block ∈ store.blocks, ∃ order, network.ChainOrder store block order ∧
        network.OrdersPast block order := by
  have kept := run.stored
  refine ⟨fun service parents selectedParent exact parentsOf picked => ?_,
    fun service parents data exact parentsOf recorded => ?_,
    fun block known => run.exists_chainOrder sound known⟩
  · exact kept.unorderedMergeset exact parentsOf picked
  · have coloured := kept.coloured_of_ghostdag exact parentsOf recorded
    obtain ⟨ordered, isMerged, isOrdered⟩ := coloured.consensusOrderedMergeset kept parentsOf
    exact ⟨ordered, isMerged, isOrdered.nodup_cons, isOrdered.mem_iff,
      isOrdered.topological run sound parentsOf⟩

end HeaderDag

/-- The past of the merging block in one order. -/
theorem diamondStore_ordered :
    ∃ order, diamondNetwork.ChainOrder diamondStore (.replicate 32 4) order ∧
      diamondNetwork.OrdersPast (.replicate 32 4) order :=
  (HeaderDag.consensusOrder_topological diamondStore_run
    diamondStore_soundWork).2.2 (.replicate 32 4) (by decide +kernel)

/-- A recorded block whose consensus order has a block before its parent. -/
def HeaderDag.OrdersAgainstEdges (network : HeaderDag) : Prop := ∃ store block data merged,
    network.Run store ∧ store.data block = some data ∧
      consensusOrderedMergeset store.data data = some merged ∧
      ¬ network.Topological merged

/-- What the merging block of the reversed headers records when blue work does
not grow along edges. -/
def reversedStoreRecord (bits : UInt32) : Option (Hash × List Hash × List Hash × List Bool) :=
  ((reversedStore bits).data (.replicate 32 5)).map fun data =>
    (data.selectedParent, data.mergesetBlues, data.mergesetReds,
      [.replicate 32 2, .replicate 32 3].map fun hash => ((reversedStore bits).data hash).isSome)

theorem reversedNetwork_ordersAgainstEdges {bits : UInt32}
    (replayed : ((reversedNetwork bits).replay
      ((reversedHeaders bits).map HeaderEntry.hash)).isSome = true)
    (recorded : reversedStoreRecord bits = some (.replicate 32 4,
      [.replicate 32 4, .replicate 32 2, .replicate 32 3], [],
      [true, true])) : (reversedNetwork bits).OrdersAgainstEdges := by
  obtain ⟨data, got, fields⟩ := map_eq_some_iff.mp recorded
  simp only [Prod.mk.injEq, map_cons, map_nil, List.cons.injEq,
    and_true, isSome_iff_exists] at fields
  obtain ⟨picked, areBlues, areReds, ⟨second, isSecond⟩, third, isThird⟩ := fields
  refine ⟨reversedStore bits, .replicate 32 5, data,
    [.replicate 32 4, .replicate 32 2, .replicate 32 3], reversedStore_run replayed, got, ?_, ?_⟩
  · simp [consensusOrderedMergeset, ascendingMergesetWithoutSelectedParent,
      picked, areBlues, areReds, isSecond, isThird, mergeAscending, mergeJoinBy, mergeFirst]
  · intro topological
    have edge := (pairwise_cons.mp (pairwise_cons.mp topological).2).1
        (.replicate 32 3) mem_cons_self
    exact edge (mem_singleton_self _)

/-- Without work, and with sums of works out of range, blue work does not grow
along edges, and the consensus order is not topological. -/
theorem reversedNetwork_not_topological :
    (reversedNetwork 0).OrdersAgainstEdges ∧ (reversedNetwork 0x09018000).OrdersAgainstEdges := by
  constructor
  · exact reversedNetwork_ordersAgainstEdges (by decide +kernel) (by decide +kernel)
  · exact reversedNetwork_ordersAgainstEdges (by decide +kernel) (by decide +kernel)

end Sophis
