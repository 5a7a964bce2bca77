import Sophis.BoundedHeap
import Sophis.ConsensusOrder

namespace Sophis

open BoundedHeap Finset List Option

/-!
# Block windows

`consensus/src/processes/window.rs`: the difficulty and the past median time of
a block are calculated from a window of blocks in its past. The mergesets along
the selected chain are sampled by DAA score, and the window holds the largest
samples by blue work. Windows of earlier blocks are cached, and a walk down the
chain stops where a cached window can be merged.

Blue scores, DAA scores and window sizes are unbounded numbers here. A result
`none` stands for a missing entry.
-/

instance : LinearOrder SortableBlock where
  le_antisymm first second least most := by
    have same : first.key = second.key := le_antisymm least most
    have work : first.blueWork = second.blueWork := congrArg Prod.fst same
    cases first
    cases second
    cases SortableBlock.hash_eq_of_key_eq same
    cases work
    rfl
  le_total first second := le_total first.key second.key
  toDecidableEq := instDecidableEqSortableBlock
  toDecidableLE first second := inferInstanceAs (Decidable (first.key ≤ second.key))
  toDecidableLT first second := inferInstanceAs (Decidable (first.key < second.key))

variable (ghostdagStore : Hash → Option GhostdagRecord)

def descendingMergesetWithoutSelectedParent (data : GhostdagRecord) :
    Option (List SortableBlock) := do
  let sortable := fun block => do
    let stored ← ghostdagStore block
    return SortableBlock.mk block stored.blueWork
  let blues ← (data.mergesetBlues.drop 1).reverse.mapM sortable
  let reds ← data.mergesetReds.reverse.mapM sortable
  mergeJoinBy (· > ·) blues reds

/-- The windows that are asked for. -/
inductive WindowType where
  | difficultyWindow
  | medianTimeWindow
  | varyingWindow (size : Nat)

/-- A merged block as the sampler sees it. -/
inductive SampledBlock where
  | sampled (block : SortableBlock)
  | nonDaa (hash : Hash)
  deriving DecidableEq

/-- The block window is larger than the known part of the chain. -/
structure InsufficientDaaWindowSize where
  size : Nat

/-- A window and the merged blocks that are too old for the DAA window. -/
structure WindowReply where
  window : Except InsufficientDaaWindowSize (List SortableBlock)
  mergesetNonDaa : List Hash

def SampledBlock.sample? : SampledBlock → Option SortableBlock
  | .sampled block => some block
  | .nonDaa _ => none

def SampledBlock.nonDaa? : SampledBlock → Option Hash
  | .sampled _ => none
  | .nonDaa hash => some hash

/-- The stores, caches and parameters of windows. -/
structure SampledWindowManager where
  genesisHash : Hash
  ghostdagStore : Hash → Option GhostdagRecord
  daaScore : Hash → Option Nat
  blockWindowCacheForDifficulty : Hash → Option (List SortableBlock)
  blockWindowCacheForPastMedianTime : Hash → Option (List SortableBlock)
  difficultyWindowSize : Nat
  difficultySampleRate : Nat
  pastMedianTimeWindowSize : Nat
  pastMedianTimeSampleRate : Nat

namespace SampledWindowManager

variable (manager : SampledWindowManager)

def windowSize : WindowType → Nat
  | .difficultyWindow => manager.difficultyWindowSize
  | .medianTimeWindow => manager.pastMedianTimeWindowSize
  | .varyingWindow size => size

def sampleRate : WindowType → Nat
  | .difficultyWindow => manager.difficultySampleRate
  | .medianTimeWindow => manager.pastMedianTimeSampleRate
  | .varyingWindow _ => 1

def cache : WindowType → Hash → Option (List SortableBlock)
  | .difficultyWindow => manager.blockWindowCacheForDifficulty
  | .medianTimeWindow => manager.blockWindowCacheForPastMedianTime
  | .varyingWindow _ => fun _ => none

def difficultyFullWindowSize : Nat := manager.difficultyWindowSize * manager.difficultySampleRate

def lowestDaaBlueScore (data : GhostdagRecord) : Nat :=
  max data.blueScore.toNat manager.difficultyFullWindowSize - manager.difficultyFullWindowSize

/-- Samples blocks by their DAA index. Blocks below the threshold have none. -/
def sampleBlocks (sampleRate selectedParentDaaScore blueScoreThreshold : Nat) :
    Nat → List SortableBlock → Option (List SampledBlock)
  | _, [] => some []
  | index, block :: rest => do
    let data ← manager.ghostdagStore block.hash
    if data.blueScore.toNat < blueScoreThreshold then do
      let others ← sampleBlocks sampleRate selectedParentDaaScore blueScoreThreshold index rest
      return .nonDaa block.hash :: others
    else do
      let others ← sampleBlocks sampleRate selectedParentDaaScore
        blueScoreThreshold (index + 1) rest
      if sampleRate ∣ selectedParentDaaScore + (index + 1) then
        return .sampled block :: others
      else
        return others

def sampledMergeset (sampleRate : Nat) (data : GhostdagRecord)
    (selectedParentBlueWork : Nat) : Option (List SampledBlock) := do
  let selectedParentDaaScore ← manager.daaScore data.selectedParent
  let merged ← descendingMergesetWithoutSelectedParent manager.ghostdagStore data
  manager.sampleBlocks sampleRate selectedParentDaaScore (manager.lowestDaaBlueScore data) 0
    (⟨data.selectedParent, selectedParentBlueWork⟩ :: merged)

/-- Walks down the chain until the window is full of larger blocks, the genesis
is reached or a cached window can be merged. -/
def walkDown (windowType : WindowType) : Nat → List SortableBlock → GhostdagRecord →
    Option (Except InsufficientDaaWindowSize (List SortableBlock))
  | 0, _, _ => none
  | fuel + 1, heap, current =>
    if current.selectedParent = blockHashOrigin then
      if heap.length = manager.windowSize windowType then
        some (.ok heap)
      else
        some (.error ⟨heap.length⟩)
    else if current.selectedParent = manager.genesisHash then
      some (.ok heap)
    else do
      let parent ← manager.ghostdagStore current.selectedParent
      let allowed ← canPush (manager.windowSize windowType) heap
        ⟨current.selectedParent, parent.blueWork⟩
      if allowed then do
        let sampled ← manager.sampledMergeset
          (manager.sampleRate windowType) current parent.blueWork
        let pushed := pushUntilRefused (manager.windowSize windowType) heap
          (sampled.filterMap SampledBlock.sample?)
        match manager.cache windowType current.selectedParent with
        | some ancestor => some (.ok (merge (manager.windowSize windowType) pushed ancestor))
        | none => walkDown windowType fuel pushed parent
      else
        some (.ok heap)

/-- The window of a block and the merged blocks that are too old for it. -/
def buildBlockWindow (fuel : Nat) (data : GhostdagRecord)
    (windowType : WindowType) : Option WindowReply :=
  if manager.windowSize windowType = 0 then
    some ⟨.ok [], []⟩
  else if data.selectedParent = manager.genesisHash then
    -- The genesis has a fixed timestamp and does not enter the window.
    some ⟨.ok [], [manager.genesisHash]⟩
  else if data.selectedParent = blockHashOrigin then
    some ⟨.error ⟨0⟩, []⟩
  else do
    let parent ← manager.ghostdagStore data.selectedParent
    let sampled ← manager.sampledMergeset (manager.sampleRate windowType) data parent.blueWork
    let nonDaa := sampled.filterMap SampledBlock.nonDaa?
    match manager.cache windowType data.selectedParent with
    | some ancestor =>
      some ⟨.ok (pushAll (manager.windowSize windowType) ancestor
        (sampled.filterMap SampledBlock.sample?)), nonDaa⟩
    | none => do
      let window ← manager.walkDown windowType fuel (pushAll (manager.windowSize windowType) []
          (sampled.filterMap SampledBlock.sample?)) parent
      return ⟨window, nonDaa⟩

/-- The merged blocks that are too old for the DAA window. -/
def mergesetNonDaa (data : GhostdagRecord) (windowType : WindowType) : Option (List Hash) :=
  if manager.windowSize windowType = 0 then
    some []
  else if data.selectedParent = manager.genesisHash then
    some [manager.genesisHash]
  else do
    let parent ← manager.ghostdagStore data.selectedParent
    let sampled ← manager.sampledMergeset (manager.sampleRate windowType) data parent.blueWork
    return sampled.filterMap SampledBlock.nonDaa?

def withoutCaches : SampledWindowManager := { manager with
    blockWindowCacheForDifficulty := fun _ => none
    blockWindowCacheForPastMedianTime := fun _ => none }

/-- The samples of the mergesets along the selected chain of a block, down to
the first block above the genesis. -/
inductive ChainSamples (sampleRate : Nat) : GhostdagRecord → Finset SortableBlock → Prop where
  | genesis {data : GhostdagRecord} :
    data.selectedParent = manager.genesisHash →
    ChainSamples sampleRate data ∅
  | step {data parent : GhostdagRecord} {sampled : List SampledBlock}
    {below : Finset SortableBlock} :
    data.selectedParent ≠ manager.genesisHash →
    manager.ghostdagStore data.selectedParent = some parent →
    manager.sampledMergeset sampleRate data parent.blueWork = some sampled →
    ChainSamples sampleRate parent below →
    ChainSamples sampleRate data ((sampled.filterMap SampledBlock.sample?).toFinset ∪ below)

/-- The largest samples along the chain of a block. -/
def IsWindow (windowType : WindowType) (data : GhostdagRecord)
    (window : List SortableBlock) : Prop :=
  ∃ samples, manager.ChainSamples (manager.sampleRate windowType) data samples ∧
    Tops (manager.windowSize windowType) samples window

/-- Every cached window is the window of its block. -/
def CachesRight : Prop := ∀ windowType hash data window, hash ≠ manager.genesisHash →
    manager.ghostdagStore hash = some data →
    manager.cache windowType hash = some window → manager.IsWindow windowType data window

/-- A manager that serves the stores of a node. -/
structure Serves (network : HeaderDag) (store : GhostdagStore) : Prop where
  genesis : manager.genesisHash = network.genesis
  ghostdag : manager.ghostdagStore = store.data
  daaScore : ∀ block ∈ store.blocks, (manager.daaScore block).isSome

end SampledWindowManager

variable {manager : SampledWindowManager} {network : HeaderDag} {store : GhostdagStore}
  {parents : List Hash}

namespace HeaderDag

theorem Coloured.descendingMergeset (kept : network.Stored store)
    (parentsOf : network.ParentsOf store parents) {data : GhostdagRecord}
    (coloured : network.Coloured store parents data) :
    ∃ merged, descendingMergesetWithoutSelectedParent store.data data = some merged ∧
      merged.Pairwise (· > ·) ∧
      ∀ block ∈ merged, ∃ hash, block = store.sortable hash ∧ network.InPast parents hash ∧
        ¬ network.Below hash data.selectedParent := by
  obtain ⟨ordered, blues, isOrdered, areBlues, bluesSublist, redsSublist, perm⟩ := coloured.split
  have known {block : Hash} (mem : block ∈ ordered) : block ∈ store.blocks :=
    kept.known_inPast parentsOf ((isOrdered.mem_iff block).mp mem).1
  have read {blocks : List Hash} (sublist : blocks.Sublist ordered) :=
    kept.mapM_sortable fun block mem => known (sublist.subset (mem_reverse.mp mem))
  have descending {blocks : List Hash} (sublist : blocks.Sublist ordered) :
      (blocks.reverse.map store.sortable).Pairwise (· > ·) :=
    pairwise_map.mpr (pairwise_reverse.mpr (isOrdered.ascending.sublist sublist))
  have nodup := perm.nodup_iff.mpr isOrdered.nodup
  obtain ⟨merged, isMerged, mergedPerm, mergedDescending⟩ :=
    mergeJoinBy_eq (· > ·) (fun greater next => lt_trans next greater)
      (blues.reverse.map store.sortable)
      (data.mergesetReds.reverse.map store.sortable) (descending bluesSublist)
      (descending redsSublist) (by
        intro one isOne two isTwo
        obtain ⟨blue, isBlue, rfl⟩ := List.mem_map.mp isOne
        obtain ⟨red, isRed, rfl⟩ := List.mem_map.mp isTwo
        exact (SortableBlock.lt_or_gt ((nodup_append.mp nodup).2.2 blue
          (mem_reverse.mp isBlue) red (mem_reverse.mp isRed))).symm)
  refine ⟨merged, ?_, mergedDescending, fun block mem => ?_⟩
  · rw [descendingMergesetWithoutSelectedParent, areBlues, drop_one,
      tail_cons, read bluesSublist, read redsSublist]
    simp only [bind_eq_bind, bind_some, isMerged]
  · have listed := mergedPerm.mem_iff.mp mem
    rw [← map_append, ← reverse_append] at listed
    obtain ⟨hash, isHash, rfl⟩ := List.mem_map.mp listed
    have merges : hash ∈ ordered := by
      refine perm.mem_iff.mp (mem_append.mpr ?_)
      exact (mem_append.mp (mem_reverse.mp isHash)).symm
    exact ⟨hash, rfl, (isOrdered.mem_iff hash).mp merges⟩

/-- The samples of a mergeset: new, merged and descending. -/
structure MergesetSamples (network : HeaderDag) (store : GhostdagStore)
    (parents : List Hash) (selectedParent : Hash)
    (samples : List SortableBlock) : Prop where
  descending : samples.Pairwise (· > ·)
  source : ∀ block ∈ samples, ∃ hash, block = store.sortable hash ∧ network.InPast parents hash ∧
    (network.Below hash selectedParent → hash = selectedParent) ∧
    block ≤ store.sortable selectedParent

end HeaderDag

namespace SampledWindowManager

open SampledBlock

theorem sampleBlocks_eq (sampleRate daaScore threshold index : Nat) {blocks : List SortableBlock}
    (known : ∀ block ∈ blocks, (manager.ghostdagStore block.hash).isSome) :
    ∃ sampled, manager.sampleBlocks sampleRate daaScore threshold index blocks = some sampled ∧
      (sampled.filterMap sample?).Sublist blocks := by
  induction blocks generalizing index with
  | nil => exact ⟨[], rfl, .slnil⟩
  | cons block rest ih =>
    have later : ∀ next ∈ rest, (manager.ghostdagStore next.hash).isSome :=
      (forall_mem_cons.mp known).2
    obtain ⟨data, got⟩ := isSome_iff_exists.mp (known block mem_cons_self)
    by_cases old : data.blueScore.toNat < threshold
    · obtain ⟨others, areOthers, sublist⟩ := ih index later
      refine ⟨.nonDaa block.hash :: others, ?_, sublist.cons block⟩
      simp only [sampleBlocks, got, bind_eq_bind, bind_some, if_pos old, areOthers, Option.pure_def]
    · obtain ⟨others, areOthers, sublist⟩ := ih (index + 1) later
      by_cases chosen : sampleRate ∣ daaScore + (index + 1)
      · refine ⟨.sampled block :: others, ?_, sublist.cons_cons block⟩
        simp only [sampleBlocks, got, bind_eq_bind, bind_some, if_neg old, areOthers,
          if_pos chosen, Option.pure_def]
      · refine ⟨others, ?_, sublist.cons block⟩
        simp only [sampleBlocks, got, bind_eq_bind, bind_some, if_neg old, areOthers,
          if_neg chosen, Option.pure_def]

section

variable (serves : manager.Serves network store) (run : network.Run store)
  (sound : network.SoundWork store)
include serves run sound

variable {data : GhostdagRecord}

theorem sampledMergeset_eq (sampleRate : Nat) (parentsOf : network.ParentsOf store parents)
    {parentData : GhostdagRecord} (coloured : network.Coloured store parents data)
    (edge : store.data data.selectedParent = some parentData) :
    ∃ sampled, manager.sampledMergeset sampleRate data parentData.blueWork = some sampled ∧
      network.MergesetSamples store parents data.selectedParent
        (sampled.filterMap sample?) := by
  have kept := run.stored
  have picked : data.selectedParent ∈ store.blocks := parentsOf.known _ coloured.selected_parent
  obtain ⟨daaScore, isScore⟩ := isSome_iff_exists.mp (serves.daaScore _ picked)
  obtain ⟨merged, isMerged, descending, source⟩ := coloured.descendingMergeset kept parentsOf
  have first : SortableBlock.mk data.selectedParent parentData.blueWork =
      store.sortable data.selectedParent := by
    rw [GhostdagStore.sortable, HeaderDag.Stored.blueWork_eq edge]
  -- A merged block is below another parent, which is below the selected one.
  have below : ∀ block ∈ merged, block < store.sortable data.selectedParent := by
    intro block mem
    obtain ⟨hash, rfl, ⟨parent, isOther, reaches⟩, notBelow⟩ := source block mem
    have ne : parent ≠ data.selectedParent := by
      rintro rfl
      exact notBelow reaches
    have lighter : store.sortable parent < store.sortable data.selectedParent :=
      SortableBlock.lt_of_not_lt (coloured.largest parent isOther) ne
    by_cases eq : hash = parent
    · exact eq ▸ lighter
    · exact (run.sortable_lt_of_below sound reaches
        (parentsOf.known parent isOther) eq).trans lighter
  have known : ∀ block ∈ store.sortable data.selectedParent :: merged,
      (manager.ghostdagStore block.hash).isSome := by
    rw [serves.ghostdag]
    intro block mem
    refine (kept.known_iff _).mp ?_
    rcases mem_cons.mp mem with rfl | isMerged
    · exact picked
    · obtain ⟨hash, rfl, inPast, -⟩ := source block isMerged
      exact kept.known_inPast parentsOf inPast
  obtain ⟨sampled, isSampled, sublist⟩ := sampleBlocks_eq sampleRate daaScore
    (manager.lowestDaaBlueScore data) 0 known
  refine ⟨sampled, ?_, ?_, fun block mem => ?_⟩
  · rw [sampledMergeset, isScore, serves.ghostdag, isMerged, first]
    exact isSampled
  · exact (pairwise_cons.mpr ⟨below, descending⟩).sublist sublist
  · rcases mem_cons.mp (sublist.subset mem) with rfl | isMerged
    · exact ⟨_, rfl, ⟨_, coloured.selected_parent, .refl _⟩, fun _ => rfl, le_rfl⟩
    · obtain ⟨hash, rfl, inPast, notBelow⟩ := source block isMerged
      exact ⟨hash, rfl, inPast, fun reaches => absurd reaches notBelow, (below _ isMerged).le⟩

variable {sampleRate : Nat} {samples : Finset SortableBlock}

theorem ChainSamples.inPast (parentsOf : network.ParentsOf store parents)
    (coloured : network.Coloured store parents data)
    (isChain : manager.ChainSamples sampleRate data samples) :
    ∀ block ∈ samples, ∃ hash, block = store.sortable hash ∧ network.InPast parents hash := by
  induction isChain generalizing parents with
  | genesis => exact fun _ mem => absurd mem (notMem_empty _)
  | @step data parent sampled below ne edge isSampled _
    ih =>
    rw [serves.genesis] at ne
    rw [serves.ghostdag] at edge
    obtain ⟨others, areOthers, areSamples⟩ := sampledMergeset_eq serves run
      sound sampleRate parentsOf coloured edge
    cases areOthers.symm.trans isSampled
    have picked := parentsOf.known _ coloured.selected_parent
    intro block mem
    rcases mem_union.mp mem with merged | prior
    · obtain ⟨hash, eq, inPast, -⟩ := areSamples.source block (List.mem_toFinset.mp merged)
      exact ⟨hash, eq, inPast⟩
    · obtain ⟨hash, eq, grandparent, isGrandparent, reaches⟩ :=
        ih (run.stored.parents _ picked ne).2 (run.coloured edge ne) block prior
      exact ⟨hash, eq, _, coloured.selected_parent, .step isGrandparent reaches⟩

theorem ChainSamples.strictlyBelow {block : Hash} (ne : block ≠ network.genesis)
    (got : store.data block = some data) (isChain : manager.ChainSamples sampleRate data samples)
    {sample : SortableBlock} (mem : sample ∈ samples) :
    ∃ hash, sample = store.sortable hash ∧ network.Below hash block ∧ hash ≠ block := by
  have known := run.stored.known_of_data got
  obtain ⟨hash, eq, inPast⟩ := isChain.inPast serves run sound
    (run.stored.parents block known ne).2 (run.coloured got ne) sample mem
  exact ⟨hash, eq, HeaderDag.below_and_ne_iff.mpr inPast⟩

theorem exists_chainSamples (sampleRate : Nat) (parentsOf : network.ParentsOf store parents)
    (coloured : network.Coloured store parents data) :
    ∃ samples, manager.ChainSamples sampleRate data samples := by
  have picked := parentsOf.known _ coloured.selected_parent
  generalize isSelected : data.selectedParent = selectedParent at picked
  induction selectedParent using network.ascend generalizing parents data with
  | upwards selectedParent ih =>
    subst isSelected
    by_cases isGenesis : data.selectedParent = network.genesis
    · exact ⟨∅, .genesis (isGenesis.trans serves.genesis.symm)⟩
    · obtain ⟨parent, edge⟩ := run.stored.exists_data picked
      obtain ⟨sampled, isSampled, -⟩ := sampledMergeset_eq serves run sound
        sampleRate parentsOf coloured edge
      have above := (run.stored.parents _ picked isGenesis).2
      have parentColoured := run.coloured edge isGenesis
      obtain ⟨below, isBelow⟩ := ih parent.selectedParent parentColoured.selected_parent above
        parentColoured rfl (above.known _ parentColoured.selected_parent)
      exact ⟨_, .step (serves.genesis ▸ isGenesis)
        (by rw [serves.ghostdag]; exact edge) isSampled isBelow⟩

end

theorem ChainSamples.unique {sampleRate : Nat} {data : GhostdagRecord}
    {first second : Finset SortableBlock} (isFirst : manager.ChainSamples sampleRate data first)
    (isSecond : manager.ChainSamples sampleRate data second) : first = second := by
  induction isFirst generalizing second with
  | genesis isGenesis =>
    cases isSecond with
    | genesis => rfl
    | step ne => exact absurd isGenesis ne
  | step ne edge isSampled _ ih =>
    cases isSecond with
    | genesis isGenesis => exact absurd isGenesis ne
    | step _ isParent' isSampled' isBelow =>
      cases edge.symm.trans isParent'
      cases isSampled.symm.trans isSampled'
      rw [ih isBelow]

end SampledWindowManager

variable (serves : manager.Serves network store) (run : network.Run store)
  (sound : network.SoundWork store) {windowType : WindowType}

/-- Samples that were collected above a block. -/
def HeaderDag.CollectedAbove (network : HeaderDag) (store : GhostdagStore)
    (block : Hash) (samples : Finset SortableBlock) : Prop :=
  ∀ sample ∈ samples, ∃ hash, sample = store.sortable hash ∧
    (network.Below hash block → hash = block)

theorem HeaderDag.MergesetSamples.collectedAbove {selectedParent : Hash}
    {samples : List SortableBlock}
    (areSamples : network.MergesetSamples store parents selectedParent samples) :
    network.CollectedAbove store selectedParent samples.toFinset := by
  intro sample mem
  obtain ⟨hash, eq, -, onlySelected, -⟩ := areSamples.source sample (List.mem_toFinset.mp mem)
  exact ⟨hash, eq, onlySelected⟩

variable {block : Hash} {above : Finset SortableBlock}

theorem HeaderDag.CollectedAbove.disjoint {below : Finset SortableBlock}
    (collected : network.CollectedAbove store block above)
    (strictlyBelow : ∀ sample ∈ below, ∃ hash,
      sample = store.sortable hash ∧ network.Below hash block ∧ hash ≠ block) :
    Disjoint above below := by
  refine disjoint_left.mpr fun sample isAbove isBelow => ?_
  obtain ⟨hash, rfl, only⟩ := collected sample isAbove
  obtain ⟨other, eq, reaches, ne⟩ := strictlyBelow _ isBelow
  cases congrArg SortableBlock.hash eq
  exact ne (only reaches)

theorem HeaderDag.CollectedAbove.union {parent : Hash} {merged : Finset SortableBlock}
    (collected : network.CollectedAbove store block above)
    (edge : parent ∈ network.parents block) (added : network.CollectedAbove store parent merged) :
    network.CollectedAbove store parent (above ∪ merged) := by
  intro sample mem
  rcases mem_union.mp mem with isAbove | isMerged
  · obtain ⟨hash, eq, only⟩ := collected sample isAbove
    refine ⟨hash, eq, fun reaches => ?_⟩
    have isBlock := only (.step edge reaches)
    rw [isBlock] at reaches
    exact absurd (network.rank_parent _ _ edge) (Nat.not_lt.mpr reaches.rank_le)
  · exact added sample isMerged

namespace SampledWindowManager

include serves run sound

variable {fuel : Nat} {data : GhostdagRecord}

theorem walkDown_eq (cachesRight : manager.CachesRight)
    (pos : 0 < manager.windowSize windowType) (got : store.data block = some data)
    (notGenesis : block ≠ network.genesis) (enough : network.rank block < fuel)
    {heap : List SortableBlock} {collected : Finset SortableBlock}
    (tops : Tops (manager.windowSize windowType) collected heap)
    (above : network.CollectedAbove store block collected) :
    ∃ window samples, manager.walkDown windowType fuel heap data = some (.ok window) ∧
      manager.ChainSamples (manager.sampleRate windowType) data samples ∧
      Tops (manager.windowSize windowType) (collected ∪ samples) window := by
  induction fuel generalizing block data heap collected with
  | zero => exact absurd enough (Nat.not_lt_zero _)
  | succ fuel ih =>
    have stored := run.stored
    have known := stored.known_of_data got
    have parentsOf := (stored.parents block known notGenesis).2
    have coloured := run.coloured got notGenesis
    have picked := parentsOf.known _ coloured.selected_parent
    have notOrigin := stored.known_ne_origin picked
    rw [walkDown, if_neg notOrigin, serves.genesis]
    by_cases atGenesis : data.selectedParent = network.genesis
    · rw [if_pos atGenesis]
      refine ⟨heap, ∅, rfl, .genesis (atGenesis.trans serves.genesis.symm), ?_⟩
      rwa [union_empty]
    · obtain ⟨parent, edge⟩ := stored.exists_data picked
      have served : manager.ghostdagStore data.selectedParent = some parent := by
        rw [serves.ghostdag]
        exact edge
      have inChain : data.selectedParent ≠ manager.genesisHash := by rwa [serves.genesis]
      have least : SortableBlock.mk data.selectedParent parent.blueWork =
          store.sortable data.selectedParent := by
        rw [GhostdagStore.sortable, HeaderDag.Stored.blueWork_eq edge]
      obtain ⟨sampled, isSampled, areSamples⟩ := sampledMergeset_eq serves
        run sound (manager.sampleRate windowType) parentsOf coloured edge
      obtain ⟨allowed, isAllowed, refused⟩ := canPush_eq tops.ascending
        pos (SortableBlock.mk data.selectedParent parent.blueWork)
      rw [if_neg atGenesis, served, bind_eq_bind, bind_some, isAllowed, bind_eq_bind, bind_some]
      cases allowed with
      | false =>
        rw [if_neg Bool.false_ne_true]
        obtain ⟨full, larger⟩ := refused rfl
        obtain ⟨below, isBelow⟩ := exists_chainSamples serves run sound
          (manager.sampleRate windowType) (stored.parents _ picked atGenesis).2
          (run.coloured edge atGenesis)
        refine ⟨heap, _, rfl, .step inChain served isSampled isBelow,
          tops.union_below full fun sample mem kept inHeap => ?_⟩
        refine lt_of_le_of_lt ?_ (larger kept inHeap)
        rw [least]
        rcases mem_union.mp mem with merged | prior
        · obtain ⟨-, -, -, -, atMost⟩ := areSamples.source sample (List.mem_toFinset.mp merged)
          exact atMost
        · obtain ⟨hash, rfl, reaches, ne⟩ := isBelow.strictlyBelow
            serves run sound atGenesis edge prior
          exact (run.sortable_lt_of_below sound reaches picked ne).le
      | true =>
        rw [if_pos rfl, isSampled, bind_eq_bind, bind_some]
        have mergedBelow : ∀ sample ∈ (sampled.filterMap SampledBlock.sample?).toFinset, ∃ hash,
            sample = store.sortable hash ∧ network.Below hash block ∧ hash ≠ block := by
          intro sample mem
          obtain ⟨hash, eq, inPast, -⟩ := areSamples.source sample (List.mem_toFinset.mp mem)
          exact ⟨hash, eq, HeaderDag.below_and_ne_iff.mpr inPast⟩
        have fresh := disjoint_right.mp (above.disjoint mergedBelow)
        have pushed := tops.pushUntilRefused pos areSamples.descending fun sample mem =>
            fresh (List.mem_toFinset.mpr mem)
        have aboveParent := above.union coloured.selected_parent areSamples.collectedAbove
        cases cached : manager.cache windowType data.selectedParent with
        | some ancestor =>
          obtain ⟨below, isBelow, ancestorTops⟩ := cachesRight windowType
            data.selectedParent parent ancestor inChain served cached
          refine ⟨_, _, rfl, .step inChain served isSampled isBelow, ?_⟩
          rw [← union_assoc]
          exact pushed.merge ancestorTops (aboveParent.disjoint
            fun sample mem => isBelow.strictlyBelow serves run sound atGenesis edge mem)
        | none =>
          have lower := network.rank_parent _ _ coloured.selected_parent
          obtain ⟨window, below, walked, isBelow, windowTops⟩ :=
            ih edge atGenesis (by omega) pushed aboveParent
          refine ⟨window, _, walked, .step inChain served isSampled isBelow, ?_⟩
          rwa [← union_assoc]

theorem buildBlockWindow_eq (cachesRight : manager.CachesRight)
    (parentsOf : network.ParentsOf store parents) (coloured : network.Coloured store parents data)
    (enough : network.rank data.selectedParent < fuel) :
    ∃ window nonDaa, manager.buildBlockWindow fuel data windowType = some ⟨.ok window, nonDaa⟩ ∧
      manager.IsWindow windowType data window ∧
      manager.mergesetNonDaa data windowType = some nonDaa := by
  have kept := run.stored
  have picked := parentsOf.known _ coloured.selected_parent
  rw [buildBlockWindow, mergesetNonDaa]
  by_cases empty : manager.windowSize windowType = 0
  · obtain ⟨samples, isChain⟩ := exists_chainSamples serves run sound
      (manager.sampleRate windowType) parentsOf coloured
    rw [if_pos empty, if_pos empty]
    refine ⟨[], [], rfl, ⟨samples, isChain, ?_⟩, rfl⟩
    rw [empty]
    exact tops_zero
  · have pos := Nat.pos_of_ne_zero empty
    rw [if_neg empty, if_neg empty]
    by_cases atGenesis : data.selectedParent = manager.genesisHash
    · rw [if_pos atGenesis, if_pos atGenesis]
      exact ⟨[], _, rfl, ⟨∅, .genesis atGenesis, tops_nil⟩, rfl⟩
    · have ne : data.selectedParent ≠ network.genesis := by rwa [← serves.genesis]
      obtain ⟨notOrigin, above⟩ := kept.parents _ picked ne
      obtain ⟨parent, edge⟩ := kept.exists_data picked
      have served : manager.ghostdagStore data.selectedParent = some parent := by
        rw [serves.ghostdag]
        exact edge
      obtain ⟨sampled, isSampled, areSamples⟩ := sampledMergeset_eq serves
        run sound (manager.sampleRate windowType) parentsOf coloured edge
      rw [if_neg atGenesis, if_neg atGenesis, if_neg notOrigin, served,
        bind_eq_bind, bind_some, isSampled]
      have tooOld : (do
            let parent ← some parent
            let sampled ← manager.sampledMergeset
              (manager.sampleRate windowType) data parent.blueWork
            return sampled.filterMap SampledBlock.nonDaa?) =
          some (sampled.filterMap SampledBlock.nonDaa?) := by
        simp only [bind_eq_bind, bind_some, isSampled, Option.pure_def]
      have nodup : (sampled.filterMap SampledBlock.sample?).Nodup :=
        areSamples.descending.imp fun greater => greater.ne'
      cases cached : manager.cache windowType data.selectedParent with
      | some ancestor =>
        obtain ⟨below, isBelow, ancestorTops⟩ := cachesRight windowType
          data.selectedParent parent ancestor atGenesis served cached
        have fresh := disjoint_left.mp
          (areSamples.collectedAbove.disjoint fun sample mem =>
            isBelow.strictlyBelow serves run sound ne edge mem)
        have pushed := ancestorTops.pushAll pos nodup
          fun sample mem => fresh (List.mem_toFinset.mpr mem)
        rw [union_comm] at pushed
        exact ⟨_, _, rfl, ⟨_, .step atGenesis served isSampled isBelow, pushed⟩, tooOld⟩
      | none =>
        have pushed := tops_nil.pushAll pos nodup fun sample _ => notMem_empty sample
        rw [empty_union] at pushed
        obtain ⟨window, below, walked, isBelow, windowTops⟩ :=
          walkDown_eq serves run sound cachesRight pos edge
            ne enough pushed areSamples.collectedAbove
        refine ⟨window, _, ?_, ⟨_, .step atGenesis served isSampled isBelow, windowTops⟩, tooOld⟩
        simp only [bind_eq_bind, bind_some, walked, Option.pure_def]

omit serves run sound

theorem sampleBlocks_withoutCaches (sampleRate daaScore threshold index : Nat)
    (blocks : List SortableBlock) :
    manager.withoutCaches.sampleBlocks sampleRate daaScore threshold index blocks =
      manager.sampleBlocks sampleRate daaScore threshold index blocks := by
  induction blocks generalizing index with
  | nil => rfl
  | cons block rest ih =>
    simp only [sampleBlocks, ih]
    rfl

theorem sampledMergeset_withoutCaches (sampleRate : Nat) (data : GhostdagRecord)
    (selectedParentBlueWork : Nat) :
    manager.withoutCaches.sampledMergeset sampleRate data selectedParentBlueWork =
      manager.sampledMergeset sampleRate data selectedParentBlueWork := by
  simp only [sampledMergeset, sampleBlocks_withoutCaches]
  rfl

theorem mergesetNonDaa_withoutCaches (data : GhostdagRecord) :
    manager.withoutCaches.mergesetNonDaa data windowType =
      manager.mergesetNonDaa data windowType := by
  simp only [mergesetNonDaa, sampledMergeset_withoutCaches]
  rfl

theorem ChainSamples.of_withoutCaches {sampleRate : Nat} {samples : Finset SortableBlock}
    (isChain : manager.withoutCaches.ChainSamples sampleRate data samples) :
    manager.ChainSamples sampleRate data samples := by
  induction isChain with
  | genesis isGenesis => exact .genesis isGenesis
  | step ne edge isSampled _ ih =>
    rw [sampledMergeset_withoutCaches] at isSampled
    exact .step ne edge isSampled ih

include serves run sound

/-- With right windows in the caches every block other than the genesis gets the
reply it gets with empty caches: the largest samples along its chain. -/
theorem buildBlockWindow_ignores_caches (cachesRight : manager.CachesRight)
    (windowType : WindowType) (parentsOf : network.ParentsOf store parents)
    {service : Hash → Hash → Bool} (exact : network.Exact store service) {data : GhostdagRecord}
    (isData : (network.manager store service).ghostdag parents = some data ∨
      ∃ block ≠ network.genesis, parents = network.parents block ∧ store.data block = some data)
    {fuel : Nat} (enough : network.rank data.selectedParent < fuel) :
    ∃ window nonDaa, manager.buildBlockWindow fuel data windowType = some ⟨.ok window, nonDaa⟩ ∧
      manager.withoutCaches.buildBlockWindow fuel data windowType = some ⟨.ok window, nonDaa⟩ ∧
      manager.IsWindow windowType data window := by
  have coloured : network.Coloured store parents data := by
    rcases isData with computed | ⟨block, ne, rfl, got⟩
    · exact run.stored.coloured_of_ghostdag exact parentsOf computed
    · exact run.coloured got ne
  obtain ⟨window, nonDaa, built, isWindow, tooOld⟩ := buildBlockWindow_eq
    serves run sound cachesRight parentsOf coloured enough
  have servesEmpty : manager.withoutCaches.Serves network store :=
    ⟨serves.genesis, serves.ghostdag, serves.daaScore⟩
  have emptyRight : manager.withoutCaches.CachesRight := by
    intro type _ _ _ _ _ cached
    cases type <;> cases cached
  obtain ⟨other, otherNonDaa, otherBuilt, ⟨otherSamples, isOther, otherTops⟩,
    otherTooOld⟩ := buildBlockWindow_eq servesEmpty run sound emptyRight parentsOf coloured enough
  obtain ⟨samples, isChain, tops⟩ := isWindow
  cases isChain.unique isOther.of_withoutCaches
  cases tops.unique otherTops
  rw [mergesetNonDaa_withoutCaches] at otherTooOld
  cases tooOld.symm.trans otherTooOld
  exact ⟨window, nonDaa, built, otherBuilt, _, isChain, tops⟩

end SampledWindowManager

/-- The windows of the diamond, of which that of its tip is cached. -/
def diamondWindows : SampledWindowManager where
  genesisHash := .replicate 32 1
  ghostdagStore := diamondStore.data
  daaScore _ := some 0
  blockWindowCacheForDifficulty hash :=
    if hash = .replicate 32 4 then some [⟨.replicate 32 2, 2⟩, ⟨.replicate 32 3, 2⟩] else none
  blockWindowCacheForPastMedianTime _ := none
  difficultyWindowSize := 2
  difficultySampleRate := 1
  pastMedianTimeWindowSize := 2
  pastMedianTimeSampleRate := 1

theorem diamondWindows_cachesRight : diamondWindows.CachesRight := by
  have tip : ((diamondStore.data (.replicate 32 4)).map fun data =>
      (data.selectedParent, diamondWindows.sampledMergeset 1 data 2)) = some (.replicate 32 3,
        some [.sampled ⟨.replicate 32 3, 2⟩, .sampled ⟨.replicate 32 2, 2⟩]) := by
    decide +kernel
  have side : ((diamondStore.data (.replicate 32 3)).map fun data =>
      (data.selectedParent, data.blueWork)) = some (.replicate 32 1, 2) := by
    decide +kernel
  intro windowType hash _ window _ isData cached
  cases windowType with
  | difficultyWindow =>
    obtain ⟨rfl, eq⟩ := ite_none_right_eq_some.mp cached
    cases eq
    rw [show diamondWindows.ghostdagStore = diamondStore.data from rfl] at isData
    rw [isData, map_some, Option.some.injEq, Prod.mk.injEq] at tip
    obtain ⟨selected, isSampled⟩ := tip
    obtain ⟨parent, isParent, eq⟩ := map_eq_some_iff.mp side
    obtain ⟨onGenesis, work⟩ := Prod.mk.inj eq
    refine ⟨_, .step ?_ ?_ ((congrArg _ work).trans isSampled) (.genesis onGenesis), ?_⟩
    · rw [selected]
      decide
    · rw [selected]
      exact isParent
    · constructor
      · decide
      · decide
      · decide
      · decide
  | medianTimeWindow => cases cached
  | varyingWindow => cases cached

/-- A block on the tip takes its window from the cache. -/
theorem diamondWindows_ignore_caches : ∃ data window nonDaa,
    (diamondNetwork.manager diamondStore diamondNetwork.searching).ghostdag [.replicate 32 4] =
        some data ∧
      diamondWindows.buildBlockWindow 5 data .difficultyWindow = some ⟨.ok window, nonDaa⟩ ∧
      diamondWindows.withoutCaches.buildBlockWindow 5 data
        .difficultyWindow = some ⟨.ok window, nonDaa⟩ := by
  have known : .replicate 32 4 ∈ diamondStore.blocks := by decide +kernel
  have ran : ((diamondNetwork.manager diamondStore diamondNetwork.searching).ghostdag
      [.replicate 32 4]).isSome = true := by
    decide +kernel
  obtain ⟨data, computed⟩ := isSome_iff_exists.mp ran
  have serves : diamondWindows.Serves diamondNetwork diamondStore := ⟨rfl, rfl, fun _ _ => rfl⟩
  have parentsOf : diamondNetwork.ParentsOf diamondStore [.replicate 32 4] := by
    refine ⟨cons_ne_nil _ _, forall_mem_singleton.mpr known, ?_⟩
    intro first isFirst second isSecond _
    rw [List.mem_singleton.mp isFirst, List.mem_singleton.mp isSecond]
  have low : ∀ hash, diamondNetwork.rank hash < 5 := fun hash =>
    Nat.lt_succ_of_le findIdx_le_length
  obtain ⟨window, nonDaa, built, emptyBuilt, -⟩ :=
    SampledWindowManager.buildBlockWindow_ignores_caches serves diamondStore_run
      diamondStore_soundWork diamondWindows_cachesRight .difficultyWindow parentsOf
      (diamondNetwork.searching_exact diamondStore) (.inl computed) (low data.selectedParent)
  exact ⟨data, window, nonDaa, computed, built, emptyBuilt⟩

/-- A chain of blocks without work, whose order is that of their hashes. -/
def weightlessHeaders : List HeaderEntry := [⟨.replicate 32 5, [.replicate 32 1], 0⟩,
    ⟨.replicate 32 3, [.replicate 32 5], 0⟩,
    ⟨.replicate 32 4, [.replicate 32 3], 0⟩,
    ⟨.replicate 32 2, [.replicate 32 4], 0⟩]

def weightlessNetwork : HeaderDag := HeaderEntry.network (.replicate 32 1) 0 weightlessHeaders 2
    (by decide) diamondNetwork.genesis_ne_origin

def weightlessStore : GhostdagStore :=
  (weightlessNetwork.replay (weightlessHeaders.map HeaderEntry.hash)).getD
    weightlessNetwork.initialStore

def weightlessWindows : SampledWindowManager where
  genesisHash := .replicate 32 1
  ghostdagStore := weightlessStore.data
  daaScore _ := some 0
  blockWindowCacheForDifficulty _ := none
  blockWindowCacheForPastMedianTime hash :=
    if hash = .replicate 32 4 then some [⟨.replicate 32 5, 0⟩] else none
  difficultyWindowSize := 100
  difficultySampleRate := 1
  pastMedianTimeWindowSize := 1
  pastMedianTimeSampleRate := 1

/-- The selected parent, the blue work and the samples of a block. -/
def weightlessRow (hash : Hash) : Option (Hash × Nat × Option (List SampledBlock)) :=
  (weightlessStore.data hash).map fun data =>
    (data.selectedParent, data.blueWork, weightlessWindows.sampledMergeset 1 data 0)

variable {hash selectedParent : Hash}

theorem chainSamples_of_weightlessRow {sampled : List SampledBlock} {data parent : GhostdagRecord}
    {below : Finset SortableBlock}
    (row : weightlessRow hash = some (selectedParent, 0, some sampled))
    (got : weightlessStore.data hash = some data) (ne : selectedParent ≠ .replicate 32 1)
    (edge : weightlessStore.data selectedParent = some parent) (noWork : parent.blueWork = 0)
    (isBelow : weightlessWindows.ChainSamples 1 parent below) :
    weightlessWindows.ChainSamples 1 data
      ((sampled.filterMap SampledBlock.sample?).toFinset ∪ below) := by
  rw [weightlessRow, got, map_some, Option.some.injEq, Prod.mk.injEq, Prod.mk.injEq] at row
  obtain ⟨rfl, -, isSampled⟩ := row
  refine .step ne edge ?_ isBelow
  rw [noWork]
  exact isSampled

theorem exists_of_weightlessRow {sampled : Option (List SampledBlock)}
    (row : weightlessRow hash = some (selectedParent, 0, sampled)) :
    ∃ data, weightlessStore.data hash = some data ∧
      data.selectedParent = selectedParent ∧ data.blueWork = 0 := by
  obtain ⟨data, got, eq⟩ := map_eq_some_iff.mp row
  rw [Prod.mk.injEq, Prod.mk.injEq] at eq
  exact ⟨data, got, eq.1, eq.2.1⟩

theorem weightlessWindows_cachesRight : weightlessWindows.CachesRight := by
  have first : weightlessRow (.replicate 32 5) = some (.replicate 32 1, 0,
      some [.sampled ⟨.replicate 32 1, 0⟩]) := by
    decide +kernel
  have second : weightlessRow (.replicate 32 3) = some (.replicate 32 5, 0,
      some [.sampled ⟨.replicate 32 5, 0⟩]) := by
    decide +kernel
  have third : weightlessRow (.replicate 32 4) = some (.replicate 32 3, 0,
      some [.sampled ⟨.replicate 32 3, 0⟩]) := by
    decide +kernel
  intro windowType hash data window _ isData cached
  cases windowType with
  | difficultyWindow => cases cached
  | medianTimeWindow =>
    obtain ⟨rfl, eq⟩ := ite_none_right_eq_some.mp cached
    cases eq
    obtain ⟨firstData, isFirst, onGenesis, noWork⟩ := exists_of_weightlessRow first
    obtain ⟨secondData, isSecond, -, secondNoWork⟩ := exists_of_weightlessRow second
    refine ⟨_, chainSamples_of_weightlessRow third isData (by decide)
      isSecond secondNoWork (chainSamples_of_weightlessRow second isSecond
        (by decide) isFirst noWork (.genesis onGenesis)), ?_⟩
    constructor
    · decide
    · decide
    · decide
    · decide
  | varyingWindow => cases cached

/-- Without work the walk down the chain stops at a block with a smaller hash,
although the cached window has a larger block from below it. -/
theorem weightlessWindows_depend_on_caches : weightlessNetwork.Run weightlessStore ∧
    weightlessWindows.Serves weightlessNetwork weightlessStore ∧
    weightlessWindows.CachesRight ∧
    ∃ data, weightlessStore.data (.replicate 32 2) = some data ∧
      (weightlessWindows.buildBlockWindow 5 data .medianTimeWindow).map
        (·.window.toOption) = some (some [⟨.replicate 32 5, 0⟩]) ∧
      (weightlessWindows.withoutCaches.buildBlockWindow 5 data
          .medianTimeWindow).map (·.window.toOption) =
        some (some [⟨.replicate 32 4, 0⟩]) := by
  have replayed : (weightlessNetwork.replay
      (weightlessHeaders.map HeaderEntry.hash)).isSome = true := by
    decide +kernel
  have run : weightlessNetwork.Run weightlessStore := by
    obtain ⟨store, isStore⟩ := isSome_iff_exists.mp replayed
    rw [weightlessStore, isStore]
    exact HeaderDag.run_of_replay isStore
  have windows : ((weightlessStore.data (.replicate 32 2)).map fun data =>
      ((weightlessWindows.buildBlockWindow 5 data .medianTimeWindow).map (·.window.toOption),
        (weightlessWindows.withoutCaches.buildBlockWindow 5 data
          .medianTimeWindow).map (·.window.toOption))) =
      some (some (some [⟨.replicate 32 5, 0⟩]), some (some [⟨.replicate 32 4, 0⟩])) := by
    decide +kernel
  obtain ⟨data, got, eq⟩ := map_eq_some_iff.mp windows
  rw [Prod.mk.injEq] at eq
  exact ⟨run, ⟨rfl, rfl, fun _ _ => rfl⟩, weightlessWindows_cachesRight, data, got, eq⟩

end Sophis
