import Mathlib.Data.List.AList
import Sophis.Coinbase
import Sophis.HeadersSelectedTip
import Sophis.ParentDag

namespace Sophis

open ByteCodec List MachineWord

/-!
# The GHOSTDAG protocol

`consensus/src/processes/ghostdag`: the selected parent of a new block is its
heaviest parent. The rest of what its parents bring into its past is its
mergeset, which is coloured block by block: a block is blue when no blue block
gets more than `k` blue blocks into its anticone. A result `none` stands for an
abort of the source: a missing entry, a failed assertion or an overflow.
-/

/-- The target that compact bits encode. The shift of a 256-bit number takes
its distance modulo 256. -/
def fromCompactTargetBits (bits : UInt32) : Nat :=
  let unshifted := bits.toNat / 2 ^ 24
  let mantissa :=
    if unshifted ≤ 3 then
      bits.toNat % 2 ^ 24 / 2 ^ (8 * (3 - unshifted))
    else
      bits.toNat % 2 ^ 24
  let exponent := if unshifted ≤ 3 then 0 else 8 * (unshifted - 3)
  if 0x7FFFFF < mantissa then
    0
  else
    mantissa * 2 ^ (exponent % 256) % 2 ^ 256

/-- The expected number of hashes for a block. The sums wrap as those of 256-bit
numbers do, a division by zero and a result of more than 192 bits abort. -/
def calcWork (bits : UInt32) : Option Nat :=
  let target := fromCompactTargetBits bits
  let divisor := (target + 1) % 2 ^ 256
  if divisor = 0 then
    none
  else
    let result := ((2 ^ 256 - 1 - target) / divisor + 1) % 2 ^ 256
    if result < 2 ^ 192 then some result else none

/-- Adds 192-bit numbers, which wrap. -/
def addWork (first second : Nat) : Nat := (first + second) % 2 ^ 192

/-- The block in whose future all blocks are. -/
def blockHashOrigin : Hash := FixedBytes.replicate 32 0xFE

/-- How many blues are in the anticone of a blue block, as far as this changed
with the mergeset. -/
abbrev HashKTypeMap := AList fun _ : Hash => UInt16

/-- All of the GHOSTDAG data of a block. Blue work is a 192-bit number. -/
structure GhostdagRecord extends GhostdagData where
  blueWork : Nat
  bluesAnticoneSizes : HashKTypeMap

namespace GhostdagRecord

/-- The data of a new block before its mergeset is coloured. The capacity
`k + 1` is calculated with an overflow check. -/
def newWithSelectedParent (selectedParent : Hash) (k : UInt16) : Option GhostdagRecord :=
  if k.toNat + 1 < 2 ^ 16 then
    some {
      blueScore := 0
      selectedParent
      mergesetBlues := [selectedParent]
      mergesetReds := []
      blueWork := 0
      bluesAnticoneSizes := (∅ : HashKTypeMap).insert selectedParent 0 }
  else
    none

/-- Raises the stored sizes of the blues that a new blue block affects. -/
def raiseSizes (sizes : HashKTypeMap) : List (Sigma fun _ : Hash => UInt16) → Option HashKTypeMap
  | [] => some sizes
  | ⟨blue, size⟩ :: rest =>
    if size.toNat + 1 < 2 ^ 16 then
      raiseSizes (sizes.insert blue (size + 1)) rest
    else
      none

def addBlue (data : GhostdagRecord) (block : Hash) (blueAnticoneSize : UInt16)
    (blockBluesAnticoneSizes : HashKTypeMap) : Option GhostdagRecord := do
  let sizes ← raiseSizes (data.bluesAnticoneSizes.insert block blueAnticoneSize)
    blockBluesAnticoneSizes.entries
  return { data with
    mergesetBlues := data.mergesetBlues ++ [block]
    bluesAnticoneSizes := sizes }

def addRed (data : GhostdagRecord) (block : Hash) : GhostdagRecord :=
  { data with mergesetReds := data.mergesetReds ++ [block] }

end GhostdagRecord

/-- The stores that GHOSTDAG reads. The size of the stores bounds its loops. -/
structure GhostdagManager where
  genesisHash : Hash
  k : UInt16
  levelWork : Nat
  ghostdagStore : Hash → Option GhostdagRecord
  relationsStore : Hash → Option (List Hash)
  headersStore : Hash → Option UInt32
  isDagAncestorOf : Hash → Hash → Bool
  storeSize : Nat

namespace GhostdagManager

variable (manager : GhostdagManager)

def sortable (block : Hash) : Option SortableBlock := do
  let data ← manager.ghostdagStore block
  return ⟨block, data.blueWork⟩

/-- The later of two blocks that do not differ wins, as with iterators. -/
def maxSortable (best next : SortableBlock) : SortableBlock := if next < best then best else next

def findSelectedParent (parents : List Hash) : Option Hash := do
  let blocks ← parents.mapM manager.sortable
  match blocks with
  | [] => none
  | first :: rest => some (rest.foldl maxSortable first).hash

/-- Sorts by blue work, then by hash. -/
def sortBlocks (blocks : List Hash) : Option (List Hash) := do
  let sortables ← blocks.mapM manager.sortable
  return (sortables.insertionSort fun first second => ¬ second < first).map SortableBlock.hash

end GhostdagManager

/-- The queue, the blocks found and those passed over. -/
structure MergesetSearch where
  queue : List Hash
  mergeset : List Hash
  past : List Hash

namespace GhostdagManager

variable (manager : GhostdagManager)

def visitParent (selectedParent : Hash) (search : MergesetSearch)
    (parent : Hash) : MergesetSearch :=
  if parent ∈ search.mergeset ∨ parent ∈ search.past then
    search
  else if manager.isDagAncestorOf parent selectedParent then
    { search with past := parent :: search.past }
  else
    { search with
      queue := search.queue ++ [parent]
      mergeset := parent :: search.mergeset }

def searchMergeset (selectedParent : Hash) : Nat → MergesetSearch → Option (List Hash)
  | 0, _ => none
  | fuel + 1, search =>
    match search.queue with
    | [] => some search.mergeset
    | current :: rest => do
      let parents ← manager.relationsStore current
      searchMergeset selectedParent fuel (parents.foldl (manager.visitParent selectedParent)
        { search with queue := rest })

/-- Walks from the parents into the past, up to the past of the selected
parent. -/
def unorderedMergesetWithoutSelectedParent (selectedParent : Hash)
    (parents : List Hash) : Option (List Hash) :=
  let queue := parents.filter fun parent => parent ≠ selectedParent
  manager.searchMergeset selectedParent
    (parents.length + manager.storeSize + 1) ⟨queue, queue.dedup, []⟩

def orderedMergesetWithoutSelectedParent (selectedParent : Hash)
    (parents : List Hash) : Option (List Hash) := do
  let mergeset ← manager.unorderedMergesetWithoutSelectedParent selectedParent parents
  manager.sortBlocks mergeset

/-- Walks down the chain to the last block whose mergeset changed the size. -/
def findSize (block : Hash) : Nat → HashKTypeMap → Hash → Option UInt16
  | 0, _, _ => none
  | fuel + 1, sizes, selectedParent =>
    match sizes.lookup block with
    | some size => some size
    | none =>
      if selectedParent = manager.genesisHash ∨ selectedParent = blockHashOrigin then
        none
      else do
        let data ← manager.ghostdagStore selectedParent
        findSize block fuel data.bluesAnticoneSizes data.selectedParent

def blueAnticoneSize (block : Hash) (context : GhostdagRecord) : Option UInt16 :=
  manager.findSize block (manager.storeSize + 1) context.bluesAnticoneSizes context.selectedParent

end GhostdagManager

/-- What is known of a candidate: the sizes of the blues in its anticone and
their number. -/
structure ColoringProgress where
  candidateBluesAnticoneSizes : HashKTypeMap
  candidateBlueAnticoneSize : UInt16

namespace GhostdagManager

variable (manager : GhostdagManager) (newBlockData : GhostdagRecord) (blueCandidate : Hash)

/-- Goes through the blues of a chain block. `none` is the violation of a
cluster. -/
def checkPeers : List Hash → ColoringProgress → Option (Option ColoringProgress)
  | [], progress => some (some progress)
  | peer :: rest, progress =>
    if manager.isDagAncestorOf peer blueCandidate then
      checkPeers rest progress
    else do
      let peerSize ← manager.blueAnticoneSize peer newBlockData
      guard (progress.candidateBlueAnticoneSize.toNat + 1 < 2 ^ 16)
      let next : ColoringProgress := {
        candidateBluesAnticoneSizes := progress.candidateBluesAnticoneSizes.insert peer peerSize
        candidateBlueAnticoneSize := progress.candidateBlueAnticoneSize + 1 }
      if manager.k < next.candidateBlueAnticoneSize then
        some none
      else if peerSize = manager.k then
        some none
      else do
        guard (peerSize ≤ manager.k)
        checkPeers rest next

/-- Walks down the chain until the candidate is in the future of the chain
block. The new block itself has no hash. -/
def checkChain : Nat → Option Hash → GhostdagRecord → ColoringProgress →
    Option (Option ColoringProgress)
  | 0, _, _, _ => none
  | fuel + 1, chainHash, chainData, progress =>
    if chainHash.any fun hash => manager.isDagAncestorOf hash blueCandidate then
      some (some progress)
    else do
      match ← manager.checkPeers newBlockData blueCandidate chainData.mergesetBlues progress with
      | none => some none
      | some next =>
        let data ← manager.ghostdagStore chainData.selectedParent
        checkChain fuel (some chainData.selectedParent) data next

/-- The colour of a candidate: blue with the blues in its anticone, or red. -/
def checkBlueCandidate : Option (Option ColoringProgress) := do
  guard (manager.k.toNat + 1 < 2 ^ 16)
  if UInt16.ofNat newBlockData.mergesetBlues.length = manager.k + 1 then
    some none
  else
    manager.checkChain newBlockData blueCandidate (manager.storeSize + 1) none newBlockData ⟨∅, 0⟩

def colourCandidate : Option GhostdagRecord := do
  match ← manager.checkBlueCandidate newBlockData blueCandidate with
  | some progress =>
    newBlockData.addBlue blueCandidate progress.candidateBlueAnticoneSize
      progress.candidateBluesAnticoneSizes
  | none => some (newBlockData.addRed blueCandidate)

def blockWork (block : Hash) : Option Nat := do
  let bits ← manager.headersStore block
  let work ← calcWork bits
  return max work manager.levelWork

def ghostdag (parents : List Hash) : Option GhostdagRecord := do
  let selectedParent ← manager.findSelectedParent parents
  if selectedParent = blockHashOrigin then
    GhostdagRecord.newWithSelectedParent selectedParent 1
  else do
    let initial ← GhostdagRecord.newWithSelectedParent selectedParent manager.k
    let ordered ← manager.orderedMergesetWithoutSelectedParent selectedParent parents
    let coloured ← ordered.foldlM manager.colourCandidate initial
    let parentData ← manager.ghostdagStore selectedParent
    let blueScore ← checkedAdd parentData.blueScore (UInt64.ofNat coloured.mergesetBlues.length)
    let works ← coloured.mergesetBlues.mapM manager.blockWork
    return { coloured with
      blueScore
      blueWork := addWork parentData.blueWork (works.foldl addWork 0) }

end GhostdagManager

/-- Merges a list whose first element is given into another one. -/
def mergeFirst (before : SortableBlock → SortableBlock → Prop)
    [DecidableRel before] (first : SortableBlock) (rest : List SortableBlock)
    (mergeRest : List SortableBlock → Option (List SortableBlock)) :
    List SortableBlock → Option (List SortableBlock)
  | [] => some (first :: rest)
  | second :: others =>
    if before first second then do
      let merged ← mergeRest (second :: others)
      return first :: merged
    else if before second first then do
      let merged ← mergeFirst before first rest mergeRest others
      return second :: merged
    else
      none

/-- Merges two lists that a relation orders. Blocks that are ordered neither way
abort. -/
def mergeJoinBy (before : SortableBlock → SortableBlock → Prop) [DecidableRel before] :
    List SortableBlock → List SortableBlock → Option (List SortableBlock)
  | [] => some
  | first :: rest => mergeFirst before first rest (mergeJoinBy before rest)

/-- Merges two ascending lists. Equal blocks abort. -/
def mergeAscending : List SortableBlock → List SortableBlock → Option (List SortableBlock) :=
  mergeJoinBy (· < ·)

variable (ghostdagStore : Hash → Option GhostdagRecord)

def ascendingMergesetWithoutSelectedParent (data : GhostdagRecord) :
    Option (List SortableBlock) := do
  let sortable := fun block => do
    let stored ← ghostdagStore block
    return SortableBlock.mk block stored.blueWork
  let blues ← (data.mergesetBlues.drop 1).mapM sortable
  let reds ← data.mergesetReds.mapM sortable
  mergeAscending blues reds

/-- The selected parent and then the mergeset by blue work. -/
def consensusOrderedMergeset (data : GhostdagRecord) : Option (List Hash) := do
  let ascending ← ascendingMergesetWithoutSelectedParent ghostdagStore data
  return data.selectedParent :: ascending.map SortableBlock.hash

/-- All headers, known or not: the parents and the bits that the hash of a
header stands for, with the parameters of the protocol. -/
structure HeaderDag extends ParentDag.Dag Hash where
  genesis : Hash
  genesis_parents : parents genesis = []
  genesis_ne_origin : genesis ≠ blockHashOrigin
  bits : Hash → UInt32
  k : UInt16
  levelWork : Nat

/-- The blocks that a node knows, the latest first, and their data. -/
structure GhostdagStore where
  blocks : List Hash
  data : Hash → Option GhostdagRecord

def genesisGhostdagData : GhostdagRecord where
  blueScore := 0
  selectedParent := blockHashOrigin
  mergesetBlues := []
  mergesetReds := []
  blueWork := 0
  bluesAnticoneSizes := ∅

def GhostdagStore.insert (store : GhostdagStore) (block : Hash)
    (data : GhostdagRecord) : GhostdagStore where
  blocks := block :: store.blocks
  data := Function.update store.data block (some data)

theorem GhostdagStore.insert_data_self (store : GhostdagStore) (block : Hash)
    (data : GhostdagRecord) : (store.insert block data).data block = some data := by
  simp [GhostdagStore.insert]

theorem GhostdagStore.insert_data_of_ne {block other : Hash} (ne : other ≠ block)
    (store : GhostdagStore) (data : GhostdagRecord) :
    (store.insert block data).data other = store.data other := by
  simp [GhostdagStore.insert, ne]

namespace HeaderDag

variable (network : HeaderDag)

def initialStore : GhostdagStore where
  blocks := [network.genesis]
  data hash := if hash = network.genesis then some genesisGhostdagData else none

/-- The protocol on the stores of a node, with an answer to reachability
queries. -/
def manager (store : GhostdagStore) (service : Hash → Hash → Bool) : GhostdagManager where
  genesisHash := network.genesis
  k := network.k
  levelWork := network.levelWork
  ghostdagStore := store.data
  relationsStore hash :=
    if hash ∈ store.blocks then
      some (if hash = network.genesis then [blockHashOrigin]
        else network.parents hash)
    else
      none
  headersStore hash := if hash ∈ store.blocks then some (network.bits hash) else none
  isDagAncestorOf := service
  storeSize := store.blocks.length

/-- A service that answers by the paths between known blocks. -/
def Exact (store : GhostdagStore) (service : Hash → Hash → Bool) : Prop :=
  ∀ first ∈ store.blocks, ∀ second ∈ store.blocks,
    service first second = true ↔ network.Below first second

/-- Known parents of which none is in the past of another. -/
structure ParentsOf (store : GhostdagStore) (parents : List Hash) : Prop where
  nonempty : parents ≠ []
  known : ∀ parent ∈ parents, parent ∈ store.blocks
  antichain : network.Antichain parents

/-- A node that learns block after block, each with known parents of which none
is in the past of another one. -/
inductive Run : GhostdagStore → Prop where
  | genesis : Run network.initialStore
  | insert {store : GhostdagStore} {block : Hash}
    {service : Hash → Hash → Bool} {data : GhostdagRecord} :
    Run store →
    block ∉ store.blocks →
    block ≠ blockHashOrigin →
    network.ParentsOf store (network.parents block) →
    network.Exact store service →
    (network.manager store service).ghostdag (network.parents block) = some data →
    Run (store.insert block data)

/-- What every run keeps of the stores. -/
structure Stored (store : GhostdagStore) : Prop where
  genesis_known : network.genesis ∈ store.blocks
  genesis_data : store.data network.genesis = some genesisGhostdagData
  nodup : store.blocks.Nodup
  known_iff : ∀ block, block ∈ store.blocks ↔ (store.data block).isSome = true
  parents : ∀ block ∈ store.blocks, block ≠ network.genesis → block ≠ blockHashOrigin ∧
    network.ParentsOf store (network.parents block)

variable {network}

theorem ParentsOf.insert {store : GhostdagStore} {parents : List Hash}
    (parentsOf : network.ParentsOf store parents) (block : Hash) (data : GhostdagRecord) :
    network.ParentsOf (store.insert block data) parents where
  nonempty := parentsOf.nonempty
  known parent edge := mem_cons_of_mem block (parentsOf.known parent edge)
  antichain := parentsOf.antichain

theorem Run.stored {store : GhostdagStore} (run : network.Run store) : network.Stored store := by
  induction run with
  | genesis =>
    refine ⟨mem_singleton_self _, if_pos rfl, nodup_singleton _,
      fun block => ?_, fun block known notGenesis => ?_⟩
    · by_cases isGenesis : block = network.genesis
      · simp [initialStore, isGenesis]
      · simp [initialStore, isGenesis]
    · exact absurd (mem_singleton.mp known) notGenesis
  | @insert store block service data _ fresh notOrigin parentsOf _ _
    ih =>
    have ne : network.genesis ≠ block := by
      rintro rfl
      exact fresh ih.genesis_known
    refine ⟨mem_cons_of_mem _ ih.genesis_known,
      (store.insert_data_of_ne ne data).trans ih.genesis_data,
      List.nodup_cons.mpr ⟨fresh, ih.nodup⟩, fun other => ?_, fun other known notGenesis => ?_⟩
    · by_cases eq : other = block
      · simp [GhostdagStore.insert, eq]
      · simp [GhostdagStore.insert, eq, ih.known_iff]
    · rcases mem_cons.mp known with rfl | old
      · exact ⟨notOrigin, parentsOf.insert _ _⟩
      · obtain ⟨isNotOrigin, oldParents⟩ := ih.parents other old notGenesis
        exact ⟨isNotOrigin, oldParents.insert _ _⟩

namespace Stored

variable {store : GhostdagStore} (stored : network.Stored store)

include stored

variable {block : Hash}

theorem exists_data (known : block ∈ store.blocks) : ∃ data, store.data block = some data :=
  Option.isSome_iff_exists.mp ((stored.known_iff block).mp known)

theorem known_of_data {data : GhostdagRecord} (got : store.data block = some data) :
    block ∈ store.blocks :=
  (stored.known_iff block).mpr (Option.isSome_of_eq_some got)

theorem known_parent {parent : Hash} (known : block ∈ store.blocks)
    (edge : parent ∈ network.parents block) : parent ∈ store.blocks := by
  by_cases isGenesis : block = network.genesis
  · rw [isGenesis, network.genesis_parents] at edge
    cases edge
  · exact (stored.parents block known isGenesis).2.known parent edge

theorem known_below {lower : Hash} (below : network.Below lower block)
    (known : block ∈ store.blocks) : lower ∈ store.blocks := by
  induction below with
  | refl => exact known
  | step edge _ ih => exact ih (stored.known_parent known edge)

theorem genesis_below (known : block ∈ store.blocks) : network.Below network.genesis block := by
  induction block using network.ascend with
  | upwards block ih =>
    by_cases isGenesis : block = network.genesis
    · exact isGenesis ▸ .refl _
    · have parentsOf := (stored.parents block known isGenesis).2
      obtain ⟨parent, edge⟩ := exists_mem_of_ne_nil _ parentsOf.nonempty
      exact .step edge (ih parent edge (parentsOf.known parent edge))

end Stored

end HeaderDag

end Sophis
