import Sophis.DifficultyBits

namespace Sophis

open ByteCodec List ListSelection Option SampledDifficultyManager

/-!
# The exact difficulty of a window

The bits that the node calculates from a window of at least two blocks, when the
expected duration is a positive word. Sums and products of 320 bits then never
wrap, and the order of the window does not matter.
-/

/-- The compact form loses low bits only. -/
theorem fromCompactTargetBits_compactTargetBits_le {target : Nat} (fits : target < 2 ^ 256) :
    fromCompactTargetBits (compactTargetBits target) ≤ target := by
  obtain ⟨size, isSize, -⟩ := compactValue_spec target
  rw [isSize.decoded fits]
  exact leadingPart_le target size

/-- A word times a target has 320 bits. -/
theorem targets_lt (count : Nat) (word : count ≤ 2 ^ 64) : (2 ^ 256 - 1) * count < 2 ^ 320 := by
  have product : ∀ bits, bits = 256 + 64 → 2 ^ bits = 2 ^ 256 * 2 ^ 64 := by
    intro bits eq
    rw [eq, Nat.pow_add]
  rw [product 320 rfl]
  exact Nat.mul_lt_mul_of_lt_of_le (by decide) word (by decide)

/-- Without overflow the calculation is the one on natural numbers. -/
theorem retarget_eq {targetsSum count : Nat} {minTs maxTs targetTime sampleRate : UInt64}
    {maximum : Nat} (maximumFits : maximum < 2 ^ 256) (sumFits : targetsSum ≤ count * (2 ^ 256 - 1))
    (ordered : minTs ≤ maxTs) (pos : 0 < targetTime.toNat * sampleRate.toNat * count)
    (fits : targetTime.toNat * sampleRate.toNat * count < 2 ^ 64) :
    retarget targetsSum count minTs maxTs targetTime sampleRate maximum =
      some (compactTargetBits (min (targetsSum / count * max (maxTs.toNat - minTs.toNat) 1 /
        (targetTime.toNat * sampleRate.toNat * count)) maximum)) := by
  have average : targetsSum / count ≤ 2 ^ 256 - 1 := Nat.div_le_of_le_mul sumFits
  have span : max (maxTs.toNat - minTs.toNat) 1 ≤ 2 ^ 64 := by
    have := maxTs.toNat_lt
    omega
  have product : targetsSum / count * max (maxTs.toNat - minTs.toNat) 1 < 2 ^ 320 :=
    (Nat.mul_le_mul average span).trans_lt (targets_lt (2 ^ 64) le_rfl)
  rw [retarget_eq_some maximumFits ordered pos fits, Nat.mod_eq_of_lt product]

def readDifficultyBlock (headers : Hash → Option CompactHeaderData) (item : SortableBlock) :
    DifficultyBlock :=
  let data := (headers item.hash).getD ⟨0, 0⟩
  ⟨data.timestamp, data.bits, item⟩

def DifficultyBlock.target (block : DifficultyBlock) : Nat := fromCompactTargetBits block.bits

/-- The average target of all blocks but the earliest, times the time between the
earliest and the latest over the expected one, and at most the maximum target. -/
def SampledDifficultyManager.nextTarget (manager : SampledDifficultyManager)
    (blocks : List DifficultyBlock) (earliest latest : DifficultyBlock) : Nat :=
  let count := blocks.length - 1
  let average := ((blocks.map DifficultyBlock.target).sum - earliest.target) / count
  let span := max 1 (latest.timestamp.toNat - earliest.timestamp.toNat)
  let expected := manager.targetTimePerBlock.toNat * manager.difficultySampleRate.toNat * count
  min manager.maxDifficultyTarget.toNat (average * span / expected)

/-- The earliest block of some, by time, work and hash, and one of the latest. -/
structure Bounds (blocks : List DifficultyBlock) (earliest latest : DifficultyBlock) : Prop where
  earliest_mem : earliest ∈ blocks
  earliest_le : ∀ other ∈ blocks, earliest.key ≤ other.key
  latest_mem : latest ∈ blocks
  latest_ge : ∀ other ∈ blocks, other.timestamp ≤ latest.timestamp

variable {manager : SampledDifficultyManager} {headers : Hash → Option CompactHeaderData}
  {window : List SortableBlock} {blocks : List DifficultyBlock}

theorem sum_targets_le (others : List DifficultyBlock) :
    (others.map DifficultyBlock.target).sum ≤ others.length * (2 ^ 256 - 1) := by
  induction others with
  | nil => exact Nat.zero_le _
  | cons block others ih =>
    have small : block.target ≤ 2 ^ 256 - 1 :=
      Nat.le_sub_one_of_lt (fromCompactTargetBits_lt block.bits)
    rw [map_cons, sum_cons, length_cons, Nat.succ_mul, Nat.add_comm]
    exact Nat.add_le_add ih small

theorem bitsOfBlocks_eq (two : 2 ≤ blocks.length)
    (pos : 0 < manager.targetTimePerBlock.toNat * manager.difficultySampleRate.toNat)
    (fits : manager.targetTimePerBlock.toNat * manager.difficultySampleRate.toNat *
      (blocks.length - 1) < 2 ^ 64) :
    ∃ earliest latest, Bounds blocks earliest latest ∧ manager.bitsOfBlocks blocks =
      some (compactTargetBits (manager.nextTarget blocks earliest latest)) := by
  have nonempty : blocks ≠ [] := by
    rintro rfl
    exact absurd two (by decide)
  cases least : firstMin DifficultyBlock.key blocks with
  | none => exact (nonempty (selectBy_eq_none_iff.mp least)).elim
  | some pair =>
    obtain ⟨position, earliest⟩ := pair
    cases greatest : lastMax DifficultyBlock.key blocks with
    | none => exact (nonempty (selectBy_eq_none_iff.mp greatest)).elim
    | some pair =>
      obtain ⟨latestPosition, latest⟩ := pair
      obtain ⟨atPosition, isLeast⟩ := firstMin_spec least
      obtain ⟨latestAt, isGreatest⟩ := lastMax_spec greatest
      have latest_ge : ∀ other ∈ blocks, other.timestamp ≤ latest.timestamp :=
        fun other mem => DifficultyBlock.timestamp_le_of_key_le (isGreatest other mem)
      have inside := mem_of_getElem? atPosition
      refine ⟨earliest, latest, ⟨inside, isLeast, mem_of_getElem? latestAt, latest_ge⟩, ?_⟩
      have dropped := perm_swapRemove atPosition
      have total := (dropped.map DifficultyBlock.target).sum_eq
      have count := dropped.length_eq
      rw [map_cons, sum_cons] at total
      rw [length_cons] at count
      have bounded := sum_targets_le (swapRemove blocks position)
      have few : (swapRemove blocks position).length < 2 ^ 64 := by
        refine lt_of_le_of_lt (Nat.le_mul_of_pos_left _ pos) ?_
        rwa [← count, Nat.add_sub_cancel] at fits
      have sum : ((swapRemove blocks position).map DifficultyBlock.bits).foldl addTarget 0 =
          ((swapRemove blocks position).map DifficultyBlock.target).sum := by
        rw [foldl_addTarget 0 _ (Nat.pos_of_ne_zero (NeZero.ne _)), Nat.zero_add, List.map_map]
        refine Nat.mod_eq_of_lt (bounded.trans_lt ?_)
        rw [Nat.mul_comm]
        exact targets_lt _ few.le
      rw [bitsOfBlocks, least, greatest]
      simp only [bind_eq_bind, bind_some, sum]
      rw [retarget_eq manager.maxDifficultyTarget.isLt bounded (latest_ge earliest inside)
        (Nat.mul_pos pos (by omega)) (by rwa [← count, Nat.add_sub_cancel] at fits)]
      simp only [nextTarget, ← total, ← count, Nat.add_sub_cancel,
        Nat.add_sub_cancel_left, Nat.min_comm, Nat.max_comm]

/-- Two orders of a window have the same earliest block and the same span. -/
theorem nextTarget_of_perm {earliest latest otherEarliest otherLatest : DifficultyBlock}
    {others : List DifficultyBlock}
    (read : ∀ block ∈ blocks, block = readDifficultyBlock headers block.sortableBlock)
    (perm : others.Perm blocks) (bounds : Bounds blocks earliest latest)
    (otherBounds : Bounds others otherEarliest otherLatest) :
    manager.nextTarget others otherEarliest otherLatest =
      manager.nextTarget blocks earliest latest := by
  have inBlocks := perm.mem_iff.mp otherBounds.earliest_mem
  have sameKey : otherEarliest.key = earliest.key := le_antisymm
    (otherBounds.earliest_le _ (perm.mem_iff.mpr bounds.earliest_mem))
    (bounds.earliest_le _ inBlocks)
  have sameBlock : otherEarliest.sortableBlock = earliest.sortableBlock := by
    have parts := (Prod.mk.inj (toLex_inj.mp (Prod.mk.inj (toLex_inj.mp sameKey)).2))
    have hash : otherEarliest.sortableBlock.hash = earliest.sortableBlock.hash :=
      FixedBytes.ext (map_injective_iff.mpr (fun _ _ => UInt8.toNat_inj.mp) parts.2)
    obtain ⟨_, _, _, _⟩ := otherEarliest
    obtain ⟨_, _, _, _⟩ := earliest
    cases hash
    cases parts.1
    rfl
  have eq : otherEarliest = earliest := by
    rw [read _ inBlocks, read _ bounds.earliest_mem, sameBlock]
  have latest : otherLatest.timestamp = latest.timestamp := UInt64.le_antisymm
    (bounds.latest_ge _ (perm.mem_iff.mp otherBounds.latest_mem))
    (otherBounds.latest_ge _ (perm.mem_iff.mpr bounds.latest_mem))
  simp only [nextTarget, eq, latest, perm.length_eq, (perm.map DifficultyBlock.target).sum_eq]

theorem getDifficultyBlocks_eq (known : ∀ item ∈ window, (headers item.hash).isSome = true) :
    getDifficultyBlocks headers window = some (window.map (readDifficultyBlock headers)) := by
  refine mapM_eq_some fun item mem => ?_
  obtain ⟨data, got⟩ := isSome_iff_exists.mp (known item mem)
  simp only [readDifficultyBlock, got]
  rfl

/-- On a window of enough blocks, and at least two, with a positive expected
duration that is a word, the calculation returns the compact form of the next
target, in whichever order the window is, and its target is at most the maximum
one. -/
theorem calculateDifficultyBits_exact (manager : SampledDifficultyManager)
    (known : ∀ item ∈ window, (headers item.hash).isSome = true)
    (enough : manager.minDifficultyWindowSize ≤ window.length) (two : 2 ≤ window.length)
    (positive : 0 < manager.targetTimePerBlock.toNat * manager.difficultySampleRate.toNat)
    (fits : manager.targetTimePerBlock.toNat * manager.difficultySampleRate.toNat *
      (window.length - 1) < 2 ^ 64) (selectedParent : Hash) :
    ∃ earliest latest bits, Bounds (window.map (readDifficultyBlock headers)) earliest latest ∧
      bits = compactTargetBits
        (manager.nextTarget (window.map (readDifficultyBlock headers)) earliest latest) ∧
      fromCompactTargetBits bits ≤ manager.maxDifficultyTarget.toNat ∧
      ∀ other : List SortableBlock, other.Perm window →
        manager.calculateDifficultyBits headers other selectedParent = some bits := by
  have ran : ∀ other : List SortableBlock, other.Perm window →
      manager.calculateDifficultyBits headers other selectedParent =
        manager.bitsOfBlocks (other.map (readDifficultyBlock headers)) := by
    intro other perm
    rw [calculateDifficultyBits,
      getDifficultyBlocks_eq fun item mem => known item (perm.mem_iff.mp mem)]
    simp only [bind_eq_bind, bind_some, length_map, perm.length_eq]
    rw [if_neg (Nat.not_lt.mpr enough)]
  obtain ⟨earliest, latest, bounds, -⟩ := @bitsOfBlocks_eq manager
    (window.map (readDifficultyBlock headers)) (by rwa [length_map]) positive (by rwa [length_map])
  have read : ∀ block ∈ window.map (readDifficultyBlock headers),
      block = readDifficultyBlock headers block.sortableBlock := by
    intro block mem
    obtain ⟨item, -, rfl⟩ := List.mem_map.mp mem
    rfl
  refine ⟨earliest, latest, _, bounds, rfl, ?_, fun other perm => ?_⟩
  · exact (fromCompactTargetBits_compactTargetBits_le ((min_le_left _ _).trans_lt
      manager.maxDifficultyTarget.isLt)).trans (min_le_left _ _)
  · rw [ran other perm]
    obtain ⟨otherEarliest, otherLatest, otherBounds, result⟩ := @bitsOfBlocks_eq manager
      (other.map (readDifficultyBlock headers)) (by rwa [length_map, perm.length_eq]) positive
      (by rwa [length_map, perm.length_eq])
    rw [result, nextTarget_of_perm read (perm.map _) bounds otherBounds]

/-- Mainnet with another least window and another block time. -/
def smallWindows (minDifficultyWindowSize : Nat) (targetTimePerBlock : UInt64) :
    SampledDifficultyManager :=
  { mainnetDifficulty with minDifficultyWindowSize, targetTimePerBlock }

def twoBlocks : List SortableBlock := [⟨zeroHash, 1⟩, ⟨FixedBytes.replicate 32 1, 2⟩]

def twoHeaders (hash : Hash) : Option CompactHeaderData :=
  if hash = zeroHash then some ⟨5, 0x1d0e5073⟩ else some ⟨3005, 0x1d0e5074⟩

theorem twoBlocks_exact : ∃ earliest latest bits,
    Bounds (twoBlocks.map (readDifficultyBlock twoHeaders)) earliest latest ∧
    bits = compactTargetBits ((smallWindows 2 100).nextTarget
      (twoBlocks.map (readDifficultyBlock twoHeaders)) earliest latest) ∧
    fromCompactTargetBits bits ≤ (smallWindows 2 100).maxDifficultyTarget.toNat ∧
    ∀ other : List SortableBlock, other.Perm twoBlocks →
      (smallWindows 2 100).calculateDifficultyBits twoHeaders other zeroHash = some bits :=
  calculateDifficultyBits_exact (smallWindows 2 100) (by decide) (by decide) (by decide)
    (by decide) (by decide) zeroHash

/-- A window of one block, or a block time of zero, divides by zero. -/
theorem smallWindows_abort :
    (smallWindows 1 100).calculateDifficultyBits twoHeaders [⟨zeroHash, 1⟩] zeroHash = none ∧
    (smallWindows 2 0).calculateDifficultyBits twoHeaders twoBlocks zeroHash = none := by
  constructor <;> decide +kernel

end Sophis
