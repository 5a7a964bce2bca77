import Sophis.LightHeaders
import Sophis.ListSelection
import Sophis.Mergeset

namespace Sophis

open ByteCodec List ListSelection Option

/-!
# Difficulty bits of the node and of the light client

`consensus/src/processes/difficulty.rs` and `wallet/spv/src/header_chain.rs`
calculate the target of the next block from a window of blocks: the average
target of all blocks but the oldest, scaled by the time the window took. Both
drop one block of the least timestamp, and they decide ties differently.
-/

def bitLength (value : Nat) : Nat :=
  if value = 0 then 0 else value.log2 + 1

/-- The compact form of a 256-bit target as a number: the size in bytes above
the three leading bytes, whose sign bit stays clear. -/
def compactValue (target : Nat) : Nat :=
  let size := (bitLength target + 7) / 8
  let compact :=
    if size ≤ 3 then
      target * 2 ^ (8 * (3 - size))
    else
      target / 2 ^ (8 * (size - 3))
  if compact / 2 ^ 23 % 2 ≠ 0 then
    compact / 2 ^ 8 + (size + 1) * 2 ^ 24
  else
    compact + size * 2 ^ 24

def compactTargetBits (target : Nat) : UInt32 :=
  UInt32.ofNat (compactValue target)

theorem lt_pow_bitLength (value : Nat) : value < 2 ^ bitLength value := by
  unfold bitLength
  split_ifs with zero
  · rw [zero]
    decide
  · exact Nat.lt_log2_self

theorem pow_le_of_lt_bitLength {value exponent : Nat} (below : exponent < bitLength value) :
    2 ^ exponent ≤ value := by
  unfold bitLength at below
  split_ifs at below with zero
  · omega
  · calc 2 ^ exponent ≤ 2 ^ value.log2 := Nat.pow_le_pow_right (by decide) (by omega)
      _ ≤ value := Nat.log2_self_le zero

theorem leadingBytes_eq (target size : Nat) : (if size ≤ 3 then
      target * 2 ^ (8 * (3 - size))
    else
      target / 2 ^ (8 * (size - 3))) = target * 2 ^ 24 / 2 ^ (8 * size) := by
  split_ifs with short
  · have split : 2 ^ 24 = 2 ^ (8 * (3 - size)) * 2 ^ (8 * size) := by
      rw [← Nat.pow_add]
      congr 1
      omega
    rw [split, ← Nat.mul_assoc, Nat.mul_div_cancel _ (Nat.two_pow_pos _)]
  · have split : 2 ^ (8 * size) = 2 ^ (8 * (size - 3)) * 2 ^ 24 := by
      rw [← Nat.pow_add]
      congr 1
      omega
    rw [split, Nat.mul_div_mul_right _ _ (Nat.two_pow_pos _)]

/-- The bytes of a target and a clear sign bit. -/
structure CompactSize (target size : Nat) : Prop where
  fits : 2 * target < 2 ^ (8 * size)
  least : ∀ other, 2 * target < 2 ^ (8 * other) → size ≤ other

theorem compactValue_spec (target : Nat) : ∃ size, CompactSize target size ∧
    compactValue target = target * 2 ^ 24 / 2 ^ (8 * size) + size * 2 ^ 24 := by
  have fits : target < 2 ^ (8 * ((bitLength target + 7) / 8)) :=
    lt_of_lt_of_le (lt_pow_bitLength target) (Nat.pow_le_pow_right (by decide) (by omega))
  have least : ∀ other, target < 2 ^ (8 * other) → (bitLength target + 7) / 8 ≤ other := by
    intro other otherFits
    by_contra smaller
    exact absurd (pow_le_of_lt_bitLength (by omega)) (not_le.mpr otherFits)
  unfold compactValue
  simp only [leadingBytes_eq]
  generalize (bitLength target + 7) / 8 = size at fits least ⊢
  have leading : target * 2 ^ 24 / 2 ^ (8 * size) < 2 ^ 24 := by
    rw [Nat.div_lt_iff_lt_mul (Nat.two_pow_pos _), Nat.mul_comm]
    exact Nat.mul_lt_mul_of_pos_left fits (by decide)
  have signBit : 2 ^ 23 ≤ target * 2 ^ 24 / 2 ^ (8 * size) ↔ 2 ^ (8 * size) ≤ 2 * target := by
    rw [Nat.le_div_iff_mul_le (Nat.two_pow_pos _)]
    omega
  split_ifs with signed
  · have large : 2 ^ (8 * size) ≤ 2 * target := by
      apply signBit.mp
      generalize target * 2 ^ 24 / 2 ^ (8 * size) = compact at signed
      omega
    refine ⟨size + 1, ⟨?_, ?_⟩, ?_⟩
    · rw [Nat.mul_add, Nat.pow_add]
      omega
    · intro other otherFits
      have notLess := least other (by omega)
      rcases Nat.lt_or_eq_of_le notLess with less | eq
      · exact less
      · rw [eq] at large
        omega
    · rw [Nat.mul_add, Nat.pow_add, ← Nat.div_div_eq_div_mul]
  · have small : ¬ 2 ^ (8 * size) ≤ 2 * target := by
      rw [← signBit]
      generalize target * 2 ^ 24 / 2 ^ (8 * size) = compact at signed leading
      omega
    refine ⟨size, ⟨not_le.mp small, ?_⟩, rfl⟩
    intro other otherFits
    exact least other (by omega)

variable {target other : Nat}

theorem compactValue_mono (le : target ≤ other) : compactValue target ≤ compactValue other := by
  obtain ⟨size, ⟨fits, least⟩, value⟩ := compactValue_spec target
  obtain ⟨otherSize, ⟨otherFits, -⟩, otherValue⟩ := compactValue_spec other
  rw [value, otherValue]
  have sizes : size ≤ otherSize := least otherSize (by omega)
  rcases Nat.lt_or_eq_of_le sizes with less | rfl
  · have leading : target * 2 ^ 24 / 2 ^ (8 * size) < 2 ^ 24 := by
      rw [Nat.div_lt_iff_lt_mul (Nat.two_pow_pos _)]
      omega
    calc target * 2 ^ 24 / 2 ^ (8 * size) + size * 2 ^ 24 ≤ (size + 1) * 2 ^ 24 := by omega
      _ ≤ otherSize * 2 ^ 24 := Nat.mul_le_mul_right _ less
      _ ≤ _ := Nat.le_add_left _ _
  · have leading : target * 2 ^ 24 / 2 ^ (8 * size) ≤ other * 2 ^ 24 / 2 ^ (8 * size) :=
      Nat.div_le_div_right (Nat.mul_le_mul_right _ le)
    omega

theorem compactValue_lt (fits : target < 2 ^ 256) : compactValue target < 2 ^ 32 := by
  obtain ⟨size, ⟨sizeFits, least⟩, value⟩ := compactValue_spec target
  have small : size ≤ 33 := least 33 (by omega)
  have leading : target * 2 ^ 24 / 2 ^ (8 * size) < 2 ^ 24 := by
    rw [Nat.div_lt_iff_lt_mul (Nat.two_pow_pos _)]
    omega
  omega

theorem compactTargetBits_min {maximum : Nat} (maximumFits : maximum < 2 ^ 256)
    (otherFits : other < 2 ^ 256) (eq : compactTargetBits maximum = compactTargetBits other) :
    compactTargetBits (min target maximum) = compactTargetBits (min target other) := by
  have sameValue : compactValue maximum = compactValue other := by
    have toNat := congrArg UInt32.toNat eq
    unfold compactTargetBits at toNat
    rw [UInt32.toNat_ofNat', UInt32.toNat_ofNat', Nat.mod_eq_of_lt (compactValue_lt maximumFits),
      Nat.mod_eq_of_lt (compactValue_lt otherFits)] at toNat
    exact toNat
  unfold compactTargetBits
  congr 1
  apply le_antisymm
  · rcases le_total target other with below | above
    · rw [min_eq_left below]
      exact compactValue_mono (min_le_left _ _)
    · rw [min_eq_right above, ← sameValue]
      exact compactValue_mono (min_le_right _ _)
  · rcases le_total target maximum with below | above
    · rw [min_eq_left below]
      exact compactValue_mono (min_le_left _ _)
    · rw [min_eq_right above, sameValue]
      exact compactValue_mono (min_le_right _ _)

theorem fromCompactTargetBits_lt (bits : UInt32) : fromCompactTargetBits bits < 2 ^ 256 := by
  unfold fromCompactTargetBits
  simp only
  split_ifs
  all_goals first
    | exact Nat.two_pow_pos 256
    | exact Nat.mod_lt _ (Nat.two_pow_pos 256)

/-- A target with the bytes below the three leading ones cleared. -/
def leadingPart (target size : Nat) : Nat :=
  target / 2 ^ (8 * (size - 3)) * 2 ^ (8 * (size - 3))

variable {size : Nat}

theorem leadingPart_le (target size : Nat) : leadingPart target size ≤ target :=
  Nat.div_mul_le_self _ _

theorem leadingPart_of_le (short : size ≤ 3) : leadingPart target size = target := by
  rw [leadingPart, Nat.sub_eq_zero_of_le short, Nat.mul_zero, Nat.pow_zero, Nat.div_one,
    Nat.mul_one]

theorem pow_bytes (long : 3 < size) : 2 ^ (8 * (size - 1)) = 2 ^ 16 * 2 ^ (8 * (size - 3)) := by
  rw [← Nat.pow_add]
  congr 1
  omega

section

variable (isSize : CompactSize target size)
include isSize

theorem CompactSize.compactValue_eq :
    compactValue target = target * 2 ^ 24 / 2 ^ (8 * size) + size * 2 ^ 24 := by
  obtain ⟨own, isOwn, value⟩ := compactValue_spec target
  rw [value, le_antisymm (isOwn.least size isSize.fits) (isSize.least own isOwn.fits)]

/-- Decoding the compact form gives back the leading bytes. -/
theorem CompactSize.decoded (fits : target < 2 ^ 256) :
    fromCompactTargetBits (compactTargetBits target) = leadingPart target size := by
  have small : size ≤ 33 := isSize.least 33 (by omega)
  have leading : target * 2 ^ 24 / 2 ^ (8 * size) < 2 ^ 23 := by
    rw [Nat.div_lt_iff_lt_mul (Nat.two_pow_pos _)]
    have := isSize.fits
    omega
  have bits : (compactTargetBits target).toNat =
      target * 2 ^ 24 / 2 ^ (8 * size) + size * 2 ^ 24 := by
    rw [compactTargetBits, UInt32.toNat_ofNat', Nat.mod_eq_of_lt (compactValue_lt fits),
      isSize.compactValue_eq]
  have cut := leadingBytes_eq target size
  generalize target * 2 ^ 24 / 2 ^ (8 * size) = mantissa at leading bits cut
  have high : (mantissa + size * 2 ^ 24) / 2 ^ 24 = size := by omega
  have low : (mantissa + size * 2 ^ 24) % 2 ^ 24 = mantissa := by omega
  simp only [fromCompactTargetBits, bits, high, low]
  split_ifs at cut ⊢ with short
  · exact absurd (Nat.div_le_self mantissa (2 ^ (8 * (3 - size)))) (by omega)
  · rw [leadingPart_of_le short, ← cut, Nat.mul_div_cancel _ (Nat.two_pow_pos _), Nat.zero_mod,
      Nat.pow_zero, Nat.mul_one, Nat.mod_eq_of_lt fits]
  · omega
  · rw [Nat.mod_eq_of_lt (show 8 * (size - 3) < 256 by omega), ← cut]
    exact Nat.mod_eq_of_lt ((leadingPart_le target size).trans_lt fits)

theorem CompactSize.pow_le (pos : 0 < size) :
    2 ^ (8 * (size - 1)) ≤ 2 * leadingPart target size := by
  have large : 2 ^ (8 * (size - 1)) ≤ 2 * target := by
    by_contra smaller
    have := isSize.least (size - 1) (by omega)
    omega
  rcases Nat.lt_or_ge 3 size with long | short
  · have quotient : 2 ^ 15 ≤ target / 2 ^ (8 * (size - 3)) := by
      rw [Nat.le_div_iff_mul_le (Nat.two_pow_pos _)]
      have := pow_bytes long
      omega
    have whole := Nat.mul_le_mul_right (2 ^ (8 * (size - 3))) quotient
    rw [pow_bytes long, leadingPart]
    omega
  · rwa [leadingPart_of_le short]

theorem CompactSize.leadingPart : CompactSize (leadingPart target size) size := by
  refine ⟨?_, fun other fits => ?_⟩
  · have := leadingPart_le target size
    have := isSize.fits
    omega
  · by_contra smaller
    have large := isSize.pow_le (by omega)
    have powers : 2 ^ (8 * other) ≤ 2 ^ (8 * (size - 1)) :=
      Nat.pow_le_pow_right (by decide) (by omega)
    omega

end

/-- The compact form of a target loses less than one part in two to the
fifteenth, keeps the order, and is the compact form of what it decodes to. -/
theorem compactTargetBits_faithful (target other : Nat) (fits : target < 2 ^ 256)
    (otherFits : other < 2 ^ 256) :
    fromCompactTargetBits (compactTargetBits target) ≤ target ∧
      target - fromCompactTargetBits (compactTargetBits target) ≤ target / 2 ^ 15 ∧
      (target < 2 ^ 23 → fromCompactTargetBits (compactTargetBits target) = target) ∧
      (target ≤ other → fromCompactTargetBits (compactTargetBits target) ≤
        fromCompactTargetBits (compactTargetBits other)) ∧
      compactTargetBits (fromCompactTargetBits (compactTargetBits target)) =
        compactTargetBits target := by
  obtain ⟨size, isSize, -⟩ := compactValue_spec target
  obtain ⟨otherSize, isOther, -⟩ := compactValue_spec other
  rw [isSize.decoded fits, isOther.decoded otherFits]
  refine ⟨leadingPart_le _ _, ?_, fun small => ?_, fun ordered => ?_, ?_⟩
  · rcases Nat.lt_or_ge 3 size with long | short
    · have large := isSize.pow_le (by omega)
      have below := leadingPart_le target size
      rw [pow_bytes long] at large
      have lost : target - leadingPart target size = target % 2 ^ (8 * (size - 3)) := by
        have parts := Nat.div_add_mod' target (2 ^ (8 * (size - 3)))
        rw [leadingPart]
        omega
      have bound := Nat.mod_lt target (Nat.two_pow_pos (8 * (size - 3)))
      rw [lost, Nat.le_div_iff_mul_le (by decide)]
      omega
    · rw [leadingPart_of_le short, Nat.sub_self]
      exact Nat.zero_le _
  · exact leadingPart_of_le (isSize.least 3 (by omega))
  · have fitsOther := isOther.fits
    rcases Nat.lt_or_eq_of_le (isSize.least otherSize (by omega)) with less | rfl
    · have large := isOther.pow_le (by omega)
      have powers : 2 ^ (8 * size) ≤ 2 ^ (8 * (otherSize - 1)) :=
        Nat.pow_le_pow_right (by decide) (by omega)
      have fitsOwn := isSize.fits
      have below := leadingPart_le target size
      omega
    · exact Nat.mul_le_mul_right _ (Nat.div_le_div_right ordered)
  · rw [compactTargetBits, compactTargetBits, isSize.leadingPart.compactValue_eq,
      isSize.compactValue_eq, ← leadingBytes_eq, ← leadingBytes_eq]
    split_ifs with short
    · rw [leadingPart_of_le short]
    · rw [leadingPart, Nat.mul_div_cancel _ (Nat.two_pow_pos _)]

theorem thirdByte_faithful :
    compactTargetBits (fromCompactTargetBits (compactTargetBits 0x1234567)) =
      compactTargetBits 0x1234567 :=
  (compactTargetBits_faithful 0x1234567 0 (by decide) (by decide)).2.2.2.2

/-- Adds a target to a 320-bit sum, which wraps. -/
def addTarget (sum : Nat) (bits : UInt32) : Nat :=
  (sum + fromCompactTargetBits bits) % 2 ^ 320

def divideBy (dividend divisor : Nat) : Option Nat :=
  if divisor = 0 then none else some (dividend / divisor)

/-- A 64-bit word, `none` when the number does not fit. -/
def toWord (value : Nat) : Option Nat :=
  if value < 2 ^ 64 then some value else none

/-- The compact form of the average target, scaled by the measured duration of
the window over the expected one. -/
def retarget (targetsSum count : Nat) (minTs maxTs : UInt64)
    (targetTimePerBlock difficultySampleRate : UInt64) (maxTarget : Nat) :
    Option UInt32 := do
  let averageTarget ← divideBy targetsSum count
  let elapsed ← if minTs ≤ maxTs then some (maxTs - minTs) else none
  let measuredDuration := max elapsed.toNat 1
  let sampleDuration ← toWord (targetTimePerBlock.toNat * difficultySampleRate.toNat)
  let expectedDuration ← toWord (sampleDuration * count)
  let newTarget ← divideBy (averageTarget * measuredDuration % 2 ^ 320) expectedDuration
  let clamped := min newTarget maxTarget
  if clamped < 2 ^ 256 then some (compactTargetBits clamped) else none

theorem foldl_addTarget (sum : Nat) (bits : List UInt32) (fits : sum < 2 ^ 320) :
    bits.foldl addTarget sum = (sum + (bits.map fromCompactTargetBits).sum) % 2 ^ 320 := by
  induction bits generalizing sum with
  | nil =>
    rw [map_nil, sum_nil, Nat.add_zero, Nat.mod_eq_of_lt fits]
    rfl
  | cons head rest ih =>
    have wraps : addTarget sum head < 2 ^ 320 := by
      unfold addTarget
      exact Nat.mod_lt _ (Nat.pos_of_ne_zero (NeZero.ne _))
    rw [foldl_cons, ih _ wraps, map_cons, sum_cons, addTarget, Nat.mod_add_mod, Nat.add_assoc]

variable {targetsSum count : Nat} {minTs maxTs targetTime sampleRate : UInt64} {maximum : Nat}

theorem retarget_congr_max {other : Nat} (maximumFits : maximum < 2 ^ 256)
    (otherFits : other < 2 ^ 256) (eq : compactTargetBits maximum = compactTargetBits other) :
    retarget targetsSum count minTs maxTs targetTime sampleRate maximum =
      retarget targetsSum count minTs maxTs targetTime sampleRate other := by
  unfold retarget
  have clamped : ∀ newTarget : Nat, (if min newTarget maximum < 2 ^ 256 then
        some (compactTargetBits (min newTarget maximum))
      else
        none) =
      (if min newTarget other < 2 ^ 256 then
        some (compactTargetBits (min newTarget other))
      else
        none) := by
    intro newTarget
    rw [if_pos (lt_of_le_of_lt (min_le_right _ _) maximumFits),
      if_pos (lt_of_le_of_lt (min_le_right _ _) otherFits),
      compactTargetBits_min maximumFits otherFits eq]
  simp only [clamped]

theorem retarget_eq_some (maximumFits : maximum < 2 ^ 256) (ordered : minTs ≤ maxTs)
    (pos : 0 < targetTime.toNat * sampleRate.toNat * count)
    (fits : targetTime.toNat * sampleRate.toNat * count < 2 ^ 64) :
    retarget targetsSum count minTs maxTs targetTime sampleRate maximum =
      some (compactTargetBits (min (targetsSum / count * max (maxTs.toNat - minTs.toNat) 1 %
        2 ^ 320 / (targetTime.toNat * sampleRate.toNat * count)) maximum)) := by
  have counted : count ≠ 0 := by
    rintro rfl
    exact absurd pos (lt_irrefl 0)
  have sampleFits : targetTime.toNat * sampleRate.toNat < 2 ^ 64 :=
    lt_of_le_of_lt (Nat.le_mul_of_pos_right _ (Nat.pos_of_ne_zero counted)) fits
  have clampedFits : ∀ newTarget : Nat, min newTarget maximum < 2 ^ 256 :=
    fun _ => lt_of_le_of_lt (min_le_right _ _) maximumFits
  simp only [retarget, divideBy, toWord, if_neg counted, if_pos ordered, if_pos sampleFits,
    if_pos fits, if_neg pos.ne', bind_eq_bind, bind_some, UInt64.toNat_sub_of_le _ _ ordered,
    if_pos (clampedFits _)]

/-- What the node reads of a header in a window. -/
structure CompactHeaderData where
  timestamp : UInt64
  bits : UInt32
  deriving Repr, DecidableEq

/-- A block of a window, as the estimate reads it. -/
structure DifficultyBlock where
  timestamp : UInt64
  bits : UInt32
  sortableBlock : SortableBlock
  deriving Repr, DecidableEq

/-- Blocks are compared by time, then by work, then by hash. -/
def DifficultyBlock.key (block : DifficultyBlock) : Nat ×ₗ (Nat ×ₗ List Nat) :=
  toLex (block.timestamp.toNat, block.sortableBlock.key)

/-- The parameters of the node. -/
structure SampledDifficultyManager where
  genesisHash : Hash
  genesisBits : UInt32
  maxDifficultyTarget : BitVec 256
  difficultyWindowSize : Nat
  minDifficultyWindowSize : Nat
  difficultySampleRate : UInt64
  targetTimePerBlock : UInt64

def getDifficultyBlocks (headers : Hash → Option CompactHeaderData)
    (window : List SortableBlock) : Option (List DifficultyBlock) :=
  window.mapM fun item => do
    let data ← headers item.hash
    return { timestamp := data.timestamp, bits := data.bits,
             sortableBlock := item }

/-- The calculation on the blocks of a window that is large enough. -/
def SampledDifficultyManager.bitsOfBlocks (manager : SampledDifficultyManager)
    (blocks : List DifficultyBlock) : Option UInt32 := do
  let (minTsIndex, minBlock) ← firstMin DifficultyBlock.key blocks
  let (_, maxBlock) ← lastMax DifficultyBlock.key blocks
  let others := swapRemove blocks minTsIndex
  let targetsSum := (others.map DifficultyBlock.bits).foldl addTarget 0
  retarget targetsSum others.length minBlock.timestamp maxBlock.timestamp manager.targetTimePerBlock
    manager.difficultySampleRate manager.maxDifficultyTarget.toNat

/-- The bits that the node expects. -/
def SampledDifficultyManager.calculateDifficultyBits (manager : SampledDifficultyManager)
    (headers : Hash → Option CompactHeaderData) (window : List SortableBlock)
    (selectedParent : Hash) : Option UInt32 := do
  let difficultyBlocks ← getDifficultyBlocks headers window
  if difficultyBlocks.length < manager.minDifficultyWindowSize then
    if selectedParent = manager.genesisHash then
      some manager.genesisBits
    else
      (headers selectedParent).map CompactHeaderData.bits
  else
    manager.bitsOfBlocks difficultyBlocks

/-- The parameters of the light client. -/
structure SpvDaaParams where
  genesisBits : UInt32
  maxDifficultyTargetBits : UInt32
  difficultyWindowSize : Nat
  minDifficultyWindowSize : Nat
  difficultySampleRate : UInt64
  targetTimePerBlock : UInt64

def SpvDaaParams.sophisMainnet : SpvDaaParams where
  genesisBits := 486722099
  maxDifficultyTargetBits := 0x207fffff
  difficultyWindowSize := 661
  minDifficultyWindowSize := 150
  difficultySampleRate := 40
  targetTimePerBlock := 100

/-- Records are compared by time, then by hash. -/
def MinHeader.key (header : MinHeader) : Nat ×ₗ List Nat :=
  toLex (header.timestamp.toNat, header.hash.bytes.map UInt8.toNat)

/-- The sum of the targets and the number of all records but the one at a
position. -/
def sumTargetsExcept (position : Nat) : Nat → Nat × Nat → List MinHeader → Nat × Nat
  | _, sums, [] => sums
  | index, (targetsSum, count), header :: rest =>
    sumTargetsExcept position (index + 1)
      (if index ≠ position then
        (addTarget targetsSum header.bits, count + 1)
      else
        (targetsSum, count)) rest

/-- The bits that the light client expects. -/
def computeExpectedBits (window : List MinHeader) (params : SpvDaaParams) : Option UInt32 :=
  if window.length < params.minDifficultyWindowSize then
    some params.genesisBits
  else do
    let (minTsPos, minHeader) ← firstMin MinHeader.key window
    let (_, maxHeader) ← lastMax MinHeader.key window
    let (targetsSum, count) := sumTargetsExcept minTsPos 0 (0, 0) window
    if count = 0 then
      some params.genesisBits
    else
      retarget targetsSum count minHeader.timestamp maxHeader.timestamp params.targetTimePerBlock
        params.difficultySampleRate (fromCompactTargetBits params.maxDifficultyTargetBits)

open MinHeader

theorem sumTargetsExcept_after {pos index : Nat} {targetsSum count : Nat}
    {window : List MinHeader} (after : pos < index) :
    sumTargetsExcept pos index (targetsSum, count) window =
      ((window.map bits).foldl addTarget targetsSum, count + window.length) := by
  induction window generalizing index targetsSum count with
  | nil => rfl
  | cons header rest ih =>
    unfold sumTargetsExcept
    rw [if_pos (by omega), ih (by omega), map_cons,
      foldl_cons, length_cons, Nat.add_right_comm, Nat.add_assoc]

theorem sumTargetsExcept_eq {index offset targetsSum count : Nat} {window : List MinHeader} :
    sumTargetsExcept (index + offset) index (targetsSum, count) window =
      (((window.eraseIdx offset).map bits).foldl addTarget targetsSum,
        count + (window.eraseIdx offset).length) := by
  induction window generalizing index offset targetsSum count with
  | nil => rfl
  | cons header rest ih =>
    unfold sumTargetsExcept
    cases offset with
    | zero => rw [if_neg (by omega), sumTargetsExcept_after (by omega), eraseIdx_cons_zero]
    | succ offset =>
      rw [if_pos (by omega), Nat.add_succ, ← Nat.succ_add, ih, eraseIdx_cons_succ, map_cons,
        foldl_cons, length_cons, Nat.add_right_comm, Nat.add_assoc]

/-- Parameters of the client and of the node that match. The maximum target is
a compact number for the client: it matches when the compact forms do. -/
structure SpvDaaParams.Matches (params : SpvDaaParams)
    (manager : SampledDifficultyManager) : Prop where
  difficultyWindowSize : params.difficultyWindowSize = manager.difficultyWindowSize
  minDifficultyWindowSize : params.minDifficultyWindowSize = manager.minDifficultyWindowSize
  difficultySampleRate : params.difficultySampleRate = manager.difficultySampleRate
  targetTimePerBlock : params.targetTimePerBlock = manager.targetTimePerBlock
  maxDifficultyTarget : compactTargetBits (fromCompactTargetBits params.maxDifficultyTargetBits) =
    compactTargetBits manager.maxDifficultyTarget.toNat

def MinHeader.sortable (header : MinHeader) : SortableBlock :=
  ⟨header.hash, header.blueWork.toNat⟩

def MinHeader.difficultyBlock (header : MinHeader) : DifficultyBlock :=
  ⟨header.timestamp, header.bits, header.sortable⟩

/-- The window of the node holds the blocks of the client's window, in any
order. -/
structure SameBlocks (headers : Hash → Option CompactHeaderData)
    (heap : List SortableBlock) (window : List MinHeader) : Prop where
  perm : heap.Perm (window.map MinHeader.sortable)
  stored : ∀ header ∈ window, headers header.hash = some ⟨header.timestamp, header.bits⟩

/-- No record of the window is older. -/
def MinHeader.Oldest (window : List MinHeader) (header : MinHeader) : Prop :=
  header ∈ window ∧ ∀ other ∈ window, header.timestamp ≤ other.timestamp

/-- The record that the client drops and the one that the node drops have one
target. The client takes the least hash of the oldest records, the node the
least blue work first. -/
def SameDroppedTarget (window : List MinHeader) : Prop :=
  ∀ first ∈ window, ∀ second ∈ window,
    (∀ other ∈ window, first.key ≤ other.key) →
    (∀ other ∈ window, second.difficultyBlock.key ≤ other.difficultyBlock.key) →
    fromCompactTargetBits first.bits = fromCompactTargetBits second.bits

variable {window : List MinHeader} {heap : List SortableBlock}
  {headers : Hash → Option CompactHeaderData}

theorem SameBlocks.getDifficultyBlocks (eq : SameBlocks headers heap window) :
    ∃ blocks, getDifficultyBlocks headers heap = some blocks ∧
      blocks.Perm (window.map difficultyBlock) := by
  -- what the node reads for a block, whether or not it is stored
  let read := fun item : SortableBlock =>
    let data := (headers item.hash).getD ⟨0, 0⟩
    DifficultyBlock.mk data.timestamp data.bits item
  refine ⟨heap.map read, mapM_eq_some ?_, ?_⟩
  · intro item mem
    obtain ⟨header, inWindow, rfl⟩ := List.mem_map.mp (eq.perm.mem_iff.mp mem)
    have kept := eq.stored header inWindow
    simp only [sortable, kept, read]
    rfl
  · refine (eq.perm.map read).trans (List.Perm.of_eq ?_)
    rw [List.map_map]
    refine map_congr_left fun header inWindow => ?_
    have kept := eq.stored header inWindow
    simp only [Function.comp_apply, sortable, kept, read]
    rfl

theorem timestamp_le_of_key_le {first second : MinHeader} (least : first.key ≤ second.key) :
    first.timestamp ≤ second.timestamp := by
  rcases Prod.Lex.toLex_le_toLex.mp least with less | ⟨eq, -⟩
  · exact Nat.le_of_lt less
  · exact Nat.le_of_eq eq

theorem DifficultyBlock.timestamp_le_of_key_le {first second : DifficultyBlock}
    (least : first.key ≤ second.key) : first.timestamp ≤ second.timestamp := by
  rcases Prod.Lex.toLex_le_toLex.mp least with less | ⟨eq, -⟩
  · exact Nat.le_of_lt less
  · exact Nat.le_of_eq eq

/-- What is left of a window when an oldest record is dropped. -/
structure Remainder (window : List MinHeader) (oldest : MinHeader) (targetsSum count : Nat)
    (minTs maxTs : UInt64) : Prop where
  isOldest : oldest.Oldest window
  minTs_eq : minTs = oldest.timestamp
  sum : ∃ rest, targetsSum = rest % 2 ^ 320 ∧ fromCompactTargetBits oldest.bits + rest =
    (window.map fun header => fromCompactTargetBits header.bits).sum
  count : count + 1 = window.length
  newest : ∃ header ∈ window, header.timestamp = maxTs
  newest_le : ∀ header ∈ window, header.timestamp ≤ maxTs

theorem Remainder.of_dropped {oldest newest : MinHeader} {bits : List UInt32}
    (isOldest : oldest.Oldest window)
    (dropped : (oldest.bits :: bits).Perm (window.map MinHeader.bits)) (isNewest : newest ∈ window)
    (newest_le : ∀ header ∈ window, header.timestamp ≤ newest.timestamp) :
    Remainder window oldest (bits.foldl addTarget 0) bits.length oldest.timestamp
      newest.timestamp := by
  refine ⟨isOldest, rfl, ⟨_, foldl_addTarget 0 bits (Nat.pos_of_ne_zero (NeZero.ne _)), ?_⟩, ?_,
    ⟨newest, isNewest, rfl⟩, newest_le⟩
  · have total := (dropped.map fromCompactTargetBits).sum_eq
    rw [map_cons, sum_cons, List.map_map] at total
    rw [Nat.zero_add]
    exact total
  · have count := dropped.length_eq
    rwa [length_cons, length_map] at count

theorem Remainder.unique {oldest other : MinHeader} {targetsSum otherSum count otherCount : Nat}
    {minTs otherMin maxTs otherMax : UInt64}
    (sameTarget : fromCompactTargetBits oldest.bits = fromCompactTargetBits other.bits)
    (first : Remainder window oldest targetsSum count minTs maxTs)
    (second : Remainder window other otherSum otherCount otherMin otherMax) :
    targetsSum = otherSum ∧ count = otherCount ∧ minTs = otherMin ∧ maxTs = otherMax := by
  obtain ⟨rest, rfl, restSum⟩ := first.sum
  obtain ⟨otherRest, rfl, otherSum⟩ := second.sum
  have sameRest : rest = otherRest := by omega
  obtain ⟨newest, inWindow, rfl⟩ := first.newest
  obtain ⟨otherNewest, otherInWindow, rfl⟩ := second.newest
  refine ⟨by rw [sameRest], ?_, ?_, ?_⟩
  · have := first.count
    have := second.count
    omega
  · rw [first.minTs_eq, second.minTs_eq]
    exact UInt64.le_antisymm (first.isOldest.2 other second.isOldest.1)
      (second.isOldest.2 oldest first.isOldest.1)
  · exact UInt64.le_antisymm (second.newest_le newest inWindow)
      (first.newest_le otherNewest otherInWindow)

/-- The client drops the least of the oldest records by hash, and answers with
the genesis bits when nothing is left. -/
theorem computeExpectedBits_eq {params : SpvDaaParams}
    (enough : params.minDifficultyWindowSize ≤ window.length) (nonempty : window ≠ []) :
    ∃ oldest targetsSum count minTs maxTs,
      Remainder window oldest targetsSum count minTs maxTs ∧
      (∀ other ∈ window, oldest.key ≤ other.key) ∧
      computeExpectedBits window params =
        if count = 0 then
          some params.genesisBits
        else
          retarget targetsSum count minTs maxTs params.targetTimePerBlock
            params.difficultySampleRate (fromCompactTargetBits params.maxDifficultyTargetBits) := by
  cases least : firstMin MinHeader.key window with
  | none => exact (nonempty (selectBy_eq_none_iff.mp least)).elim
  | some pair =>
    obtain ⟨position, oldest⟩ := pair
    cases greatest : lastMax MinHeader.key window with
    | none => exact (nonempty (selectBy_eq_none_iff.mp greatest)).elim
    | some pair =>
      obtain ⟨newestPosition, newest⟩ := pair
      obtain ⟨atPosition, isLeast⟩ := firstMin_spec least
      obtain ⟨newestAt, isGreatest⟩ := lastMax_spec greatest
      have dropped := (perm_eraseIdx atPosition).map MinHeader.bits
      have remainder := Remainder.of_dropped ⟨mem_of_getElem? atPosition, fun other mem =>
          timestamp_le_of_key_le (isLeast other mem)⟩ dropped
        (mem_of_getElem? newestAt) fun other mem =>
          timestamp_le_of_key_le (isGreatest other mem)
      have sums : sumTargetsExcept position 0 (0, 0) window =
          (((window.eraseIdx position).map MinHeader.bits).foldl addTarget 0,
            ((window.eraseIdx position).map MinHeader.bits).length) := by
        have atOffset := @sumTargetsExcept_eq 0 position 0 0 window
        rwa [Nat.zero_add, Nat.zero_add, ← length_map MinHeader.bits] at atOffset
      refine ⟨_, _, _, _, _, remainder, isLeast, ?_⟩
      unfold computeExpectedBits
      rw [if_neg (by omega), least, greatest]
      simp only [bind_eq_bind, bind_some, sums]

theorem calculateDifficultyBits_eq {manager : SampledDifficultyManager} {selectedParent : Hash}
    (eq : SameBlocks headers heap window)
    (enough : manager.minDifficultyWindowSize ≤ window.length) (nonempty : window ≠ []) :
    ∃ oldest targetsSum count minTs maxTs,
      Remainder window oldest targetsSum count minTs maxTs ∧
      (∀ other ∈ window, oldest.difficultyBlock.key ≤ other.difficultyBlock.key) ∧
      manager.calculateDifficultyBits headers heap selectedParent =
        retarget targetsSum count minTs maxTs manager.targetTimePerBlock
          manager.difficultySampleRate manager.maxDifficultyTarget.toNat := by
  obtain ⟨blocks, read, perm⟩ := eq.getDifficultyBlocks
  have sameLength : blocks.length = window.length := by rw [perm.length_eq, length_map]
  have someBlock : blocks ≠ [] := by
    rintro rfl
    exact nonempty (eq_nil_of_length_eq_zero sameLength.symm)
  cases least : firstMin DifficultyBlock.key blocks with
  | none => exact (someBlock (selectBy_eq_none_iff.mp least)).elim
  | some pair =>
    obtain ⟨pos, oldestBlock⟩ := pair
    cases greatest : lastMax DifficultyBlock.key blocks with
    | none => exact (someBlock (selectBy_eq_none_iff.mp greatest)).elim
    | some pair =>
      obtain ⟨newestPosition, newestBlock⟩ := pair
      obtain ⟨atPosition, isLeast⟩ := firstMin_spec least
      obtain ⟨newestAt, isGreatest⟩ := lastMax_spec greatest
      obtain ⟨oldest, inWindow, rfl⟩ := List.mem_map.mp
        (perm.mem_iff.mp (mem_of_getElem? atPosition))
      obtain ⟨newest, newestInWindow, rfl⟩ := List.mem_map.mp
        (perm.mem_iff.mp (mem_of_getElem? newestAt))
      have isBlock : ∀ header ∈ window, header.difficultyBlock ∈ blocks :=
        fun header mem => perm.mem_iff.mpr (List.mem_map_of_mem mem)
      have dropped := ((perm_swapRemove atPosition).trans perm).map DifficultyBlock.bits
      rw [map_cons, List.map_map] at dropped
      have remainder := Remainder.of_dropped
        ⟨inWindow, fun other mem => DifficultyBlock.timestamp_le_of_key_le
          (isLeast _ (isBlock other mem))⟩ dropped newestInWindow
        fun other mem => DifficultyBlock.timestamp_le_of_key_le (isGreatest _ (isBlock other mem))
      refine ⟨_, _, _, _, _, remainder, fun other mem => isLeast _ (isBlock other mem), ?_⟩
      unfold SampledDifficultyManager.calculateDifficultyBits
      rw [read]
      simp only [bind_eq_bind, bind_some]
      rw [if_neg (by omega), SampledDifficultyManager.bitsOfBlocks, least, greatest, length_map]
      rfl

/-- Both give up on a window without blocks. -/
theorem bits_of_nil {params : SpvDaaParams} {manager : SampledDifficultyManager}
    (same : SameBlocks headers heap []) (enough : params.minDifficultyWindowSize = 0)
    (nodeEnough : manager.minDifficultyWindowSize = 0) (selectedParent : Hash) :
    computeExpectedBits [] params = none ∧
      manager.calculateDifficultyBits headers heap selectedParent = none := by
  have empty : heap = [] := same.perm.eq_nil
  subst empty
  constructor
  · simp [computeExpectedBits, enough, firstMin, selectBy]
  · simp [SampledDifficultyManager.calculateDifficultyBits, getDifficultyBlocks, nodeEnough,
      SampledDifficultyManager.bitsOfBlocks, firstMin, selectBy]

/-- Client and node calculate the same bits for a window whose dropped blocks
have one target, and they return when the expected duration is a positive word.
They differ for every window of one block: the client answers with the genesis
bits where the node divides by zero. -/
theorem computeExpectedBits_eq_calculateDifficultyBits {params : SpvDaaParams}
    {manager : SampledDifficultyManager} (matching : params.Matches manager)
    (same : SameBlocks headers heap window)
    (enough : params.minDifficultyWindowSize ≤ window.length) (selectedParent : Hash) :
    (window.length = 1 → computeExpectedBits window params ≠
        manager.calculateDifficultyBits headers heap selectedParent) ∧
      (window.length ≠ 1 → SameDroppedTarget window →
        computeExpectedBits window params =
            manager.calculateDifficultyBits headers heap selectedParent ∧
          (0 < params.targetTimePerBlock.toNat *
              params.difficultySampleRate.toNat * (window.length - 1) →
            params.targetTimePerBlock.toNat *
              params.difficultySampleRate.toNat * (window.length - 1) < 2 ^ 64 →
            (computeExpectedBits window params).isSome = true)) := by
  have nodeEnough := enough
  rw [matching.minDifficultyWindowSize] at nodeEnough
  rcases eq_or_ne window [] with rfl | nonempty
  · obtain ⟨client, node⟩ := bits_of_nil same (Nat.le_zero.mp enough) (Nat.le_zero.mp nodeEnough)
      selectedParent
    refine ⟨fun one => absurd one (by decide), fun _ _ => ⟨client.trans node.symm, ?_⟩⟩
    exact fun pos => absurd pos (Nat.lt_irrefl 0)
  obtain ⟨dropped, targetsSum, count, minTs, maxTs, remainder, least, client⟩ :=
    computeExpectedBits_eq enough nonempty
  obtain ⟨nodeDropped, nodeSum, nodeCount, nodeMin, nodeMax, nodeRemainder, nodeLeast, node⟩ :=
    @calculateDifficultyBits_eq _ _ _ manager selectedParent same nodeEnough nonempty
  have counted := remainder.count
  have nodeCounted := nodeRemainder.count
  constructor
  · intro one
    rw [client, node, if_pos (by omega), retarget, divideBy, if_pos (by omega)]
    exact some_ne_none _
  intro notOne oneTarget
  obtain ⟨rfl, rfl, rfl, rfl⟩ := remainder.unique (oneTarget dropped remainder.isOldest.1
    nodeDropped nodeRemainder.isOldest.1 least nodeLeast) nodeRemainder
  rw [client, node, if_neg (by omega)]
  constructor
  · rw [matching.targetTimePerBlock, matching.difficultySampleRate]
    exact retarget_congr_max (fromCompactTargetBits_lt _)
      manager.maxDifficultyTarget.isLt matching.maxDifficultyTarget
  · intro pos fits
    rw [show window.length - 1 = count by omega] at pos fits
    rw [retarget_eq_some (fromCompactTargetBits_lt _) (remainder.minTs_eq ▸
      remainder.newest_le dropped remainder.isOldest.1) pos fits, isSome_some]

def mainnetDifficulty : SampledDifficultyManager where
  genesisHash := zeroHash
  genesisBits := 486722099
  maxDifficultyTarget := BitVec.ofNat 256 (2 ^ 255 - 1)
  difficultyWindowSize := 661
  minDifficultyWindowSize := 150
  difficultySampleRate := 40
  targetTimePerBlock := 100

theorem mainnet_matches : SpvDaaParams.sophisMainnet.Matches mainnetDifficulty :=
  ⟨rfl, rfl, rfl, rfl, by decide +kernel⟩

def numberedRecord (number : Nat) (blueWork : BitVec 192)
    (timestamp : UInt64) (bits : UInt32) : MinHeader where
  hash := FixedBytes.ofPrefix 32 (leBytes 2 number)
  selectedParentHash := zeroHash
  blueScore := 0
  daaScore := 0
  blueWork
  timestamp
  bits

/-- Records of one target that follow the two oldest ones. -/
def laterRecords : List MinHeader :=
  (List.range 148).map fun number =>
    numberedRecord (number + 3) (BitVec.ofNat 192 (number + 3))
      (UInt64.ofNat (5000 + 4000 * number)) 0x1d0e5073

/-- A window with two oldest blocks. The second is lighter and has the larger
hash. -/
def tiedWindow (bits : UInt32) : List MinHeader :=
  numberedRecord 1 2 1000 0x1d0e5073 :: numberedRecord 2 1 1000 bits :: laterRecords

def tiedHeaders (bits : UInt32) (hash : Hash) : Option CompactHeaderData :=
  ((tiedWindow bits)[leValue (hash.bytes.take 2) - 1]?).map
    fun header => ⟨header.timestamp, header.bits⟩

def tiedHeap (bits : UInt32) : List SortableBlock :=
  ((tiedWindow bits).map MinHeader.sortable).reverse

theorem evenWindow_sameBits : computeExpectedBits (tiedWindow 0x1d0e5073) .sophisMainnet =
      mainnetDifficulty.calculateDifficultyBits (tiedHeaders 0x1d0e5073)
        (tiedHeap 0x1d0e5073) zeroHash ∧
    (computeExpectedBits (tiedWindow 0x1d0e5073) .sophisMainnet).isSome = true := by
  have eq : SameBlocks (tiedHeaders 0x1d0e5073) (tiedHeap 0x1d0e5073) (tiedWindow 0x1d0e5073) :=
    ⟨reverse_perm _, by decide +kernel⟩
  have oneTarget : ∀ header ∈ tiedWindow 0x1d0e5073, header.bits = 0x1d0e5073 := by decide +kernel
  have ties : SameDroppedTarget (tiedWindow 0x1d0e5073) := by
    intro first inWindow second secondInWindow _ _
    rw [oneTarget first inWindow, oneTarget second secondInWindow]
  have size : (tiedWindow 0x1d0e5073).length = 150 := by decide +kernel
  obtain ⟨-, agree⟩ := computeExpectedBits_eq_calculateDifficultyBits mainnet_matches eq
      (by rw [size]; decide) zeroHash
  obtain ⟨sameBits, ran⟩ := agree (by rw [size]; decide) ties
  exact ⟨sameBits, ran (by rw [size]; decide) (by rw [size]; decide)⟩

/-- The bits may agree although the dropped targets differ: the average and its
compact form are rounded. -/
example : computeExpectedBits (tiedWindow 0x1d0e5074) .sophisMainnet =
    mainnetDifficulty.calculateDifficultyBits (tiedHeaders 0x1d0e5074)
      (tiedHeap 0x1d0e5074) zeroHash := by
  decide +kernel

/-- When the second has a harder target, the client drops the first and the node
the second. -/
theorem tiedWindow_bits_differ : SpvDaaParams.sophisMainnet.Matches mainnetDifficulty ∧
    SameBlocks (tiedHeaders 0x1b0404cb) (tiedHeap 0x1b0404cb) (tiedWindow 0x1b0404cb) ∧
    (tiedWindow 0x1b0404cb).length = 150 ∧
    computeExpectedBits (tiedWindow 0x1b0404cb) .sophisMainnet = some 487464813 ∧
    mainnetDifficulty.calculateDifficultyBits (tiedHeaders 0x1b0404cb)
      (tiedHeap 0x1b0404cb) zeroHash = some 487471067 :=
  ⟨mainnet_matches, ⟨reverse_perm _, by decide +kernel⟩,
    by decide +kernel, by decide +kernel, by decide +kernel⟩

end Sophis
