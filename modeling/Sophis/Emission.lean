import Mathlib.Algebra.BigOperators.Intervals
import Mathlib.Algebra.Order.BigOperators.Group.Finset
import Mathlib.Algebra.Group.Action.Defs
import Sophis.Coinbase

namespace Sophis

open CoinbaseManager Finset List UInt64

/-!
# Total emission on the mainnet

The subsidy is constant before the deflationary phase and constant within each
of its months, so the exact sum over all scores below a bound is a sum over
whole months plus a rest. The sum crosses the documented ceiling inside month
1474, because the monthly values are rounded up to the block rate.
-/

/-- The exact sum of the subsidies of all 64-bit scores below a bound. -/
def CoinbaseManager.emissionBelow (manager : CoinbaseManager) (bound : Nat) : Nat :=
  ∑ daaScore ∈ Finset.range (min bound (2 ^ 64)),
    (manager.calcBlockSubsidy (UInt64.ofNat daaScore)).toNat

def mainnetCoinbaseManager : CoinbaseManager := CoinbaseManager.ofParams mainnetParams

def mainnetDeflationStart : Nat := 155196000

def mainnetMonthBlocks : Nat := 26298000

/-- The per-block subsidy of a deflationary month. -/
def mainnetMonthlySubsidy (month : Nat) : Nat := (subsidyByMonthTable[month]?.map fun subsidy =>
    (divCeil subsidy 10).toNat).getD 0

private theorem mainnet_parameters : mainnetCoinbaseManager.deflationaryPhaseDaaScore = 155196000 ∧
    mainnetCoinbaseManager.preDeflationaryPhaseBaseSubsidy = 37002785 ∧
    mainnetCoinbaseManager.crescendoActivationDaaScore = 0 ∧
    mainnetCoinbaseManager.bpsHistory.after = 10 ∧
    mainnetCoinbaseManager.bpsHistory.activation = 0 ∧
    mainnetCoinbaseManager.subsidyByMonthTableAfter = subsidyByMonthTable.map (divCeil · 10) :=
  ⟨rfl, rfl, rfl, rfl, rfl, rfl⟩

private theorem length_subsidyByMonthTable : subsidyByMonthTable.length = 1902 := by
  decide +kernel

variable {daaScore : Nat}

theorem mainnet_subsidy_before_deflation (early : daaScore < mainnetDeflationStart) :
    (mainnetCoinbaseManager.calcBlockSubsidy (ofNat daaScore)).toNat = 37002785 := by
  obtain ⟨deflation, base, -⟩ := mainnet_parameters
  have below : ofNat daaScore < 155196000 := by
    rw [lt_iff_toNat_lt, toNat_ofNat']
    exact Nat.lt_of_le_of_lt (Nat.mod_le _ _) early
  rw [calcBlockSubsidy, deflation, if_pos below, base]
  rfl

theorem mainnet_subsidyMonth (late : mainnetDeflationStart ≤ daaScore)
    (representable : daaScore < 2 ^ 64) :
    (mainnetCoinbaseManager.subsidyMonth (UInt64.ofNat daaScore)).toNat =
      (daaScore - mainnetDeflationStart) / mainnetMonthBlocks := by
  obtain ⟨deflation, -, crescendo, rate, -, -⟩ := mainnet_parameters
  have score : (UInt64.ofNat daaScore).toNat = daaScore := by
    rw [UInt64.toNat_ofNat', Nat.mod_eq_of_lt representable]
  have reached : (155196000 : UInt64) ≤ UInt64.ofNat daaScore := by
    rw [UInt64.le_iff_toNat_le, score]
    exact late
  have difference : (UInt64.ofNat daaScore - 155196000).toNat =
      daaScore - mainnetDeflationStart := by
    rw [UInt64.toNat_sub_of_le _ _ reached, score]
    rfl
  rw [subsidyMonth, deflation, crescendo, rate, if_pos (by decide),
    UInt64.toNat_div, UInt64.toNat_div, difference, Nat.div_div_eq_div_mul]
  rfl

theorem mainnet_subsidy_in_month {month offset : Nat} (listed : month < 1902)
    (within : offset < mainnetMonthBlocks) :
    (mainnetCoinbaseManager.calcBlockSubsidy (ofNat
        (mainnetDeflationStart + month * mainnetMonthBlocks + offset))).toNat =
      mainnetMonthlySubsidy month := by
  obtain ⟨deflation, -, -, -, activation, table⟩ := mainnet_parameters
  generalize scoreShape : mainnetDeflationStart + month * mainnetMonthBlocks + offset = daaScore
  have representable : daaScore < 2 ^ 64 := by
    simp only [mainnetDeflationStart, mainnetMonthBlocks] at *
    omega
  have late : mainnetDeflationStart ≤ daaScore := by omega
  have sameMonth : (mainnetCoinbaseManager.subsidyMonth (ofNat daaScore)).toNat = month := by
    rw [mainnet_subsidyMonth late representable, ← scoreShape,
      Nat.add_assoc, Nat.add_sub_cancel_left, Nat.mul_comm,
      Nat.mul_add_div (by decide), Nat.div_eq_of_lt within, Nat.add_zero]
  have reached : ¬ ofNat daaScore < 155196000 := by
    rw [lt_iff_toNat_lt, toNat_ofNat', Nat.mod_eq_of_lt representable, Nat.not_lt]
    exact late
  have active : mainnetCoinbaseManager.bpsHistory.isActive (ofNat daaScore) = true := by
    rw [ForkedParam.isActive, activation]
    simp
  have capped : min month (1902 - 1) = month := by omega
  rw [calcBlockSubsidy, deflation, if_neg reached, if_pos active, table, sameMonth]
  simp only [length_map, length_subsidyByMonthTable, capped,
    mainnetMonthlySubsidy, getD_eq_getElem?_getD, getElem?_map]
  have present : month < subsidyByMonthTable.length := by rwa [length_subsidyByMonthTable]
  rw [getElem?_eq_getElem present]
  rfl

variable {f : Nat → Nat} {start : Nat}

private theorem sum_range_constant {length value : Nat}
    (constant : ∀ offset < length, f (start + offset) = value) :
    ∑ offset ∈ range length, f (start + offset) = length * value := by
  rw [sum_congr rfl fun offset mem => constant offset (mem_range.mp mem),
    sum_const, card_range, smul_eq_mul]

private theorem sum_range_periods {value : Nat → Nat} {width base count : Nat}
    (phase : ∀ index < start, f index = base)
    (periods : ∀ period < count, ∀ offset < width,
      f (start + period * width + offset) = value period) {period offset : Nat}
    (listed : period < count) (within : offset ≤ width) :
    ∑ index ∈ Finset.range (start + period * width + offset), f index = start * base +
      width * (∑ prior ∈ Finset.range period, value prior) +
      offset * value period := by
  have rest : ∑ pos ∈ Finset.range offset, f (start + period * width + pos) =
      offset * value period :=
    sum_range_constant fun pos below =>
      periods period listed pos (Nat.lt_of_lt_of_le below within)
  rw [Finset.sum_range_add, rest, Nat.add_right_cancel_iff]
  -- Induction on the whole periods; the rest was split off above.
  clear rest within offset
  induction period with
  | zero =>
    have first : ∑ index ∈ Finset.range start, f (0 + index) = start * base :=
      sum_range_constant fun index below => by
        rw [Nat.zero_add]
        exact phase index below
    simpa using first
  | succ period ih =>
    have prior : period < count := Nat.lt_of_succ_lt listed
    have whole : ∑ pos ∈ Finset.range width, f (start + period * width + pos) =
        width * value period :=
      sum_range_constant fun pos below => periods period prior pos below
    rw [Nat.succ_mul, ← Nat.add_assoc, Finset.sum_range_add, whole, ih prior,
      Finset.sum_range_succ, Nat.mul_add, Nat.add_assoc]

variable {offset : Nat}

theorem mainnet_emission_in_month {month : Nat} (listed : month < 1902)
    (within : offset ≤ mainnetMonthBlocks) :
    mainnetCoinbaseManager.emissionBelow
        (mainnetDeflationStart + month * mainnetMonthBlocks + offset) =
      mainnetDeflationStart * 37002785 + mainnetMonthBlocks * (∑ prior ∈ range month,
          mainnetMonthlySubsidy prior) +
        offset * mainnetMonthlySubsidy month := by
  have representable : mainnetDeflationStart + month * mainnetMonthBlocks + offset ≤ 2 ^ 64 := by
    simp only [mainnetDeflationStart, mainnetMonthBlocks] at *
    omega
  rw [emissionBelow, min_eq_left representable]
  exact sum_range_periods (fun _ early => mainnet_subsidy_before_deflation early)
    (fun _ inTable _ inMonth => mainnet_subsidy_in_month inTable inMonth) listed within

theorem emissionBelow_mono (manager : CoinbaseManager) {first second : Nat}
    (below : first ≤ second) :
    manager.emissionBelow first ≤ manager.emissionBelow second :=
  sum_le_sum_of_subset (range_subset_range.mpr (min_le_min_right _ below))

/-- The number of scores after which the emission reaches the ceiling. -/
def mainnetCeilingScore : Nat := 38938868000

private theorem sum_range_getElem? {α : Type} (table : List α) (value : α → Nat) (count : Nat) :
    ∑ pos ∈ Finset.range count, (table[pos]?.map value).getD 0 =
      ((table.take count).map value).sum := by
  induction count with
  | zero => simp
  | succ count ih =>
    rw [Finset.sum_range_succ, ih, take_add_one, map_append, sum_append]
    cases table[count]? with
    | none => rfl
    | some entry => simp

private theorem sum_monthlySubsidy_before_ceiling :
    ∑ prior ∈ range 1474, mainnetMonthlySubsidy prior = 580170190 := by
  have total : ((subsidyByMonthTable.take 1474).map fun subsidy =>
      (divCeil subsidy 10).toNat).sum = 580170190 := by
    decide +kernel
  rw [← total]
  exact sum_range_getElem? subsidyByMonthTable _ 1474

private theorem mainnet_emission_near_ceiling (within : offset ≤ mainnetMonthBlocks) :
    mainnetCoinbaseManager.emissionBelow
        (mainnetDeflationStart + 1474 * mainnetMonthBlocks + offset) =
      20999999877480000 + offset * 6 := by
  rw [mainnet_emission_in_month (by decide) within, sum_monthlySubsidy_before_ceiling]
  have rate : mainnetMonthlySubsidy 1474 = 6 := by decide +kernel
  rw [rate]
  rfl

theorem mainnet_emission_at_ceiling :
    mainnetCoinbaseManager.emissionBelow mainnetCeilingScore = maxSompi.toNat := by
  have pos : mainnetCeilingScore =
      mainnetDeflationStart + 1474 * mainnetMonthBlocks + 20420000 := by
    decide +kernel
  rw [pos, mainnet_emission_near_ceiling (by decide)]
  decide +kernel

theorem mainnet_emission_past_ceiling :
    mainnetCoinbaseManager.emissionBelow (mainnetCeilingScore + 1) = maxSompi.toNat + 6 := by
  have pos : mainnetCeilingScore + 1 =
      mainnetDeflationStart + 1474 * mainnetMonthBlocks + 20420001 := by
    decide +kernel
  rw [pos, mainnet_emission_near_ceiling (by decide)]
  decide +kernel

/-- The emission below a bound respects the documented ceiling exactly up to
the ceiling score: the subsidies of all later months exceed it. -/
theorem mainnet_emissionBelow_le_maxSompi_iff (bound : Nat) :
    mainnetCoinbaseManager.emissionBelow bound ≤ maxSompi.toNat ↔ bound ≤ mainnetCeilingScore := by
  constructor
  · intro respected
    by_contra beyond
    have passed : mainnetCeilingScore + 1 ≤ bound := by omega
    have grown := emissionBelow_mono mainnetCoinbaseManager passed
    have exceeds := mainnet_emission_past_ceiling
    omega
  · intro below
    calc mainnetCoinbaseManager.emissionBelow bound
        ≤ mainnetCoinbaseManager.emissionBelow mainnetCeilingScore :=
          emissionBelow_mono mainnetCoinbaseManager below
      _ = maxSompi.toNat := mainnet_emission_at_ceiling

/-- One block past the ceiling score the exact emission is six base units above
the ceiling. -/
theorem mainnet_emissionBelow_exceeds_maxSompi :
    ¬ mainnetCoinbaseManager.emissionBelow 38938868001 ≤ maxSompi.toNat := by
  have exceeds := mainnet_emission_past_ceiling
  intro respected
  rw [show 38938868001 = mainnetCeilingScore + 1 from rfl, exceeds] at respected
  omega

end Sophis
