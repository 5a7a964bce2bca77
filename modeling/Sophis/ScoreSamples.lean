import Mathlib.Data.Nat.Find
import Mathlib.Order.Lattice
import Mathlib.Order.Nat
import Mathlib.Tactic.Common

namespace ScoreSamples

open List

/-!
# Samples of a growing score

A sequence of scores is cut into epochs of a fixed length, and the first
position of each epoch is a sample. When a step of the sequence is short
against an epoch, no epoch is skipped and samples lie close to the start of
theirs.
-/

variable (score : Nat → Nat) (length : Nat)

/-- The first position, and every position whose epoch is later than that of
the position before. -/
def IsSample (position : Nat) : Prop :=
  position = 0 ∨ score (position - 1) / length < score position / length

instance : DecidablePred (IsSample score length) := fun _ => inferInstanceAs (Decidable (_ ∨ _))

/-- The last sample before a position. -/
def lastSample (position : Nat) : Nat := Nat.findGreatest (IsSample score length) (position - 1)

/-- The last sample that is at least a depth below a position, and the first
position if there is none. -/
def deepSample (depth position : Nat) : Nat := Nat.findGreatest
    (fun sample => IsSample score length sample ∧ score sample + depth ≤ score position)
    position

/-- The samples after one position up to another. -/
def samplesBetween (first second : Nat) : List Nat :=
  (List.range (second + 1)).filter fun position => first < position ∧ IsSample score length position

/-- The scores grow at every step up to the last position, by at most one more
than the noise. -/
structure Growth (noise last : Nat) : Prop where
  grows : ∀ position < last, score position < score (position + 1)
  bounded : ∀ position < last, score (position + 1) ≤ score position + noise + 1

variable {score length}

theorem isSample_zero : IsSample score length 0 := .inl rfl

theorem isSample_lastSample (position : Nat) :
    IsSample score length (lastSample score length position) :=
  Nat.findGreatest_spec (P := IsSample score length) (Nat.zero_le _) isSample_zero

variable {position : Nat}

theorem lastSample_lt (score : Nat → Nat) (length : Nat) (pos : 0 < position) :
    lastSample score length position < position :=
  Nat.lt_of_le_of_lt (Nat.findGreatest_le _) (by omega)

variable {sample : Nat}

theorem not_isSample_between (above : lastSample score length position < sample)
    (below : sample < position) : ¬ IsSample score length sample :=
  Nat.findGreatest_is_greatest above (by omega)

theorem lastSample_succ (position : Nat) :
    lastSample score length (position + 1) = if IsSample score length position then position
      else lastSample score length position := by
  cases position with
  | zero =>
    rw [if_pos isSample_zero]
    rfl
  | succ position => exact Nat.findGreatest_succ position

variable {depth : Nat}

theorem deepSample_eq (isSample : IsSample score length sample) (below : sample ≤ position)
    (deep : sample ≠ 0 → score sample + depth ≤ score position)
    (none : ∀ later, sample < later → later ≤ position →
      IsSample score length later → score position < score later + depth) :
    deepSample score length depth position = sample := by
  refine Nat.findGreatest_eq_iff.mpr ⟨below, ?_, ?_⟩
  · intro nonzero
    exact ⟨isSample, deep nonzero⟩
  · rintro later above within ⟨laterSample, laterDeep⟩
    exact absurd laterDeep (Nat.not_le.mpr (none later above within laterSample))

theorem deepSample_spec (nonzero : deepSample score length depth position ≠ 0) :
    IsSample score length (deepSample score length depth position) ∧
      score (deepSample score length depth position) + depth ≤ score position :=
  Nat.findGreatest_of_ne_zero rfl nonzero

theorem deepSample_le (score : Nat → Nat) (length depth position : Nat) :
    deepSample score length depth position ≤ position :=
  Nat.findGreatest_le _

theorem isSample_deepSample (depth position : Nat) :
    IsSample score length (deepSample score length depth position) := by
  by_cases zero : deepSample score length depth position = 0
  · rw [zero]
    exact isSample_zero
  · exact (deepSample_spec zero).1

variable {first second : Nat}

theorem samplesBetween_eq_nil (above : second ≤ first) :
    samplesBetween score length first second = [] := by
  rw [samplesBetween, filter_eq_nil_iff]
  intro position mem
  rw [mem_range] at mem
  simp only [decide_eq_true_eq, not_and]
  omega

/-- The last of the samples up to a sample is that sample. -/
theorem samplesBetween_sample (before : first < second) (isSample : IsSample score length second) :
    samplesBetween score length first second =
      samplesBetween score length first (lastSample score length second) ++ [second] := by
  have below := lastSample_lt score length (Nat.zero_lt_of_lt before)
  obtain ⟨gap, size⟩ := Nat.exists_eq_add_of_le (Nat.succ_le_of_lt below)
  have nothing : ((List.range gap).map (lastSample score length second + 1 + ·)).filter
        (fun position => first < position ∧ IsSample score length position) =
      [] := by
    rw [filter_eq_nil_iff]
    intro position mem
    obtain ⟨offset, inGap, rfl⟩ := List.mem_map.mp mem
    rw [mem_range] at inGap
    simp only [decide_eq_true_eq, not_and]
    intro _
    have after : lastSample score length second < lastSample score length second + 1 + offset := by
      omega
    exact not_isSample_between after (by omega)
  have single : [second].filter (fun position =>
      first < position ∧ IsSample score length position) = [second] := by
    simp [before, isSample]
  rw [samplesBetween, range_succ, filter_append, single, samplesBetween]
  congr 1
  conv_lhs => rw [size]
  rw [Nat.succ_eq_add_one, range_add, filter_append, nothing, append_nil]

section

variable {noise last : Nat} (growth : Growth score noise last)
include growth

variable {first second : Nat}

theorem Growth.lt (before : first < second) (within : second ≤ last) :
    score first < score second := by
  induction second with
  | zero => omega
  | succ second ih =>
    have step := growth.grows second (by omega)
    by_cases eq : first = second
    · rwa [eq]
    · exact (ih (by omega) (by omega)).trans step

theorem Growth.le (before : first ≤ second) (within : second ≤ last) :
    score first ≤ score second := by
  rcases Nat.eq_or_lt_of_le before with rfl | strictly
  · exact le_rfl
  · exact (growth.lt strictly within).le

theorem Growth.epoch_eq (before : first ≤ second) (within : second ≤ last)
    (none : ∀ position, first < position → position ≤ second → ¬ IsSample score length position) :
    score second / length = score first / length := by
  induction second, before using Nat.le_induction with
  | base => rfl
  | succ second before ih =>
    have eq := ih (by omega) fun position above below => none position above (by omega)
    have notSample := none (second + 1) (by omega) le_rfl
    simp only [IsSample, Nat.add_sub_cancel, not_or, Nat.not_lt] at notSample
    have later : score second / length ≤ score (second + 1) / length :=
      Nat.div_le_div_right (growth.grows second (by omega)).le
    omega

variable {position : Nat}

theorem Growth.epoch_lastSample (pos : 0 < position) (within : position ≤ last) :
    score (position - 1) / length = score (lastSample score length position) / length :=
  growth.epoch_eq (Nat.le_sub_one_of_lt (lastSample_lt score length pos)) (by omega)
    fun _ above below => not_isSample_between above (by omega)

/-- A sample opens the epoch after that of the sample before it. -/
theorem Growth.epoch_sample (short : noise < length) (pos : 0 < position)
    (within : position ≤ last) (isSample : IsSample score length position) :
    score position / length = score (lastSample score length position) / length + 1 := by
  have opens : score (position - 1) / length < score position / length :=
    isSample.resolve_left (by omega)
  have step := growth.bounded (position - 1) (by omega)
  rw [Nat.sub_add_cancel pos] at step
  have next : score position / length ≤ score (position - 1) / length + 1 := by
    rw [← Nat.add_div_right _ (by omega : 0 < length)]
    exact Nat.div_le_div_right (by omega)
  rw [← growth.epoch_lastSample pos within]
  omega

/-- A sample lies within the noise of the start of its epoch. -/
theorem Growth.sample_le (nonempty : 0 < length) (pos : 0 < position)
    (within : position ≤ last) (isSample : IsSample score length position) :
    score position ≤ score position / length * length + noise := by
  have opens : score (position - 1) / length < score position / length :=
    isSample.resolve_left (by omega)
  have step := growth.bounded (position - 1) (by omega)
  rw [Nat.sub_add_cancel pos] at step
  have before : score (position - 1) < score position / length * length :=
    (Nat.div_lt_iff_lt_mul nonempty).mp opens
  omega

/-- The deep sample does not move down. -/
theorem Growth.deepSample_le_succ (depth : Nat) (within : position < last) :
    deepSample score length depth position ≤ deepSample score length depth (position + 1) := by
  by_cases zero : deepSample score length depth position = 0
  · omega
  · obtain ⟨isSample, deep⟩ := deepSample_spec zero
    refine Nat.le_findGreatest ((deepSample_le _ _ _ _).trans (Nat.le_succ _)) ⟨isSample, ?_⟩
    exact deep.trans (growth.grows position within).le

end

/-- The depth is not close to a multiple of the epoch length. -/
structure OffMultiples (noise length depth : Nat) : Prop where
  above : noise < depth % length
  below : depth % length < length - noise

variable {noise : Nat} (off : OffMultiples noise length depth)
include off

theorem OffMultiples.noise_lt : noise < length := by
  have below := off.below
  omega

theorem OffMultiples.depth_pos : 0 < depth := by
  have above := off.above
  have le := Nat.mod_le depth length
  omega

/-- Rounding up the depth in epochs leaves room for the noise. -/
theorem OffMultiples.lt_ceil : depth + noise < (depth / length + 1) * length := by
  have split := Nat.div_add_mod depth length
  have commuted := Nat.mul_comm length (depth / length)
  have below := off.below
  rw [Nat.add_mul, Nat.one_mul]
  omega

end ScoreSamples
