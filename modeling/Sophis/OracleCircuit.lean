import Mathlib.Data.ZMod.Basic
import Sophis.MachineWord

namespace Sophis.OracleCircuit

open MachineWord

/-!
# The oracle circuit

Each row of a trace is constrained on its own, against public values that the verifier derives
from a journal (`oracle/host/src/air.rs`).
-/

/-- The prime of the field. -/
abbrev modulus : Nat := 2013265921

/-- The field of the trace. -/
abbrev BabyBear := ZMod modulus

/-- `from_u64`. -/
def fromU64 (value : UInt64) : BabyBear := value.toNat

def foldK1 : UInt64 := 0x4f5241434c455031

def foldK2 : UInt64 := 0x4f5241434c455032

def foldK3 : UInt64 := 0x4f5241434c455033

/-- The claim that a proof makes public. -/
structure OracleJournal where
  sequence : UInt64
  price : Int64
  publishTime : UInt64
  minPrice : Int64
  maxPrice : Int64
  maxAgeSecs : UInt64

/-- The private inputs of a proof. -/
structure OracleWitness where
  (price publishTime sequence : UInt64)

/-- The public values of the circuit. -/
structure OraclePublicInputs where
  (minPrice maxPrice nowMinusMaxAge lastSequence payloadCommitment : UInt64)

def commitInField (witness : OracleWitness) : UInt64 :=
  .ofNat (fromU64 foldK1 * fromU64 witness.price + fromU64 foldK2 * fromU64 witness.publishTime +
    fromU64 foldK3 * fromU64 witness.sequence).val

/-- The public values `verify_proof` derives. -/
def OracleJournal.publicInputs (journal : OracleJournal) (nowSecs : UInt64) :
    OraclePublicInputs where
  minPrice := journal.minPrice.toUInt64
  maxPrice := journal.maxPrice.toUInt64
  nowMinusMaxAge := saturatingSub nowSecs journal.maxAgeSecs
  lastSequence := saturatingSub journal.sequence 1
  payloadCommitment :=
    commitInField ⟨journal.price.toUInt64, journal.publishTime, journal.sequence⟩

/-- The columns of one row. -/
structure OracleRow where
  (price priceMinusMin maxMinusPrice freshnessSlack seqDiffMinusOne payloadAcc : BabyBear)
  selectorActive : BabyBear

/-- `OracleAir::eval`. -/
def OracleRow.Eval (row : OracleRow) (inputs : OraclePublicInputs) : Prop :=
  let sel := row.selectorActive
  let folded := fromU64 foldK1 * row.price +
    fromU64 foldK2 * (fromU64 inputs.nowMinusMaxAge + row.freshnessSlack) +
    fromU64 foldK3 * (fromU64 inputs.lastSequence + 1 + row.seqDiffMinusOne)
  sel * (sel - 1) = 0 ∧
  (1 - sel) * row.priceMinusMin = 0 ∧
  (1 - sel) * row.maxMinusPrice = 0 ∧
  (1 - sel) * row.freshnessSlack = 0 ∧
  (1 - sel) * row.seqDiffMinusOne = 0 ∧
  (1 - sel) * row.payloadAcc = 0 ∧
  sel * (row.price - fromU64 inputs.minPrice - row.priceMinusMin) = 0 ∧
  sel * (fromU64 inputs.maxPrice - row.price - row.maxMinusPrice) = 0 ∧
  -- The constraint on freshness is a placeholder.
  sel * (row.freshnessSlack - row.freshnessSlack + 0) = 0 ∧
  sel * (row.payloadAcc - folded) = 0 ∧
  sel * (row.payloadAcc - fromU64 inputs.payloadCommitment) = 0

/-- What an accepted journal is meant to guarantee. -/
def OracleJournal.InBounds (journal : OracleJournal) (nowSecs : UInt64) : Prop :=
  journal.minPrice ≤ journal.price ∧ journal.price ≤ journal.maxPrice ∧
    nowSecs.toNat ≤ journal.publishTime.toNat + journal.maxAgeSecs.toNat

/-- What the constraints do not ask for: the row is active and carries the journal's own price
and sequence, and the public values are those of the field as integers. -/
structure OracleRow.CarriesClaim (row : OracleRow) (journal : OracleJournal) (nowSecs : UInt64) :
    Prop where
  active : row.selectorActive = 1
  price : row.price = fromU64 journal.price.toUInt64
  sequence : fromU64 (saturatingSub journal.sequence 1) + 1 + row.seqDiffMinusOne =
    fromU64 journal.sequence
  minPrice : journal.minPrice.toUInt64.toNat < modulus
  priceSmall : journal.price.toUInt64.toNat < modulus
  maxPrice : journal.maxPrice.toUInt64.toNat < modulus
  oldest : (saturatingSub nowSecs journal.maxAgeSecs).toNat < modulus
  publishTime : journal.publishTime.toNat < modulus

/-- The range check that the helper columns lack: no sum of a public value and a helper wraps
around the modulus. -/
structure OracleRow.InRange (row : OracleRow) (journal : OracleJournal) (nowSecs : UInt64) :
    Prop where
  lower : journal.minPrice.toUInt64.toNat + row.priceMinusMin.val < modulus
  upper : journal.price.toUInt64.toNat + row.maxMinusPrice.val < modulus
  fresh : (saturatingSub nowSecs journal.maxAgeSecs).toNat + row.freshnessSlack.val < modulus

variable {journal : OracleJournal} {nowSecs : UInt64}

/-- A field difference is a difference of integers exactly when nothing wraps. -/
theorem le_iff_of_fromU64_add {low high : UInt64} {slack : BabyBear}
    (total : fromU64 low + slack = fromU64 high)
    (small : low.toNat < modulus) (bound : high.toNat < modulus) :
    low.toNat ≤ high.toNat ↔ low.toNat + slack.val < modulus := by
  have sum : ((low.toNat + slack.val : Nat) : BabyBear) = (high.toNat : Nat) := by
    rw [Nat.cast_add, ZMod.natCast_zmod_val]
    exact total
  have slackSmall : slack.val < modulus := ZMod.val_lt slack
  rw [ZMod.natCast_eq_natCast_iff', Nat.mod_eq_of_lt bound] at sum
  unfold modulus at *
  omega

theorem int64_le_iff_toNat_le {low high : Int64} (small : low.toUInt64.toNat < modulus)
    (bound : high.toUInt64.toNat < modulus) :
    low ≤ high ↔ low.toUInt64.toNat ≤ high.toUInt64.toNat := by
  have toInt {price : Int64} (small : price.toUInt64.toNat < modulus) :
      price.toInt = price.toUInt64.toNat :=
    BitVec.toInt_eq_toNat_of_lt ((Nat.mul_lt_mul_of_pos_left small two_pos).trans (by decide))
  rw [Int64.le_iff_toInt_le, toInt bound, toInt small, Int.ofNat_le]

theorem saturatingSub_le_iff {value : UInt64} {age time : UInt64} :
    (saturatingSub value age).toNat ≤ time.toNat ↔ value.toNat ≤ time.toNat + age.toNat := by
  unfold saturatingSub
  split
  case isTrue aged =>
    have := UInt64.le_iff_toNat_le.mp aged
    rw [UInt64.toNat_sub_of_le _ _ aged]
    omega
  case isFalse young =>
    have := UInt64.lt_iff_toNat_lt.mp (UInt64.not_le.mp young)
    exact ⟨fun _ => by omega, fun _ => Nat.zero_le _⟩

theorem fromU64_commitInField (witness : OracleWitness) :
    fromU64 (commitInField witness) =
      fromU64 foldK1 * fromU64 witness.price + fromU64 foldK2 * fromU64 witness.publishTime +
        fromU64 foldK3 * fromU64 witness.sequence := by
  rw [commitInField, fromU64, UInt64.toNat_ofNat',
    Nat.mod_eq_of_lt ((ZMod.val_lt _).trans (by decide)), ZMod.natCast_zmod_val]

/-- The payload binding gives the publish time of an active row. -/
theorem OracleRow.CarriesClaim.publishTime_eq {row : OracleRow}
    (claim : row.CarriesClaim journal nowSecs)
    (eval : row.Eval (journal.publicInputs nowSecs)) :
    fromU64 (saturatingSub nowSecs journal.maxAgeSecs) + row.freshnessSlack =
      fromU64 journal.publishTime := by
  obtain ⟨_, _, _, _, _, _, _, _, _, folded, committed⟩ := eval
  simp only [claim.active, one_mul, sub_eq_zero, OracleJournal.publicInputs] at folded committed
  rw [committed, claim.price, claim.sequence, fromU64_commitInField] at folded
  -- `FOLD_K2` is invertible, so the binding is injective in the publish time alone.
  have unit : IsUnit (fromU64 foldK2) := .of_mul_eq_one 1201191990 (by decide +kernel)
  exact unit.mul_left_cancel (add_left_cancel (add_right_cancel folded)).symm

/-- On a row that carries the claim the journal is in bounds exactly when no helper wraps. -/
theorem OracleRow.CarriesClaim.inBounds_iff {row : OracleRow}
    (claim : row.CarriesClaim journal nowSecs)
    (eval : row.Eval (journal.publicInputs nowSecs)) :
    journal.InBounds nowSecs ↔ row.InRange journal nowSecs := by
  have timely := le_iff_of_fromU64_add (claim.publishTime_eq eval) claim.oldest claim.publishTime
  obtain ⟨_, _, _, _, _, _, lower, upper, _⟩ := eval
  simp only [claim.active, claim.price, one_mul, add_zero, sub_eq_iff_eq_add',
    OracleJournal.publicInputs] at lower upper
  have cheap := le_iff_of_fromU64_add lower.symm claim.minPrice claim.priceSmall
  have dear := le_iff_of_fromU64_add upper.symm claim.priceSmall claim.maxPrice
  rw [OracleJournal.InBounds, int64_le_iff_toNat_le claim.minPrice claim.priceSmall,
    int64_le_iff_toNat_le claim.priceSmall claim.maxPrice, ← saturatingSub_le_iff,
    cheap, dear, timely]
  exact ⟨fun ⟨lower, upper, fresh⟩ => ⟨lower, upper, fresh⟩,
    fun ⟨lower, upper, fresh⟩ => ⟨lower, upper, fresh⟩⟩

/-- The row of a trace that claims nothing. -/
def idleRow : OracleRow := ⟨0, 0, 0, 0, 0, 0, 0⟩

theorem idleRow_eval (inputs : OraclePublicInputs) : idleRow.Eval inputs := by
  simp [OracleRow.Eval, idleRow]

/-- An accepted trace of any height with a row that carries the claim proves it exactly when no
helper of this row wraps. Without such a row nothing is proved: idle rows are accepted for every
journal. -/
theorem inBounds_iff_inRange (journal : OracleJournal) (nowSecs : UInt64) :
    (∀ trace : List OracleRow, (∀ row ∈ trace, row.Eval (journal.publicInputs nowSecs)) →
      ∀ row ∈ trace, row.CarriesClaim journal nowSecs →
        (journal.InBounds nowSecs ↔ row.InRange journal nowSecs)) ∧
    ∀ height, ∀ row ∈ List.replicate height idleRow,
      row.Eval (journal.publicInputs nowSecs) := by
  refine ⟨fun trace accepted row mem claim => claim.inBounds_iff (accepted row mem), ?_⟩
  intro height row mem
  rw [List.eq_of_mem_replicate mem]
  exact idleRow_eval _

/-- One active row with every helper in range. -/
theorem inBounds_of_ranged_row :
    (⟨1, 150, 1000, 100, 200, 60⟩ : OracleJournal).InBounds 1010 := by
  let row : OracleRow := ⟨150, 50, 50, 50, 0, fromU64 (commitInField ⟨150, 1000, 1⟩), 1⟩
  have eval : row.Eval (OracleJournal.publicInputs ⟨1, 150, 1000, 100, 200, 60⟩ 1010) := by
    unfold OracleRow.Eval
    decide +kernel
  have ranged := (inBounds_iff_inRange ⟨1, 150, 1000, 100, 200, 60⟩ 1010).1 [row]
    (List.forall_mem_singleton.mpr eval) row (.head _) (by constructor <;> decide +kernel)
  exact ranged.mpr (by constructor <;> decide +kernel)

/-- The trace without an active row is accepted for every journal, here for a stale one whose
price exceeds its own maximum. -/
theorem inactive_trace_accepted :
    let journal : OracleJournal := ⟨1, 300, 10, 100, 200, 60⟩
    (∀ row ∈ List.replicate 4 idleRow, row.Eval (journal.publicInputs 1010)) ∧
    ¬ journal.InBounds 1010 := by
  refine ⟨fun row mem => ?_, fun inBounds => absurd inBounds.2.1 (by decide)⟩
  rw [List.eq_of_mem_replicate mem]
  exact idleRow_eval _

end Sophis.OracleCircuit
