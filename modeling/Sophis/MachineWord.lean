import Mathlib.Algebra.BigOperators.Group.List.Basic
import Mathlib.Data.UInt

namespace MachineWord

open Option

/-!
# Unsigned 64-bit arithmetic

Overflow-aware operations on 64-bit words and their exact meaning over the
natural numbers. `none` stands for an operation whose exact result does not
fit, whether the program tests for it or aborts on it.
-/

/-- A computation either raises one of its own errors or aborts. -/
inductive Failure (ε : Type) where
  | raised (error : ε)
  | panicked
  deriving Repr, DecidableEq

/-- Turns the absence of a result into an abort. -/
def orPanic {ε α : Type} : Option α → Except (Failure ε) α
  | some value => .ok value
  | none => .error .panicked

def raising {ε α : Type} (computation : Except ε α) : Except (Failure ε) α :=
  computation.mapError .raised

variable {ε α : Type} {found : Option α} {value : α}

@[simp] theorem orPanic_eq_ok :
    (orPanic found : Except (Failure ε) α) = .ok value ↔ found = some value := by
  cases found <;> simp [orPanic]

theorem orPanic_eq_error {failure : Failure ε} :
    (orPanic found : Except (Failure ε) α) = .error failure ↔
      found = none ∧ failure = .panicked := by
  cases found <;> simp [orPanic, eq_comm]

@[simp] theorem raising_eq_ok {computation : Except ε α} :
    raising computation = .ok value ↔ computation = .ok value := by
  cases computation <;> simp [raising, Except.mapError]

theorem raising_ne_panicked {computation : Except ε α} :
    raising computation ≠ .error .panicked := by
  cases computation <;> simp [raising, Except.mapError]

theorem raising_bind {β : Type} (first : Except ε α) (next : α → Except ε β) :
    raising (first >>= next) = raising first >>= fun value => raising (next value) := by
  cases first <;> rfl

/-- Addition that reports a result outside the word range. -/
def checkedAdd (first second : UInt64) : Option UInt64 :=
  if first.toNat + second.toNat < 2 ^ 64 then some (first + second) else none

variable {result : UInt64}

/-- Checked addition returns exactly the word that represents the sum. -/
theorem checkedAdd_eq_some_iff {first second : UInt64} :
    checkedAdd first second = some result ↔ result.toNat = first.toNat + second.toNat := by
  unfold checkedAdd
  constructor
  · intro ran
    split at ran
    · rename_i fits
      rw [← Option.some.inj ran, UInt64.toNat_add, Nat.mod_eq_of_lt fits]
    · cases ran
  · intro exact
    have fits : first.toNat + second.toNat < 2 ^ 64 := exact ▸ result.toNat_lt
    rw [if_pos fits, Option.some.injEq]
    apply UInt64.toNat_inj.mp
    rw [UInt64.toNat_add, Nat.mod_eq_of_lt fits, exact]

/-- Multiplication that reports a result outside the word range. -/
def checkedMul (first second : UInt64) : Option UInt64 :=
  if first.toNat * second.toNat < 2 ^ 64 then some (first * second) else none

/-- Subtraction that stops at zero. -/
def saturatingSub (first second : UInt64) : UInt64 := if second ≤ first then first - second else 0

/-- Addition that stops at the largest word. -/
def saturatingAdd (first second : UInt64) : UInt64 :=
  (checkedAdd first second).getD 18446744073709551615

/-- Saturating addition is exact up to the largest word. -/
theorem toNat_saturatingAdd (first second : UInt64) :
    (saturatingAdd first second).toNat = min (first.toNat + second.toNat) (2 ^ 64 - 1) := by
  unfold saturatingAdd checkedAdd
  split
  · rename_i fits
    rw [getD_some, UInt64.toNat_add, Nat.mod_eq_of_lt fits]
    omega
  · rename_i exceeds
    have largest : (18446744073709551615 : UInt64).toNat = 2 ^ 64 - 1 := rfl
    rw [getD_none, largest]
    omega

def exactSum (values : List UInt64) : Nat := (values.map UInt64.toNat).sum

@[simp] theorem exactSum_nil : exactSum [] = 0 :=
  rfl

@[simp] theorem exactSum_cons (value : UInt64) (values : List UInt64) :
    exactSum (value :: values) = value.toNat + exactSum values := by
  simp [exactSum]

@[simp] theorem exactSum_append (first second : List UInt64) :
    exactSum (first ++ second) = exactSum first + exactSum second := by
  simp [exactSum]

variable {values : List UInt64}

theorem exactSum_le_of_sublist {part : List UInt64} (sublist : part.Sublist values) :
    exactSum part ≤ exactSum values := by
  induction sublist with
  | slnil => exact Nat.le_refl _
  | cons value _ ih =>
    rw [exactSum_cons]
    exact Nat.le_add_left_of_le ih
  | cons_cons value _ ih =>
    rw [exactSum_cons, exactSum_cons]
    exact Nat.add_le_add_left ih _

/-- The sum of a list of words, accumulated from the left. -/
def checkedSumFrom : UInt64 → List UInt64 → Option UInt64
  | total, [] => some total
  | total, value :: rest => do
    let next ← checkedAdd total value
    checkedSumFrom next rest

/-- The sum of a list of words, or nothing when a partial sum overflows. -/
def checkedSum (values : List UInt64) : Option UInt64 := checkedSumFrom 0 values

/-- An accumulated sum is returned exactly when it represents the exact sum;
partial sums only grow, so none of them can overflow unless the last does. -/
theorem checkedSumFrom_eq_some_iff (total : UInt64) (values : List UInt64) (result : UInt64) :
    checkedSumFrom total values = some result ↔ result.toNat = total.toNat + exactSum values := by
  induction values generalizing total with
  | nil =>
    simp only [checkedSumFrom, Option.some.injEq, exactSum_nil, Nat.add_zero, ← UInt64.toNat_inj]
    exact eq_comm
  | cons value rest ih =>
    simp only [checkedSumFrom, exactSum_cons]
    constructor
    · intro ran
      obtain ⟨next, added, continued⟩ := bind_eq_some_iff.mp ran
      rw [checkedAdd_eq_some_iff] at added
      rw [ih] at continued
      omega
    · intro exact
      have resultFits := result.toNat_lt
      have fits : total.toNat + value.toNat < 2 ^ 64 := by omega
      have added : checkedAdd total value = some (total + value) := if_pos fits
      refine bind_eq_some_iff.mpr ⟨_, added, ?_⟩
      rw [ih, checkedAdd_eq_some_iff.mp added]
      omega

theorem checkedSum_eq_some_iff :
    checkedSum values = some result ↔ result.toNat = exactSum values := by
  rw [checkedSum, checkedSumFrom_eq_some_iff]
  simp

end MachineWord
