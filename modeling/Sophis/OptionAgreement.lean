import Mathlib.Tactic.Common

namespace OptionAgreement

/-!
# Calculations that agree where both return

Calculations on different stores may run out of entries or of fuel at different
places. They agree when they cannot return different results.
-/

variable {α β : Type}

def Agree (first second : Option α) : Prop :=
  ∀ result other, first = some result → second = some other → result = other

theorem Agree.refl (result : Option α) : Agree result result :=
  fun _ _ got otherGot => Option.some.inj (got.symm.trans otherGot)

theorem Agree.bind {first second : Option α} (agree : Agree first second)
    {next other : α → Option β}
    (later : ∀ value, first = some value → second = some value → Agree (next value) (other value)) :
    Agree (first >>= next) (second >>= other) := by
  intro result otherResult got otherGot
  obtain ⟨value, isValue, returned⟩ := Option.bind_eq_some_iff.mp got
  obtain ⟨otherValue, isOther, otherReturned⟩ := Option.bind_eq_some_iff.mp otherGot
  cases agree _ _ isValue isOther
  exact later value isValue isOther _ _ returned otherReturned

theorem Agree.ite {condition : Prop} [Decidable condition] {first second third fourth : Option α}
    (agree : Agree first second) (otherwise : Agree third fourth) :
    Agree (if condition then first else third) (if condition then second else fourth) := by
  split
  · exact agree
  · exact otherwise

theorem agree_mapM {compute other : α → Option β}
    (agree : ∀ item, Agree (compute item) (other item)) (items : List α) :
    Agree (items.mapM compute) (items.mapM other) := by
  induction items with
  | nil => exact .refl _
  | cons item rest ih =>
    rw [List.mapM_cons, List.mapM_cons]
    exact (agree item).bind fun _ _ _ => ih.bind fun _ _ _ => .refl _

end OptionAgreement
