import Mathlib.Data.List.Perm.Basic
import Mathlib.Order.Lattice
import Mathlib.Tactic.Common

namespace ListSelection

open List

/-!
# Selecting by position

The position of an extreme element of a list, with the ties decided by the
order of the list, and removal at a position. Whatever the ties, what is left
after the removal is the list without the selected element.
-/

variable {α κ : Type}

/-- Goes through a list from its end and keeps the element that is preferred,
with its position. -/
def selectBy (prefers : α → α → Bool) : List α → Option (Nat × α)
  | [] => none
  | item :: rest =>
    match selectBy prefers rest with
    | none => some (0, item)
    | some (position, later) =>
      if prefers later item then
        some (position + 1, later)
      else
        some (0, item)

/-- The first of the least elements. -/
def firstMin [LinearOrder κ] (key : α → κ) : List α → Option (Nat × α) :=
  selectBy fun later item => key later < key item

/-- The last of the greatest elements. -/
def lastMax [LinearOrder κ] (key : α → κ) : List α → Option (Nat × α) :=
  selectBy fun later item => key item ≤ key later

/-- Removes an element and puts the last one in its place. -/
def swapRemove (items : List α) (position : Nat) : List α := match items.getLast? with
  | none => []
  | some last => (items.set position last).dropLast

section

variable {items : List α}

theorem selectBy_eq_none_iff {prefers : α → α → Bool} :
    selectBy prefers items = none ↔ items = [] := by
  cases items with
  | nil => simp [selectBy]
  | cons item rest =>
    cases later : selectBy prefers rest with
    | none => simp [selectBy, later]
    | some pair =>
      by_cases preferred : prefers pair.2 item = true
      · simp [selectBy, later, preferred]
      · simp [selectBy, later, preferred]

variable {prefers : α → α → Bool} (before : α → α → Prop) (refl : ∀ item, before item item)
  (trans : ∀ {first second third}, before first second → before second third → before first third)
  (preferred : ∀ {later item}, prefers later item = true → before later item)
  (kept : ∀ {later item}, prefers later item = false → before item later)
include refl trans preferred kept

theorem selectBy_spec {position : Nat} {picked : α}
    (got : selectBy prefers items = some (position, picked)) :
    items[position]? = some picked ∧ ∀ other ∈ items, before picked other := by
  induction items generalizing position picked with
  | nil => cases got
  | cons item rest ih =>
    unfold selectBy at got
    cases later : selectBy prefers rest with
    | none =>
      rw [later] at got
      cases got
      cases selectBy_eq_none_iff.mp later
      refine ⟨rfl, fun other mem => ?_⟩
      cases mem_singleton.mp mem
      exact refl item
    | some pair =>
      obtain ⟨laterPosition, laterSelected⟩ := pair
      obtain ⟨atPosition, extreme⟩ := ih later
      rw [later] at got
      cases choice : prefers laterSelected item with
      | true =>
        simp only [choice, if_true] at got
        cases got
        refine ⟨atPosition, fun other mem => ?_⟩
        rcases mem_cons.mp mem with rfl | inRest
        · exact preferred choice
        · exact extreme other inRest
      | false =>
        simp only [choice, Bool.false_eq_true, if_false] at got
        cases got
        refine ⟨rfl, fun other mem => ?_⟩
        rcases mem_cons.mp mem with rfl | inRest
        · exact refl other
        · exact trans (kept choice) (extreme other inRest)

end

section

variable [LinearOrder κ] {key : α → κ} {items : List α} {position : Nat}

theorem firstMin_spec {least : α} (got : firstMin key items = some (position, least)) :
    items[position]? = some least ∧ ∀ other ∈ items, key least ≤ key other := by
  have refl : ∀ item : α, key item ≤ key item := fun _ => le_refl _
  have trans : ∀ {first second third : α}, key first ≤ key second →
      key second ≤ key third → key first ≤ key third :=
    fun first second => first.trans second
  refine selectBy_spec (fun first second => key first ≤ key second) refl trans ?_ ?_ got
  · intro later item smaller
    exact (of_decide_eq_true smaller).le
  · intro later item notSmaller
    exact not_lt.mp (of_decide_eq_false notSmaller)

theorem lastMax_spec {greatest : α} (got : lastMax key items = some (position, greatest)) :
    items[position]? = some greatest ∧ ∀ other ∈ items, key other ≤ key greatest := by
  have refl : ∀ item : α, key item ≤ key item := fun _ => le_refl _
  have trans : ∀ {first second third : α}, key second ≤ key first →
      key third ≤ key second → key third ≤ key first :=
    fun first second => second.trans first
  refine selectBy_spec (fun first second => key second ≤ key first) refl trans ?_ ?_ got
  · intro later item greater
    exact of_decide_eq_true greater
  · intro later item notGreater
    exact (not_le.mp (of_decide_eq_false notGreater)).le

end

variable {items : List α} {position : Nat} {item : α}

theorem perm_eraseIdx (got : items[position]? = some item) :
    (item :: items.eraseIdx position).Perm items := by
  obtain ⟨inside, rfl⟩ := List.getElem?_eq_some_iff.mp got
  exact getElem_cons_eraseIdx_perm inside

theorem perm_swapRemove (got : items[position]? = some item) :
    (item :: swapRemove items position).Perm items := by
  obtain ⟨front, last, rfl⟩ : ∃ front last, items = front ++ [last] := by
    refine ⟨_, _, (dropLast_append_getLast ?_).symm⟩
    rintro rfl
    cases got
  have removed : swapRemove (front ++ [last]) position =
      ((front ++ [last]).set position last).dropLast := by
    unfold swapRemove
    rw [getLast?_concat]
  rw [removed]
  have inside : position < (front ++ [last]).length := (List.getElem?_eq_some_iff.mp got).1
  rw [length_append, length_singleton] at inside
  rcases Nat.lt_succ_iff_lt_or_eq.mp inside with inFront | atEnd
  · rw [set_append_left _ _ inFront, dropLast_concat]
    rw [getElem?_append_left inFront] at got
    -- the removed element and the last one change places
    have replaced : (item :: front.set position last).Perm (last :: front) :=
      ((set_perm_cons_eraseIdx inFront last).cons item).trans
        ((List.Perm.swap _ _ _).trans ((perm_eraseIdx got).cons last))
    exact replaced.trans (perm_append_singleton last front).symm
  · subst atEnd
    rw [getElem?_concat_length] at got
    cases got
    rw [set_append_right _ _ (Nat.le_refl _), Nat.sub_self]
    simpa using (perm_append_singleton item front).symm

end ListSelection
