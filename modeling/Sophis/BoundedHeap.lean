import Mathlib.Data.Finset.Card
import Mathlib.Data.List.Sort

/-!
# Heaps of bounded size

A heap keeps the largest elements of those that were pushed, up to a bound on
their number. It is written as the ascending list of its elements, so that the
next element to drop is the first. `Tops` says what such a heap holds, whatever
the order was in which the elements came.
-/

namespace BoundedHeap

open Finset List

variable {Item : Type*} [LinearOrder Item]

variable (bound : Nat)

/-- Whether an element would enter the heap. A full heap has a first
element. -/
def canPush (heap : List Item) (item : Item) : Option Bool :=
  if heap.length = bound then
    heap.head?.map fun least => least ≤ item
  else
    some true

/-- Pushes an element, unless the heap is full of larger ones. -/
def tryPush (heap : List Item) (item : Item) : Bool × List Item :=
  if heap.length = bound then
    if heap.head?.any fun least => item < least then
      (false, heap)
    else
      (true, heap.tail.orderedInsert (· ≤ ·) item)
  else
    (true, heap.orderedInsert (· ≤ ·) item)

def pushAll (heap items : List Item) : List Item :=
  items.foldl (fun heap item => (tryPush bound heap item).2) heap

/-- Pushes elements up to the first one that does not enter. -/
def pushUntilRefused : List Item → List Item → List Item
  | heap, [] => heap
  | heap, item :: rest =>
    if (tryPush bound heap item).1 then
      pushUntilRefused (tryPush bound heap item).2 rest
    else
      heap

def merge (heap other : List Item) : List Item :=
  let joined := (heap ++ other).insertionSort (· ≤ ·)
  joined.drop (joined.length - bound)

/-- The heap holds the largest elements of a set. -/
structure Tops (bound : Nat) (all : Finset Item) (heap : List Item) : Prop where
  ascending : heap.Pairwise (· < ·)
  subset : ∀ item ∈ heap, item ∈ all
  largest : ∀ item ∈ heap, ∀ other ∈ all, other ∉ heap → other < item
  length_eq : heap.length = min bound all.card

section

variable {bound : Nat} {all others : Finset Item} {heap : List Item}

theorem tops_nil : Tops bound (∅ : Finset Item) [] where
  ascending := .nil
  subset := nofun
  largest := nofun
  length_eq := by simp

theorem tops_zero : Tops 0 all [] where
  ascending := .nil
  subset := nofun
  largest := nofun
  length_eq := by simp

theorem Tops.nodup (tops : Tops bound all heap) : heap.Nodup := tops.ascending.imp ne_of_lt

theorem Tops.card_toFinset (tops : Tops bound all heap) :
    heap.toFinset.card = min bound all.card := by
  rw [toFinset_card_of_nodup tops.nodup, tops.length_eq]

theorem Tops.full (tops : Tops bound all heap) {item : Item} (mem : item ∈ all)
    (missing : item ∉ heap) : heap.length = bound := by
  have smaller : heap.toFinset ⊂ all := by
    refine ⟨fun other inHeap => tops.subset other (List.mem_toFinset.mp inHeap),
      fun sub => missing (List.mem_toFinset.mp (sub mem))⟩
  have fewer := card_lt_card smaller
  rw [toFinset_card_of_nodup tops.nodup] at fewer
  have size := tops.length_eq
  omega

theorem Tops.unique {other : List Item} (first : Tops bound all heap)
    (second : Tops bound all other) : heap = other := by
  have sameSize : heap.length = other.length := first.length_eq.trans second.length_eq.symm
  have within : heap ⊆ other := by
    intro item inHeap
    by_contra missing
    -- Then the other heap has an element that this one misses.
    obtain ⟨extra, inOther, notInHeap⟩ : ∃ extra ∈ other, extra ∉ heap := by
      by_contra none
      push Not at none
      have perm : other.Perm heap := (subperm_of_subset second.nodup none).perm_of_length_le
          sameSize.le
      exact missing (perm.mem_iff.mpr inHeap)
    exact lt_asymm (first.largest item inHeap extra (second.subset extra inOther) notInHeap)
      (second.largest extra inOther item (first.subset item inHeap) missing)
  have perm : heap.Perm other :=
    (subperm_of_subset first.nodup within).perm_of_length_le sameSize.ge
  exact perm.eq_of_pairwise (fun _ _ _ _ less greater => absurd greater (lt_asymm less))
    first.ascending second.ascending

/-- Elements below a full heap do not change it. -/
theorem Tops.union_below (tops : Tops bound all heap) (full : heap.length = bound)
    (below : ∀ other ∈ others, ∀ item ∈ heap, other < item) : Tops bound (all ∪ others) heap where
  ascending := tops.ascending
  subset item inHeap := mem_union_left _ (tops.subset item inHeap)
  largest := by
    intro item inHeap other mem missing
    rcases mem_union.mp mem with inAll | inOthers
    · exact tops.largest item inHeap other inAll missing
    · exact below other inOthers item inHeap
  length_eq := by
    have grows : all.card ≤ (all ∪ others).card := card_le_card subset_union_left
    have size := tops.length_eq
    omega

theorem Tops.union {first second : Finset Item} {firstHeap secondHeap : List Item}
    (firstTops : Tops bound first firstHeap) (secondTops : Tops bound second secondHeap)
    (disjoint : Disjoint first second)
    (tops : Tops bound (firstHeap.toFinset ∪ secondHeap.toFinset) heap) :
    Tops bound (first ∪ second) heap := by
  have firstSub : firstHeap.toFinset ⊆ first := fun item inHeap =>
    firstTops.subset item (List.mem_toFinset.mp inHeap)
  have secondSub : secondHeap.toFinset ⊆ second := fun item inHeap =>
    secondTops.subset item (List.mem_toFinset.mp inHeap)
  have size : heap.length = min bound (first ∪ second).card := by
    rw [tops.length_eq, card_union_of_disjoint (disjoint.mono firstSub secondSub),
      card_union_of_disjoint disjoint, firstTops.card_toFinset, secondTops.card_toFinset]
    omega
  -- An element that one of the heaps lost is below one that it kept and that
  -- the joined heap lost.
  have lost : ∀ {part : Finset Item} {partHeap : List Item}, Tops bound part partHeap →
      partHeap.toFinset ⊆ firstHeap.toFinset ∪ secondHeap.toFinset →
      ∀ item ∈ heap, ∀ other ∈ part, other ∉ partHeap → other < item := by
    intro part partHeap partTops partSub item inHeap other mem missing
    by_cases inPart : item ∈ partHeap
    · exact partTops.largest item inPart other mem missing
    · have notAll : ¬ partHeap ⊆ heap := by
        intro sub
        have perm : partHeap.Perm heap :=
          (subperm_of_subset partTops.nodup sub).perm_of_length_le (by
            have := partTops.full mem missing
            have := tops.length_eq
            omega)
        exact inPart (perm.mem_iff.mpr inHeap)
      obtain ⟨kept, inKept, notInHeap⟩ : ∃ kept ∈ partHeap, kept ∉ heap := by
        by_contra none
        push Not at none
        exact notAll none
      exact (partTops.largest kept inKept other mem missing).trans (tops.largest item inHeap kept
        (partSub (List.mem_toFinset.mpr inKept)) notInHeap)
  refine ⟨tops.ascending, fun item inHeap => ?_, ?_, size⟩
  · exact union_subset_union firstSub secondSub (tops.subset item inHeap)
  · intro item inHeap other mem missing
    by_cases considered : other ∈ firstHeap.toFinset ∪ secondHeap.toFinset
    · exact tops.largest item inHeap other considered missing
    · rw [mem_union, not_or, List.mem_toFinset, List.mem_toFinset] at considered
      rcases mem_union.mp mem with inFirst | inSecond
      · exact lost firstTops subset_union_left item inHeap other inFirst considered.1
      · exact lost secondTops subset_union_right item inHeap other inSecond considered.2

end

variable {bound : Nat} {all : Finset Item} {heap : List Item} {items : List Item}

theorem tops_drop (sorted : items.Pairwise (· < ·)) :
    Tops bound items.toFinset (items.drop (items.length - bound)) := by
  have split := take_append_drop (items.length - bound) items
  have parts := sorted
  rw [← split, pairwise_append] at parts
  refine ⟨parts.2.1, fun item kept => ?_, fun item kept other mem missing => ?_, ?_⟩
  · exact List.mem_toFinset.mpr (mem_of_mem_drop kept)
  · rw [List.mem_toFinset, ← split] at mem
    rcases mem_append.mp mem with dropped | isKept
    · exact parts.2.2 other dropped item kept
    · exact absurd isKept missing
  · rw [length_drop, toFinset_card_of_nodup (sorted.imp ne_of_lt)]
    omega

theorem tops_of_length_le (sorted : items.Pairwise (· < ·)) (short : items.length ≤ bound) :
    Tops bound items.toFinset items := by
  have tops : Tops bound items.toFinset (items.drop (items.length - bound)) := tops_drop sorted
  rwa [Nat.sub_eq_zero_of_le short, drop_zero] at tops

theorem pairwise_lt_of_le (sorted : items.Pairwise (· ≤ ·)) (nodup : items.Nodup) :
    items.Pairwise (· < ·) :=
  (sorted.and nodup).imp fun both => lt_of_le_of_ne both.1 both.2

variable {item : Item}

theorem pairwise_orderedInsert (sorted : items.Pairwise (· < ·)) (fresh : item ∉ items) :
    (items.orderedInsert (· ≤ ·) item).Pairwise (· < ·) := by
  refine pairwise_lt_of_le ?_ ?_
  · exact (sorted.imp le_of_lt).orderedInsert item items
  · rw [(perm_orderedInsert _ item items).nodup_iff]
    exact List.nodup_cons.mpr ⟨fresh, sorted.imp ne_of_lt⟩

theorem toFinset_orderedInsert (item : Item) (items : List Item) :
    (items.orderedInsert (· ≤ ·) item).toFinset = insert item items.toFinset := by
  rw [toFinset_eq_of_perm _ _ (perm_orderedInsert _ item items), toFinset_cons]

theorem tryPush_refused (refused : (tryPush bound heap item).1 = false)
    (sorted : heap.Pairwise (· < ·)) : heap.length = bound ∧ ∀ kept ∈ heap, item < kept := by
  rw [tryPush] at refused
  split at refused
  · next full =>
    refine ⟨full, ?_⟩
    split at refused
    · next smaller =>
      cases heap with
      | nil => cases smaller
      | cons least rest =>
        have below : item < least := by simpa using smaller
        intro kept isKept
        rcases mem_cons.mp isKept with rfl | later
        · exact below
        · exact below.trans ((pairwise_cons.mp sorted).1 kept later)
    · cases refused
  · cases refused

theorem tryPush_of_refused (refused : (tryPush bound heap item).1 = false) :
    (tryPush bound heap item).2 = heap := by
  rw [tryPush] at refused ⊢
  split_ifs at refused ⊢
  rfl

section

variable (tops : Tops bound all heap) (positive : 0 < bound)
include tops positive

theorem Tops.tryPush (fresh : item ∉ all) :
    Tops bound (all ∪ {item}) (tryPush bound heap item).2 := by
  have notInHeap : item ∉ heap := fun inHeap => fresh (tops.subset item inHeap)
  have single : Tops bound ({item} : Finset Item) [item] := by
    simpa using tops_of_length_le (pairwise_singleton _ item)
      (show [item].length ≤ bound from positive)
  have disjoint : Disjoint all {item} := Finset.disjoint_singleton_right.mpr fresh
  -- Of the elements of the heap and the new one, it keeps the largest.
  have considered : heap.toFinset ∪ [item].toFinset = insert item heap.toFinset := by
    rw [toFinset_cons, toFinset_nil, insert_empty_eq, Finset.union_comm, Finset.singleton_union]
  cases ok : (BoundedHeap.tryPush bound heap item).1 with
  | false =>
    obtain ⟨full, smaller⟩ := tryPush_refused ok tops.ascending
    rw [tryPush_of_refused ok]
    refine tops.union_below full fun other isItem kept inHeap => ?_
    rw [Finset.mem_singleton.mp isItem]
    exact smaller kept inHeap
  | true =>
    refine tops.union single disjoint ?_
    rw [considered]
    rw [BoundedHeap.tryPush] at ok ⊢
    split at ok
    · next full =>
      split at ok
      · cases ok
      · next notSmaller =>
        rw [if_pos full, if_neg notSmaller]
        cases heap with
        | nil =>
          simp only [length_nil] at full
          omega
        | cons least rest =>
          have rising := pairwise_cons.mp tops.ascending
          have above : least < item := by
            have notBelow : ¬ item < least := by simpa using notSmaller
            refine lt_of_le_of_ne (not_lt.mp notBelow) ?_
            rintro rfl
            exact notInHeap mem_cons_self
          have inserted : (least :: rest.orderedInsert (· ≤ ·) item).Pairwise (· < ·) := by
            refine pairwise_cons.mpr ⟨fun other mem => ?_,
              pairwise_orderedInsert rising.2 fun inRest =>
                notInHeap (mem_cons_of_mem _ inRest)⟩
            rcases (mem_orderedInsert _).mp mem with
              rfl | inRest
            · exact above
            · exact rising.1 other inRest
          have kept : Tops bound _ _ := tops_drop inserted
          simp only [length_cons, orderedInsert_length] at full kept
          rw [show rest.length + 1 + 1 - bound = 1 by omega, drop_one, tail_cons, toFinset_cons,
            toFinset_orderedInsert, Finset.insert_comm,
            ← toFinset_cons] at kept
          exact kept
    · next notFull =>
      rw [if_neg notFull, ← toFinset_orderedInsert]
      refine tops_of_length_le (pairwise_orderedInsert tops.ascending notInHeap) ?_
      have size := tops.length_eq
      rw [orderedInsert_length]
      omega

theorem Tops.pushAll (nodup : items.Nodup) (fresh : ∀ item ∈ items, item ∉ all) :
    Tops bound (all ∪ items.toFinset) (pushAll bound heap items) := by
  induction items generalizing all heap with
  | nil => simpa [BoundedHeap.pushAll] using tops
  | cons item items ih =>
    obtain ⟨notLater, laterNodup⟩ := List.nodup_cons.mp nodup
    have pushed := tops.tryPush positive (fresh item mem_cons_self)
    have rest := ih pushed laterNodup fun later mem => by
      rw [Finset.mem_union, Finset.mem_singleton, not_or]
      exact ⟨fresh later (mem_cons_of_mem _ mem), fun eq => notLater (eq ▸ mem)⟩
    rwa [Finset.union_assoc, Finset.singleton_union, ← toFinset_cons] at rest

/-- For descending elements nothing is lost by stopping at the first one that
does not enter. -/
theorem Tops.pushUntilRefused (descending : items.Pairwise (· > ·))
    (fresh : ∀ item ∈ items, item ∉ all) :
    Tops bound (all ∪ items.toFinset) (pushUntilRefused bound heap items) := by
  induction items generalizing all heap with
  | nil => simpa [BoundedHeap.pushUntilRefused] using tops
  | cons item items ih =>
    obtain ⟨aboveRest, restDescending⟩ := pairwise_cons.mp descending
    rw [BoundedHeap.pushUntilRefused]
    cases ok : (BoundedHeap.tryPush bound heap item).1 with
    | false =>
      obtain ⟨full, smaller⟩ := tryPush_refused ok tops.ascending
      rw [if_neg Bool.false_ne_true]
      refine tops.union_below full fun other mem kept inHeap => ?_
      rcases mem_cons.mp (List.mem_toFinset.mp mem) with
        rfl | later
      · exact smaller kept inHeap
      · exact (aboveRest other later).trans (smaller kept inHeap)
    | true =>
      rw [if_pos rfl]
      have pushed := tops.tryPush positive (fresh item mem_cons_self)
      have rest := ih pushed restDescending fun later mem => by
          rw [Finset.mem_union, Finset.mem_singleton, not_or]
          exact ⟨fresh later (mem_cons_of_mem _ mem), (aboveRest later mem).ne⟩
      rwa [Finset.union_assoc, Finset.singleton_union, ← toFinset_cons] at rest

end

theorem Tops.merge {others : Finset Item} {other : List Item} (tops : Tops bound all heap)
    (otherTops : Tops bound others other) (disjoint : Disjoint all others) :
    Tops bound (all ∪ others) (merge bound heap other) := by
  refine tops.union otherTops disjoint ?_
  have sorted := pairwise_insertionSort (· ≤ ·) (heap ++ other)
  have perm := perm_insertionSort (· ≤ ·) (heap ++ other)
  have nodup : (heap ++ other).Nodup := by
    refine nodup_append.mpr ⟨tops.nodup, otherTops.nodup, ?_⟩
    rintro item inHeap _ inOther rfl
    exact disjoint_left.mp disjoint (tops.subset item inHeap) (otherTops.subset item inOther)
  have kept : Tops bound _ _ := tops_drop (pairwise_lt_of_le sorted (perm.nodup_iff.mpr nodup))
  rwa [toFinset_eq_of_perm _ _ perm, toFinset_append] at kept

/-- A heap that an element cannot enter is full of larger ones. -/
theorem canPush_eq (sorted : heap.Pairwise (· < ·)) (positive : 0 < bound) (item : Item) :
    ∃ allowed, canPush bound heap item = some allowed ∧
      (allowed = false → heap.length = bound ∧ ∀ kept ∈ heap, item < kept) := by
  rw [canPush]
  split
  · next full =>
    cases heap with
    | nil =>
      simp only [length_nil] at full
      omega
    | cons least rest =>
      refine ⟨_, rfl, fun refused => ⟨full, ?_⟩⟩
      have below : item < least := by simpa using refused
      intro kept isKept
      rcases mem_cons.mp isKept with rfl | later
      · exact below
      · exact below.trans ((pairwise_cons.mp sorted).1 kept later)
  · exact ⟨true, rfl, nofun⟩

end BoundedHeap
