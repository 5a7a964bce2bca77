import Mathlib.Algebra.BigOperators.Group.List.Basic

namespace ParallelReduce

open List

/-!
# Reductions by several workers

A reduction cuts a list into pieces, folds every piece from the identity and
joins the partial results. Where the cuts fall is decided at run time.
-/

/-- How a list is cut: a piece stays whole, or its first items go to one worker
and the others to a second. -/
inductive Splitting where
  | whole
  | cut (size : Nat) (left right : Splitting)
  deriving Repr, DecidableEq

variable {α : Type*}

def Splitting.reduce (join : α → α → α) (identity : α) : Splitting → List α → α
  | .whole, items => items.foldl join identity
  | .cut size left right, items =>
    join (left.reduce join identity (items.take size))
      (right.reduce join identity (items.drop size))

theorem Splitting.reduce_eq_foldl (join : α → α → α) (identity : α) [Std.Associative join]
    [Std.LawfulIdentity join identity] (splitting : Splitting) (items : List α) :
    splitting.reduce join identity items = items.foldl join identity := by
  induction splitting generalizing items with
  | whole => rfl
  | cut size left right leftFolded rightFolded =>
    have neutral (item : α) : join item identity = item := Std.LawfulRightIdentity.right_id item
    calc join (left.reduce join identity (items.take size))
          (right.reduce join identity (items.drop size))
        = join ((items.take size).foldl join identity) ((items.drop size).foldl join identity) := by
          rw [leftFolded, rightFolded]
      _ = (items.drop size).foldl join (join ((items.take size).foldl join identity) identity) :=
        foldl_assoc.symm
      _ = (items.take size ++ items.drop size).foldl join identity := by
        rw [neutral, foldl_append]
      _ = items.foldl join identity := by rw [take_append_drop]

variable {M : Type*}

/-- Joins two partial results: the items one after the other, and their
weights. -/
def collect [Add M] (first second : List α × M) : List α × M :=
  (first.1 ++ second.1, first.2 + second.2)

instance [AddMonoid M] : Std.Associative (collect (α := α) (M := M)) where
  assoc first second third := by simp [collect, add_assoc]

instance [AddMonoid M] : Std.LawfulIdentity (collect (α := α) (M := M)) ([], 0) where
  left_id partialResult := by simp [collect]
  right_id partialResult := by simp [collect]

/-- Whatever the cuts, all items are collected in order with the sum of their
weights. -/
theorem reduce_collect [AddMonoid M] (weight : α → M) (splitting : Splitting) (items : List α) :
    splitting.reduce collect ([], 0) (items.map fun item => ([item], weight item)) =
      (items, (items.map weight).sum) := by
  rw [Splitting.reduce_eq_foldl collect ([], 0)]
  induction items with
  | nil => rfl
  | cons item rest ih =>
    have first : collect ([], 0) ([item], weight item) = collect ([item], weight item) ([], 0) := by
      simp [collect]
    rw [map_cons, foldl_cons, first, foldl_assoc, ih]
    simp [collect]

end ParallelReduce
