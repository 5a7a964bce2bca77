import Mathlib.Tactic.Common

namespace ParentDag

/-!
# Directed acyclic graphs given by parents

Every node has a finite list of parents of smaller rank. A node is below
another one when a path of parent edges leads down to it; a node is below
itself.
-/

/-- Edges to parents of lower rank. -/
structure Dag (Node : Type*) where
  parents : Node → List Node
  rank : Node → Nat
  rank_parent : ∀ node, ∀ parent ∈ parents node, rank parent < rank node

namespace Dag

variable {Node : Type*} (dag : Dag Node)

/-- The inclusive past of a node. -/
inductive Below : Node → Node → Prop where
  | refl (node : Node) : Below node node
  | step {lower parent node : Node} :
    parent ∈ dag.parents node → Below lower parent → Below lower node

/-- The inclusive past of some nodes. -/
def InPast (tips : List Node) (node : Node) : Prop := ∃ tip ∈ tips, dag.Below node tip

/-- Two nodes of which none is below the other. -/
def Anticone (first second : Node) : Prop := ¬ dag.Below first second ∧ ¬ dag.Below second first

/-- Nodes of which none is below another one. -/
def Antichain (nodes : List Node) : Prop :=
  ∀ first ∈ nodes, ∀ second ∈ nodes, dag.Below first second → first = second

/-- No node of the list is a parent of an earlier one. -/
def Topological (nodes : List Node) : Prop :=
  nodes.Pairwise fun earlier later => later ∉ dag.parents earlier

variable {dag} {node : Node}

theorem below_parent {parent : Node} (edge : parent ∈ dag.parents node) :
    dag.Below parent node :=
  .step edge (.refl parent)

variable {lower : Node}

theorem Below.trans {lowest : Node} (first : dag.Below lowest lower)
    (second : dag.Below lower node) :
    dag.Below lowest node := by
  induction second with
  | refl => exact first
  | step edge _ ih => exact .step edge ih

theorem below_iff :
    dag.Below lower node ↔ lower = node ∨ ∃ parent ∈ dag.parents node, dag.Below lower parent := by
  constructor
  · intro below
    cases below with
    | refl => exact .inl rfl
    | step edge further => exact .inr ⟨_, edge, further⟩
  · rintro (rfl | ⟨parent, edge, further⟩)
    · exact .refl lower
    · exact .step edge further

section

variable (below : dag.Below lower node)
include below

theorem Below.exists_parent (ne : lower ≠ node) :
    ∃ parent ∈ dag.parents node, dag.Below lower parent :=
  (below_iff.mp below).resolve_left ne

theorem Below.rank_le : dag.rank lower ≤ dag.rank node := by
  induction below with
  | refl => exact Nat.le_refl _
  | step edge _ ih => exact Nat.le_of_lt (Nat.lt_of_le_of_lt ih (dag.rank_parent _ _ edge))

end

/-- What passes from the parents of a node to the node holds everywhere. -/
theorem ascend (dag : Dag Node) {motive : Node → Prop}
    (upwards : ∀ node, (∀ parent ∈ dag.parents node, motive parent) → motive node) (node : Node) :
    motive node := by
  induction level : dag.rank node using Nat.strongRecOn generalizing node with
  | ind level ih =>
    subst level
    exact upwards node fun parent edge => ih _ (dag.rank_parent node parent edge) parent rfl

/-- A set that holds with a node all parents outside the past of a bottom holds
with a node its whole past outside the past of the bottom. -/
theorem Below.mem_of_closed {mem : Node → Prop} {bottom : Node}
    (closed : ∀ node, mem node → ∀ parent ∈ dag.parents node,
      mem parent ∨ dag.Below parent bottom) (below : dag.Below lower node) (start : mem node) :
    mem lower ∨ dag.Below lower bottom := by
  induction below with
  | refl => exact .inl start
  | step edge further ih =>
    rcases closed _ start _ edge with inside | outside
    · exact ih inside
    · exact .inr (further.trans outside)

/-- A measure that grows from parents to children grows along paths. -/
theorem Below.lt_of_monotone (measure : Node → Nat) {known : Node → Prop}
    (knownParents : ∀ node, known node → ∀ parent ∈ dag.parents node,
      known parent ∧ measure parent < measure node) (below : dag.Below lower node)
    (isKnown : known node) (ne : lower ≠ node) : measure lower < measure node := by
  induction below with
  | refl => exact absurd rfl ne
  | @step parent node edge further ih =>
    obtain ⟨parentKnown, smaller⟩ := knownParents node isKnown parent edge
    by_cases eq : lower = parent
    · exact eq ▸ smaller
    · exact Nat.lt_trans (ih parentKnown eq) smaller

variable [DecidableEq Node]

/-- Looks for a node at most so many edges down. -/
def reaches (dag : Dag Node) (lower : Node) : Nat → Node → Bool
  | 0, _ => false
  | depth + 1, node => lower = node || (dag.parents node).any (reaches dag lower depth)

variable {node : Node}

theorem reaches_iff {depth : Nat} (deep : dag.rank node < depth) :
    dag.reaches lower depth node = true ↔ dag.Below lower node := by
  induction depth generalizing node with
  | zero => cases deep
  | succ depth ih =>
    rw [reaches, Bool.or_eq_true, decide_eq_true_iff, List.any_eq_true, below_iff]
    refine or_congr_right (exists_congr fun parent => and_congr_right ?_)
    intro edge
    have smaller := dag.rank_parent node parent edge
    exact ih (by omega)

instance (dag : Dag Node) : DecidableRel dag.Below := fun _ node =>
  decidable_of_iff _ (dag.reaches_iff (Nat.lt_succ_self (dag.rank node)))

instance (dag : Dag Node) : DecidableRel dag.Anticone := fun first second =>
  inferInstanceAs (Decidable (¬ dag.Below first second ∧ ¬ dag.Below second first))

instance (dag : Dag Node) : DecidablePred dag.Antichain := fun nodes =>
  inferInstanceAs (Decidable (∀ first ∈ nodes, ∀ second ∈ nodes,
    dag.Below first second → first = second))

/-- How many of some nodes are in the anticone of a node. -/
def anticoneCount (dag : Dag Node) (nodes : List Node) (node : Node) : Nat :=
  nodes.countP fun other => dag.Anticone node other

theorem anticoneCount_append (nodes others : List Node) (node : Node) :
    dag.anticoneCount (nodes ++ others) node =
      dag.anticoneCount nodes node + dag.anticoneCount others node :=
  List.countP_append

theorem anticoneCount_eq_zero {nodes : List Node}
    (related : ∀ other ∈ nodes, ¬ dag.Anticone node other) : dag.anticoneCount nodes node = 0 := by
  rw [anticoneCount, List.countP_eq_zero]
  intro other mem
  simpa using related other mem

theorem anticoneCount_singleton (node other : Node) :
    dag.anticoneCount [other] node = if dag.Anticone node other then 1 else 0 := by
  rw [anticoneCount, List.countP_singleton]
  split <;> simp_all

end Dag

end ParentDag
