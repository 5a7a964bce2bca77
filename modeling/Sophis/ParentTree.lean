import Mathlib.Data.List.Chain
import Sophis.ExceptLoop

namespace ParentTree

open List

/-!
# Trees given by parents

Every node except the root has a parent one level below it. The chain of a
node leads down to the root, and the path from a node of the chain leads up
again.
-/

/-- A parent for each node but the root. -/
structure Tree (Node : Type*) where
  root : Node
  parent : Node → Node
  height : Node → Nat
  height_root : height root = 0
  height_parent : ∀ node, node ≠ root → height node = height (parent node) + 1

namespace Tree

variable {Node : Type*} (tree : Tree Node)

/-- What holds of the root and passes from every parent to its children holds
everywhere. -/
theorem ascend {motive : Node → Prop} (atRoot : motive tree.root)
    (upwards : ∀ node, node ≠ tree.root → motive (tree.parent node) → motive node) (node : Node) :
    motive node := by
  induction level : tree.height node generalizing node with
  | zero =>
    by_cases isRoot : node = tree.root
    · exact isRoot ▸ atRoot
    · rw [tree.height_parent node isRoot] at level
      cases level
  | succ level ih =>
    by_cases isRoot : node = tree.root
    · exact isRoot ▸ atRoot
    · rw [tree.height_parent node isRoot, Nat.succ.injEq] at level
      exact upwards node isRoot (ih _ level)

def descend : Nat → Node → List Node
  | 0, node => [node]
  | steps + 1, node => node :: descend steps (tree.parent node)

/-- The nodes from a node down to the root. -/
def chain (node : Node) : List Node := tree.descend (tree.height node) node

theorem chain_root : tree.chain tree.root = [tree.root] := by
  rw [chain, tree.height_root]
  rfl

variable {node : Node}

theorem chain_of_ne (ne : node ≠ tree.root) :
    tree.chain node = node :: tree.chain (tree.parent node) := by
  rw [chain, tree.height_parent node ne]
  rfl

theorem self_mem_chain (node : Node) : node ∈ tree.chain node := by
  by_cases isRoot : node = tree.root
  · rw [isRoot, chain_root]
    exact mem_singleton_self _
  · rw [tree.chain_of_ne isRoot]
    exact mem_cons_self

theorem root_mem_chain (node : Node) : tree.root ∈ tree.chain node := by
  induction node using tree.ascend with
  | atRoot => exact tree.self_mem_chain _
  | upwards node ne ih =>
    rw [tree.chain_of_ne ne]
    exact mem_cons_of_mem _ ih

variable {tree} {lower : Node}

theorem mem_chain_of_parent (ne : node ≠ tree.root)
    (below : lower ∈ tree.chain (tree.parent node)) : lower ∈ tree.chain node := by
  rw [tree.chain_of_ne ne]
  exact mem_cons_of_mem _ below

/-- A node of a chain is its end or in the chain of the parent. -/
theorem mem_chain_parent (mem : lower ∈ tree.chain node) (below : lower ≠ node) :
    node ≠ tree.root ∧ lower ∈ tree.chain (tree.parent node) := by
  have ne : node ≠ tree.root := by
    rintro rfl
    rw [chain_root] at mem
    exact below (mem_singleton.mp mem)
  rw [tree.chain_of_ne ne, mem_cons] at mem
  exact ⟨ne, mem.resolve_left below⟩

/-- Induction up a chain from one of its nodes. -/
theorem climb {motive : ∀ node, lower ∈ tree.chain node → Prop}
    (start : motive lower (tree.self_mem_chain lower))
    (upwards : ∀ node (ne : node ≠ tree.root) (_ : lower ≠ node)
      (below : lower ∈ tree.chain (tree.parent node)), motive (tree.parent node) below →
        motive node (mem_chain_of_parent ne below))
    (node : Node) (mem : lower ∈ tree.chain node) : motive node mem := by
  induction node using tree.ascend with
  | atRoot =>
    obtain rfl : lower = tree.root := mem_singleton.mp (tree.chain_root ▸ mem)
    exact start
  | upwards node ne ih =>
    by_cases eq : lower = node
    · subst eq
      exact start
    · have below := (mem_chain_parent mem eq).2
      exact upwards node ne eq below (ih below)

theorem height_le_of_mem_chain (mem : lower ∈ tree.chain node) :
    tree.height lower ≤ tree.height node := by
  induction node, mem using climb with
  | start => exact Nat.le_refl _
  | upwards node ne _ _ ih =>
    rw [tree.height_parent node ne]
    exact Nat.le_succ_of_le ih

theorem length_chain (node : Node) : (tree.chain node).length = tree.height node + 1 := by
  induction node using tree.ascend with
  | atRoot => rw [chain_root, tree.height_root, length_singleton]
  | upwards node ne ih =>
    rw [tree.chain_of_ne ne, length_cons, ih, tree.height_parent node ne]

/-- Every step down a chain is one level. -/
theorem height_of_getElem?_chain {steps : Nat} (got : (tree.chain node)[steps]? = some lower) :
    tree.height lower + steps = tree.height node := by
  induction node using tree.ascend generalizing steps with
  | atRoot =>
    rw [chain_root] at got
    cases steps with
    | zero =>
      cases got
      rfl
    | succ steps => cases got
  | upwards node ne ih =>
    rw [tree.chain_of_ne ne] at got
    cases steps with
    | zero =>
      cases got
      rfl
    | succ steps => rw [tree.height_parent node ne, ← Nat.add_assoc, ih got]

theorem mem_chain_trans {lowest : Node} (first : lowest ∈ tree.chain lower)
    (second : lower ∈ tree.chain node) : lowest ∈ tree.chain node := by
  induction node, second using climb with
  | start => exact first
  | upwards _ ne _ _ ih => exact mem_chain_of_parent ne ih

variable {first second : Node}

/-- The nodes of one chain are on each other's chains. -/
theorem mem_chain_total (isFirst : first ∈ tree.chain node) (isSecond : second ∈ tree.chain node) :
    first ∈ tree.chain second ∨ second ∈ tree.chain first := by
  induction node using tree.ascend with
  | atRoot =>
    rw [chain_root, mem_singleton] at isFirst
    exact .inl (isFirst ▸ tree.root_mem_chain second)
  | upwards node ne ih =>
    by_cases firstLast : first = node
    · exact .inr (firstLast ▸ isSecond)
    · by_cases secondLast : second = node
      · exact .inl (secondLast ▸ isFirst)
      · exact ih (mem_chain_parent isFirst firstLast).2 (mem_chain_parent isSecond secondLast).2

theorem eq_of_mem_chain_of_height_le (mem : lower ∈ tree.chain node)
    (level : tree.height node ≤ tree.height lower) : lower = node := by
  by_contra ne
  obtain ⟨notRoot, below⟩ := mem_chain_parent mem ne
  have lowerLevel := height_le_of_mem_chain below
  rw [tree.height_parent node notRoot] at level
  omega

/-- A chain has one node of every level. -/
theorem eq_of_height_eq (isFirst : first ∈ tree.chain node) (isSecond : second ∈ tree.chain node)
    (level : tree.height first = tree.height second) : first = second := by
  rcases mem_chain_total isFirst isSecond with below | below
  · exact eq_of_mem_chain_of_height_le below (Nat.le_of_eq level.symm)
  · exact (eq_of_mem_chain_of_height_le below (Nat.le_of_eq level)).symm

/-- The next node of a chain above one that is not its end. -/
theorem exists_child_mem_chain (mem : lower ∈ tree.chain node) (below : lower ≠ node) :
    ∃ child ∈ tree.chain node, child ≠ tree.root ∧ tree.parent child = lower := by
  induction node using tree.ascend with
  | atRoot =>
    rw [chain_root, mem_singleton] at mem
    exact absurd mem below
  | upwards node ne ih =>
    by_cases edge : lower = tree.parent node
    · exact ⟨node, tree.self_mem_chain node, ne, edge.symm⟩
    · obtain ⟨child, onChain, got⟩ := ih (mem_chain_parent mem below).2 edge
      exact ⟨child, mem_chain_of_parent ne onChain, got⟩

theorem not_mem_chain_parent (ne : node ≠ tree.root) :
    node ∉ tree.chain (tree.parent node) := by
  intro mem
  have level := height_le_of_mem_chain mem
  rw [tree.height_parent node ne] at level
  omega

section

variable [DecidableEq Node] (tree)

/-- The nodes from a node of a chain up to its end. -/
def path (lower upper : Node) : List Node :=
  lower :: ((tree.chain upper).takeWhile fun node => node ≠ lower).reverse

def windows {α : Type*} (items : List α) : List (α × α) := items.zip items.tail

variable {tree}

theorem path_self (node : Node) : tree.path node node = [node] := by
  have stops : (tree.chain node).takeWhile (fun other => other ≠ node) = [] := by
    by_cases isRoot : node = tree.root
    · subst isRoot
      simp [chain_root]
    · simp [tree.chain_of_ne isRoot]
  rw [path, stops]
  rfl

variable {lower upper : Node}

theorem path_of_ne (ne : upper ≠ tree.root) (below : lower ≠ upper) :
    tree.path lower upper = tree.path lower (tree.parent upper) ++ [upper] := by
  rw [path, tree.chain_of_ne ne, takeWhile_cons_of_pos (by simp [Ne.symm below]), reverse_cons]
  rfl

theorem getLast?_path (mem : lower ∈ tree.chain upper) :
    (tree.path lower upper).getLast? = some upper := by
  by_cases eq : lower = upper
  · subst eq
    rw [path_self]
    rfl
  · rw [path_of_ne (mem_chain_parent mem eq).1 eq, getLast?_append]
    rfl

theorem mem_chain_of_mem_path (onChain : lower ∈ tree.chain upper)
    (mem : node ∈ tree.path lower upper) : node ∈ tree.chain upper := by
  rw [path, mem_cons, mem_reverse] at mem
  rcases mem with rfl | above
  · exact onChain
  · exact (takeWhile_sublist _).subset above

/-- Every step of a path leads from a parent to a child. -/
theorem isChain_path (mem : lower ∈ tree.chain upper) :
    (tree.path lower upper).IsChain fun first second =>
      tree.height second = tree.height first + 1 := by
  induction upper, mem using climb with
  | start =>
    rw [path_self]
    exact .singleton _
  | upwards upper notRoot ne below ih =>
    rw [path_of_ne notRoot ne]
    refine isChain_append.mpr ⟨ih, .singleton _, ?_⟩
    intro last isLast child isChild
    rw [getLast?_path below] at isLast
    cases isLast
    cases isChild
    exact tree.height_parent upper notRoot

theorem windows_concat {α : Type*} {items : List α} {last : α} (ends : items.getLast? = some last)
    (item : α) : windows (items ++ [item]) = windows items ++ [(last, item)] := by
  induction items with
  | nil => cases ends
  | cons first rest ih =>
    cases rest with
    | nil =>
      cases ends
      rfl
    | cons second others =>
      have ran := ih (by rwa [getLast?_cons_cons] at ends)
      simp only [windows, cons_append, tail_cons, zip_cons_cons, List.cons.injEq, true_and] at ran ⊢
      exact ran

/-- A longer path has one more pair: the last parent and its child. -/
theorem windows_path (notRoot : upper ≠ tree.root) (ne : lower ≠ upper)
    (below : lower ∈ tree.chain (tree.parent upper)) : windows (tree.path lower upper) =
      windows (tree.path lower (tree.parent upper)) ++ [(tree.parent upper, upper)] := by
  rw [path_of_ne notRoot ne, windows_concat (getLast?_path below)]

/-- What every step from a parent to a child keeps is kept by the walk up a
path. -/
theorem foldlM_path_invariant {ε σ : Type} {step : σ → Node × Node → Except ε σ}
    (invariant : Node → σ → Prop)
    (preserved : ∀ node, node ≠ tree.root → ∀ state next, invariant (tree.parent node) state →
      step state (tree.parent node, node) = .ok next → invariant node next)
    (mem : lower ∈ tree.chain upper) {start final : σ} (initially : invariant lower start)
    (walked : (windows (tree.path lower upper)).foldlM step start = .ok final) :
    invariant upper final := by
  induction upper, mem using climb generalizing final with
  | start =>
    rw [path_self] at walked
    cases walked
    exact initially
  | upwards upper notRoot ne below ih =>
    rw [windows_path notRoot ne below, foldlM_append, ExceptLoop.bind_eq_ok] at walked
    obtain ⟨mid, before, walked⟩ := walked
    rw [foldlM_cons, ExceptLoop.bind_eq_ok] at walked
    obtain ⟨after, stepped, eq⟩ := walked
    cases eq
    exact preserved upper notRoot mid final (ih before) stepped

end

variable {σ : Type*} (tree)

/-- Applies a step for every node of a chain, from the root up. -/
def replay (start : σ) (step : σ → Node → σ) (node : Node) : σ :=
  (tree.chain node).reverse.foldl step start

theorem replay_root (start : σ) (step : σ → Node → σ) :
    tree.replay start step tree.root = step start tree.root := by
  rw [replay, chain_root]
  rfl

variable {node : Node}

theorem replay_of_ne (ne : node ≠ tree.root) (start : σ) (step : σ → Node → σ) :
    tree.replay start step node = step (tree.replay start step (tree.parent node)) node := by
  rw [replay, tree.chain_of_ne ne, reverse_cons, foldl_append]
  rfl

/-- Steps that agree along a chain replay the same. -/
theorem replay_congr {start : σ} {step other : σ → Node → σ}
    (agree : ∀ lower ∈ tree.chain node, ∀ state, step state lower = other state lower) :
    tree.replay start step node = tree.replay start other node := by
  induction node using tree.ascend with
  | atRoot => rw [replay_root, replay_root, agree _ (tree.self_mem_chain _)]
  | upwards node ne ih =>
    rw [tree.replay_of_ne ne, tree.replay_of_ne ne, agree _ (tree.self_mem_chain _), ih]
    intro lower mem
    refine agree lower ?_
    rw [tree.chain_of_ne ne]
    exact mem_cons_of_mem _ mem

end Tree

end ParentTree
