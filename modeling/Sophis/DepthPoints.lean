import Sophis.BlockDepth

namespace Sophis

open List Option ParentTree Tree

/-!
# Depth points along a chain

The depth store is filled block by block, each entry from that of the selected
parent and from the pruning point at that time. Blue scores grow along chains.
An entry is the highest chain block below the required blue score, whatever the
pruning points were before, as long as the pruning point is further away than
the depth.
-/

namespace BlockDepthManager

variable {Node : Type} {blueScore : Node → Nat} {requiredBlueScore : Nat}

/-- One more block at the end counts when the walk gets that far. -/
theorem lastBelow_concat (current : Node) (chain : List Node) (last : Node) :
    lastBelow blueScore requiredBlueScore current (chain ++ [last]) =
      if ∀ node ∈ chain ++ [last], blueScore node < requiredBlueScore then last
      else lastBelow blueScore requiredBlueScore current chain := by
  induction chain generalizing current with
  | nil =>
    by_cases below : blueScore last < requiredBlueScore
    · simp [lastBelow, below, Nat.not_le.mpr below]
    · simp [lastBelow, below, Nat.not_lt.mp below]
  | cons first rest ih =>
    rw [cons_append, lastBelow, lastBelow, ih]
    by_cases below : blueScore first < requiredBlueScore
    · simp only [forall_mem_cons, below, Nat.not_le.mpr below, if_false, true_and]
    · simp [below, Nat.not_lt.mp below]

end BlockDepthManager

open BlockDepthManager

/-- Blocks whose depth points were recorded one by one. -/
structure DepthHistory (Node : Type) [DecidableEq Node] extends ParentTree.Tree Node where
  blueScore : Node → Nat
  blueScore_parent : ∀ node, node ≠ root → blueScore (parent node) < blueScore node
  mergeDepth : Nat
  finalityDepth : Nat
  /-- The pruning point when a block is processed. -/
  pruningPoint : Node → Node
  pruningPoint_ne : ∀ node, node ≠ root → pruningPoint node ≠ node
  depthStore : BlockDepthType → Node → Option Node
  store_root : ∀ depthType, depthStore depthType root = none
  store_above : ∀ depthType node, node ≠ root → depthStore depthType node = calculateBlockAtDepth
    { mergeDepth, finalityDepth, genesisHash := root, depthStore, blueScore
      isChainAncestorOf := fun lower node => lower ∈ toTree.chain node
      forwardChain := toTree.path }
    depthType (some (parent node)) (blueScore node) (pruningPoint node)

namespace DepthHistory

variable {Node : Type} [DecidableEq Node] (history : DepthHistory Node)

def depth : BlockDepthType → Nat
  | .mergeRoot => history.mergeDepth
  | .finality => history.finalityDepth

/-- Where the walk to the depth point of a block starts. -/
def start (depthType : BlockDepthType) (node : Node) : Node :=
  (history.depthStore depthType (history.parent node)).getD (history.pruningPoint node)

def walked (depthType : BlockDepthType) (node : Node) : Node :=
  lastBelow history.blueScore (history.blueScore node - history.depth depthType)
    (history.start depthType node)
    (history.path (history.start depthType node) (history.parent node))

/-- The highest chain block at or above the pruning point with a blue score below
the required one, or the pruning point if there is none. -/
structure AtDepth (depthType : BlockDepthType) (node point : Node) : Prop where
  onChain : point ∈ history.chain node
  above : history.pruningPoint node ∈ history.chain point
  highest : ∀ other ∈ history.chain node, history.pruningPoint node ∈ history.chain other →
    history.blueScore other < history.blueScore node - history.depth depthType →
    other ∈ history.chain point
  below : history.blueScore point < history.blueScore node - history.depth depthType ∨
    point = history.pruningPoint node

variable {history} {depthType : BlockDepthType} {node lower upper : Node}

theorem blueScore_le_of_mem_chain (mem : lower ∈ history.chain node) :
    history.blueScore lower ≤ history.blueScore node := by
  induction node, mem using climb with
  | start => exact le_rfl
  | upwards node ne _ _ ih => exact ih.trans (history.blueScore_parent node ne).le

variable {required : Nat}

theorem lastBelow_path (mem : lower ∈ history.chain upper)
    (low : history.blueScore lower < required) :
    let point := lastBelow history.blueScore required lower (history.path lower upper)
    point ∈ history.chain upper ∧ history.blueScore point < required ∧
      ∀ other ∈ history.chain upper, history.blueScore other < required →
        other ∈ history.chain point := by
  induction upper, mem using climb with
  | start =>
    simp only [path_self, lastBelow, ite_self]
    exact ⟨history.self_mem_chain _, low, fun other mem _ => mem⟩
  | upwards upper notRoot ne inParent ih =>
    obtain ⟨onChain, below, highest⟩ := ih
    rw [path_of_ne notRoot ne, lastBelow_concat]
    by_cases reached : history.blueScore upper < required
    · have all : ∀ node ∈ history.path lower (history.parent upper) ++ [upper],
          history.blueScore node < required := by
        intro node onPath
        rw [← path_of_ne notRoot ne] at onPath
        exact (blueScore_le_of_mem_chain (mem_chain_of_mem_path
          (mem_chain_of_parent notRoot inParent) onPath)).trans_lt reached
      rw [if_pos all]
      exact ⟨history.self_mem_chain upper, reached, fun other mem _ => mem⟩
    · rw [if_neg fun all => reached (all upper (by simp))]
      refine ⟨mem_chain_of_parent notRoot onChain, below, fun other mem low => ?_⟩
      have notUpper : other ≠ upper := fun isUpper => reached (isUpper ▸ low)
      exact highest other (mem_chain_parent mem notUpper).2 low

theorem lastBelow_path_of_le (high : required ≤ history.blueScore lower) :
    lastBelow history.blueScore required lower (history.path lower upper) = lower := by
  rw [path, lastBelow, if_pos high]

/-- The entry of a block below the depth is the genesis, and that of another one
the end of a walk, if it has any. -/
theorem store_eq (ne : node ≠ history.root) : history.depthStore depthType node =
    if history.blueScore node < history.depth depthType then some history.root
    else if history.blueScore (history.pruningPoint node) + history.depth depthType ≤
        history.blueScore node ∧
      history.pruningPoint node ∈ history.chain (history.parent node) then
      some (history.walked depthType node)
    else none := by
  have depths : ∀ manager : BlockDepthManager Node, manager.mergeDepth = history.mergeDepth →
      manager.finalityDepth = history.finalityDepth →
      manager.depth depthType = history.depth depthType := by
    intro manager merge finality
    cases depthType
    · exact merge
    · exact finality
  rw [history.store_above depthType node ne, calculateBlockAtDepth, depths _ rfl rfl]
  by_cases low : history.blueScore node < history.depth depthType
  · rw [if_pos low, if_pos low]
  · by_cases far : history.blueScore (history.pruningPoint node) + history.depth depthType ≤
      history.blueScore node
    · simp [low, far, Nat.not_lt.mpr far, walked, start]
    · simp [low, far, Nat.not_le.mp far]

theorem store_bound {point : Node} (kept : history.depthStore depthType node = some point) :
    point ∈ history.chain node ∧ (point = history.root ∨
      history.blueScore point + history.depth depthType ≤ history.blueScore node) := by
  induction node using history.ascend generalizing point with
  | atRoot => cases (history.store_root depthType).symm.trans kept
  | upwards node ne ih =>
    rw [store_eq ne] at kept
    split at kept
    · cases kept
      exact ⟨history.root_mem_chain node, .inl rfl⟩
    rw [ite_none_right_eq_some] at kept
    obtain ⟨⟨far, onChain⟩, eq⟩ := kept
    cases eq
    have started : history.start depthType node ∈ history.chain (history.parent node) ∧
        (history.start depthType node = history.root ∨
          history.blueScore (history.start depthType node) + history.depth depthType ≤
            history.blueScore node) := by
      rw [start]
      cases entry : history.depthStore depthType (history.parent node) with
      | none => exact ⟨onChain, .inr far⟩
      | some lower =>
        obtain ⟨below, bound⟩ := ih entry
        exact ⟨below, bound.imp_right fun bound =>
          bound.trans (history.blueScore_parent node ne).le⟩
    rw [walked]
    by_cases high : history.blueScore node - history.depth depthType ≤
      history.blueScore (history.start depthType node)
    · rw [lastBelow_path_of_le high]
      exact ⟨mem_chain_of_parent ne started.1, started.2⟩
    · obtain ⟨onPath, below, -⟩ := lastBelow_path started.1 (Nat.not_le.mp high)
      exact ⟨mem_chain_of_parent ne onPath, .inr (by omega)⟩

/-- From a block to its child the depth point does not move down. -/
theorem store_mono (ne : node ≠ history.root)
    (before : history.depthStore depthType (history.parent node) = some lower)
    (after : history.depthStore depthType node = some upper) : lower ∈ history.chain upper := by
  have grows := history.blueScore_parent node ne
  obtain ⟨onChain, bound⟩ := store_bound before
  rw [store_eq ne] at after
  split at after
  · cases after
    rcases bound with rfl | bound
    · exact history.root_mem_chain _
    · omega
  rw [ite_none_right_eq_some, walked, start, before, getD_some] at after
  obtain ⟨-, eq⟩ := after
  cases eq
  by_cases high : history.blueScore node - history.depth depthType ≤ history.blueScore lower
  · rw [lastBelow_path_of_le high]
    exact history.self_mem_chain lower
  · exact (lastBelow_path onChain (Nat.not_le.mp high)).2.2 lower onChain (Nat.not_le.mp high)

/-- Depth points never move down, and the stored one is the block at that depth,
unless the pruning point is exactly that deep and the walk starts below it. -/
theorem depthPoints_exact (history : DepthHistory Node) (depthType : BlockDepthType) {node : Node}
    (notRoot : node ≠ history.root) :
    (∀ lower upper, history.depthStore depthType (history.parent node) = some lower →
      history.depthStore depthType node = some upper → lower ∈ history.chain upper) ∧
    (history.pruningPoint node ∈ history.chain node →
      history.blueScore (history.pruningPoint node) + history.depth depthType ≤
        history.blueScore node →
      (history.blueScore (history.pruningPoint node) + history.depth depthType =
          history.blueScore node →
        history.start depthType node = history.pruningPoint node) →
      ∃ point, history.depthStore depthType node = some point ∧
        history.AtDepth depthType node point) := by
  refine ⟨fun lower upper => store_mono notRoot, fun onChain far atDepth => ?_⟩
  have inParent := (mem_chain_parent onChain (history.pruningPoint_ne node notRoot)).2
  refine ⟨history.walked depthType node, ?_, ?_⟩
  · rw [store_eq notRoot, if_neg (by omega), if_pos ⟨far, inParent⟩]
  by_cases exactly : history.blueScore (history.pruningPoint node) + history.depth depthType =
    history.blueScore node
  · rw [walked, atDepth exactly, lastBelow_path_of_le (by omega)]
    refine ⟨onChain, history.self_mem_chain _, fun other _ above low => ?_, .inr rfl⟩
    have grows := blueScore_le_of_mem_chain above
    omega
  · have started : history.start depthType node ∈ history.chain (history.parent node) ∧
        history.blueScore (history.start depthType node) <
          history.blueScore node - history.depth depthType := by
      rw [start]
      cases entry : history.depthStore depthType (history.parent node) with
      | none => exact ⟨inParent, by simp only [getD_none]; omega⟩
      | some lower =>
        obtain ⟨below, bound⟩ := store_bound entry
        have grows := history.blueScore_parent node notRoot
        have least := blueScore_le_of_mem_chain (history.root_mem_chain (history.pruningPoint node))
        refine ⟨below, ?_⟩
        rw [getD_some]
        rcases bound with rfl | bound <;> omega
    obtain ⟨onPath, below, highest⟩ := lastBelow_path started.1 started.2
    refine ⟨mem_chain_of_parent notRoot onPath,
      highest _ inParent (by omega), fun other mem _ low => ?_, .inl below⟩
    have notNode : other ≠ node := by
      rintro rfl
      omega
    exact highest other (mem_chain_parent mem notNode).2 low

/-- Four blocks, the last of which merges one more blue block. The pruning point
may have moved to the second block by then. -/
def fourBlocks (moved : Bool) : DepthHistory (Fin 4) where
  root := 0
  parent node := node - 1
  height node := node
  height_root := rfl
  height_parent := by decide
  blueScore node := if node = 3 then 4 else node
  blueScore_parent := by decide
  mergeDepth := 3
  finalityDepth := 3
  pruningPoint node := if moved && node = 3 then 1 else 0
  pruningPoint_ne := by cases moved <;> decide
  depthStore _ node := if node = 0 then none else some 0
  store_root _ := rfl
  store_above depthType := by cases moved <;> cases depthType <;> decide

theorem fourBlocks_atDepth : ∃ point, (fourBlocks false).depthStore .finality 3 = some point ∧
    (fourBlocks false).AtDepth .finality 3 point :=
  (depthPoints_exact (fourBlocks false) .finality (by decide)).2 (by decide) (by decide) (by decide)

/-- A pruning point exactly at the depth is above the stored depth point. -/
theorem fourBlocks_below_pruningPoint :
    (fourBlocks true).pruningPoint 3 ∈ (fourBlocks true).chain 3 ∧
      (fourBlocks true).blueScore ((fourBlocks true).pruningPoint 3) +
        (fourBlocks true).depth .finality = (fourBlocks true).blueScore 3 ∧
      (fourBlocks true).depthStore .finality 3 = some 0 ∧
      ¬ (fourBlocks true).AtDepth .finality 3 0 := by
  refine ⟨by decide, by decide, rfl, fun atDepth => ?_⟩
  exact absurd atDepth.above (by decide)

end DepthHistory

end Sophis
