import Sophis.VirtualResolution

namespace Sophis

open List ParentTree

/-!
# Blocks at a depth below virtual

`consensus/src/processes/block_depth.rs` and `virtual_finality_point` of the
virtual processor: the finality point and the merge depth root of a block are the
chain blocks whose blue score is lower by a fixed depth. They are computed from
those of the selected parent.
-/

/-- The two depths that are recorded for each block. -/
inductive BlockDepthType where
  | mergeRoot
  | finality
  deriving DecidableEq

/-- The stores and services that the depth of blocks is computed from. A missing
entry of the depth store stands for the origin, which is above no block. -/
structure BlockDepthManager (Node : Type) where
  mergeDepth : Nat
  finalityDepth : Nat
  genesisHash : Node
  depthStore : BlockDepthType → Node → Option Node
  isChainAncestorOf : Node → Node → Bool
  forwardChain : Node → Node → List Node
  blueScore : Node → Nat

namespace BlockDepthManager

variable {Node : Type} (manager : BlockDepthManager Node)

def depth : BlockDepthType → Nat
  | .mergeRoot => manager.mergeDepth
  | .finality => manager.finalityDepth

/-- Walks up a chain as long as the blue scores are below the required one. -/
def lastBelow (blueScore : Node → Nat) (requiredBlueScore : Nat) : Node → List Node → Node
  | current, [] => current
  | current, chainBlock :: rest =>
    if requiredBlueScore ≤ blueScore chainBlock then
      current
    else
      lastBelow blueScore requiredBlueScore chainBlock rest

def calculateBlockAtDepth (depthType : BlockDepthType)
    (selectedParent : Option Node) (blueScore : Nat) (pruningPoint : Node) :
    Option Node :=
  match selectedParent with
  | none => none
  | some selectedParent =>
    if blueScore < manager.depth depthType then
      some manager.genesisHash
    else if blueScore < manager.blueScore pruningPoint + manager.depth depthType then
      none
    else if !manager.isChainAncestorOf pruningPoint selectedParent then
      none
    else
      let current := (manager.depthStore depthType selectedParent).getD pruningPoint
      some (lastBelow manager.blueScore (blueScore - manager.depth depthType) current
        (manager.forwardChain current selectedParent))

/-- The finality point of virtual, or the pruning point when it is not above
that. -/
def virtualFinalityPoint (selectedParent : Node) (blueScore : Nat) (pruningPoint : Node) : Node :=
  match manager.calculateBlockAtDepth .finality (some selectedParent) blueScore pruningPoint with
  | some finalityPoint =>
    if manager.isChainAncestorOf pruningPoint finalityPoint then
      finalityPoint
    else
      pruningPoint
  | none => pruningPoint

variable {blueScore : Node → Nat} {requiredBlueScore : Nat}

theorem lastBelow_cases (current : Node) (chain : List Node) :
    lastBelow blueScore requiredBlueScore current chain = current ∨
      lastBelow blueScore requiredBlueScore current chain ∈ chain ∧
        blueScore (lastBelow blueScore requiredBlueScore current chain) < requiredBlueScore := by
  induction chain generalizing current with
  | nil => exact .inl rfl
  | cons chainBlock rest ih =>
    rw [lastBelow]
    split
    · exact .inl rfl
    · next below =>
      right
      rcases ih chainBlock with same | ⟨mem, lower⟩
      · rw [same]
        exact ⟨mem_cons_self, Nat.lt_of_not_le below⟩
      · exact ⟨mem_cons_of_mem _ mem, lower⟩

/-- Where the blue scores grow by one, the walk ends right below the required
one. -/
theorem blueScore_lastBelow {current : Node} {chain : List Node}
    (steps : (current :: chain).IsChain fun first second => blueScore second = blueScore first + 1)
    (below : blueScore current < requiredBlueScore)
    (reached : ∃ node ∈ chain, requiredBlueScore ≤ blueScore node) :
    blueScore (lastBelow blueScore requiredBlueScore current chain) + 1 = requiredBlueScore := by
  induction chain generalizing current with
  | nil =>
    obtain ⟨node, mem, -⟩ := reached
    cases mem
  | cons chainBlock rest ih =>
    obtain ⟨step, later⟩ := isChain_cons_cons.mp steps
    rw [lastBelow]
    split
    · omega
    · next lower =>
      refine ih later (Nat.lt_of_not_le lower) ?_
      obtain ⟨node, mem, high⟩ := reached
      rcases mem_cons.mp mem with rfl | isLater
      · exact absurd high lower
      · exact ⟨node, isLater, high⟩

end BlockDepthManager

variable {external : External} {params : Params} {Node : Type}
  [DecidableEq Node] (dag : BlockDag external params Node)

def BlockDag.depthManager (mergeDepth finalityDepth : Nat)
    (depthStore : BlockDepthType → Node → Option Node) :
    BlockDepthManager Node where
  mergeDepth
  finalityDepth
  genesisHash := dag.root
  depthStore
  isChainAncestorOf lower node := lower ∈ dag.chain node
  forwardChain := dag.path
  blueScore node := (dag.block node).header.blueScore.toNat

/-- A depth store as header processing fills it: every entry was calculated with
the entry of the selected parent and some pruning point. -/
structure BlockDag.DepthsRecorded (mergeDepth finalityDepth : Nat)
    (depthStore : BlockDepthType → Node → Option Node) : Prop where
  atRoot : ∀ depthType, depthStore depthType dag.root = none
  above : ∀ depthType node, node ≠ dag.root → ∃ pruningPoint, depthStore depthType node =
    (dag.depthManager mergeDepth finalityDepth
      depthStore).calculateBlockAtDepth depthType (some (dag.parent node))
        (dag.block node).header.blueScore.toNat pruningPoint

variable {dag} {mergeDepth finalityDepth : Nat} {depthStore : BlockDepthType → Node → Option Node}
  {depthType : BlockDepthType} {pruningPoint point : Node}

theorem BlockDag.calculateBlockAtDepth_mem {selectedParent : Node}
    (entry : ∀ point, depthStore depthType selectedParent = some point →
      point ∈ dag.chain selectedParent) {blueScore : Nat}
    (ran : (dag.depthManager mergeDepth finalityDepth
      depthStore).calculateBlockAtDepth depthType (some selectedParent)
        blueScore pruningPoint = some point) : point ∈ dag.chain selectedParent := by
  rw [BlockDepthManager.calculateBlockAtDepth] at ran
  split at ran
  · cases ran
    exact dag.root_mem_chain selectedParent
  · split at ran
    · cases ran
    · split at ran
      · cases ran
      · next onChain =>
        have below : pruningPoint ∈ dag.chain selectedParent := by
          simpa [BlockDag.depthManager] using onChain
        have start : (depthStore depthType selectedParent).getD
            pruningPoint ∈ dag.chain selectedParent := by
          cases got : depthStore depthType selectedParent with
          | none => exact below
          | some kept => exact entry kept got
        cases ran
        rcases BlockDepthManager.lastBelow_cases _ _ with same | ⟨onPath, -⟩
        · exact same ▸ start
        · exact Tree.mem_chain_of_mem_path start onPath

variable {node : Node}

section

variable (recorded : dag.DepthsRecorded mergeDepth finalityDepth depthStore)
include recorded

theorem BlockDag.DepthsRecorded.mem_chain (got : depthStore depthType node = some point) :
    point ∈ dag.chain node := by
  induction node using dag.ascend generalizing point with
  | atRoot => cases (recorded.atRoot depthType).symm.trans got
  | upwards node ne ih =>
    obtain ⟨pruningPoint, ran⟩ := recorded.above depthType node ne
    exact Tree.mem_chain_of_parent ne
      (dag.calculateBlockAtDepth_mem (fun _ => ih) (ran.symm.trans got))

/-- The finality point of virtual is on the chain of the sink, as the pruning
point is. -/
theorem BlockDag.DepthsRecorded.virtualFinalityPoint_mem {sink : Node}
    (onChain : pruningPoint ∈ dag.chain sink) (blueScore : Nat) :
    (dag.depthManager mergeDepth finalityDepth
      depthStore).virtualFinalityPoint sink blueScore pruningPoint ∈ dag.chain sink := by
  rw [BlockDepthManager.virtualFinalityPoint]
  split
  · next point ran =>
    split
    · exact dag.calculateBlockAtDepth_mem (fun _ => recorded.mem_chain) ran
    · exact onChain
  · exact onChain

end

variable (dag) in
/-- The depth store of a node that always had the same pruning point. -/
def BlockDag.recordDepths (mergeDepth finalityDepth : Nat)
    (pruningPoint : Node) (depthType : BlockDepthType) : Node → Option Node :=
  dag.replay none fun entry node =>
    if node = dag.root then
      none
    else
      (dag.depthManager mergeDepth finalityDepth fun _ _ =>
        entry).calculateBlockAtDepth depthType (some (dag.parent node))
          (dag.block node).header.blueScore.toNat pruningPoint

theorem BlockDag.recordDepths_of_ne (pruningPoint : Node) (depthType : BlockDepthType)
    (ne : node ≠ dag.root) :
    dag.recordDepths mergeDepth finalityDepth pruningPoint depthType node =
      (dag.depthManager mergeDepth finalityDepth (dag.recordDepths mergeDepth finalityDepth
        pruningPoint)).calculateBlockAtDepth depthType (some (dag.parent node))
          (dag.block node).header.blueScore.toNat pruningPoint := by
  rw [BlockDag.recordDepths, dag.replay_of_ne ne, if_neg ne]
  rfl

theorem BlockDag.recordDepths_recorded (pruningPoint : Node) :
    dag.DepthsRecorded mergeDepth finalityDepth
      (dag.recordDepths mergeDepth finalityDepth pruningPoint) where
  atRoot depthType := by rw [BlockDag.recordDepths, dag.replay_root, if_pos rfl]
  above depthType node ne :=
    ⟨pruningPoint, dag.recordDepths_of_ne pruningPoint depthType ne⟩

end Sophis
