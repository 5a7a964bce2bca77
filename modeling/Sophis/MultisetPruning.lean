import Sophis.BlockDepth
import Sophis.Mergeset
import Sophis.QuietDag

namespace Sophis

open BlockDepthManager ByteCodec ExceptLoop FiniteLedger List ParentTree Tree

/-!
# Multisets below the finality point

Every resolve deletes the multiset of one block below its finality point, as a
block there "can never be reverted" (`prune_finalized_multiset` of
`virtual_processor/processor.rs`). The finality point follows the blue score of
virtual, and a reorganisation to a heavier chain can lower that.
-/

variable {elementHash : List UInt8 → Hash} {external : External} {params : Params} {Node : Type}
  {dag : BlockDag external params Node} {relations : DagRelations Node}

section

variable {floor : Node} [DecidableEq Node]

theorem Located.sinkSearchAlgorithm_reads {virtualUtxo : UtxoSet} {progress : Progress Node}
    (located : Located elementHash dag floor virtualUtxo progress) (fits : params.CountsFitWords)
    (free : dag.CollisionFree)
    (virtualCreated : CreatedFrom external.toHashers dag.Known virtualUtxo)
    {judging : Node → Judging} {finalityPoint : Node} (aboveFloor : floor ∈ dag.chain finalityPoint)
    {fuel : Nat} {heap : List Node} (missing : Node) :
    Sophis.sinkSearchAlgorithm elementHash dag relations judging virtualUtxo
        finalityPoint fuel progress heap ≠
      .error (.relative (.missingMultiset missing)) := by
  induction fuel generalizing progress heap with
  | zero => rintro ⟨⟩
  | succ fuel ih =>
    rw [Sophis.sinkSearchAlgorithm]
    split
    · rintro ⟨⟩
    · next candidate rest popped =>
      split
      · next final =>
        rcases located.relatively fits free virtualCreated
          judging (mem_chain_trans aboveFloor final) with
          ⟨reached, ran, nextLocated, -⟩ | ⟨failing, -, failed, -⟩
        · rw [ran]
          change (if reached.diffPoint = candidate then _ else _) ≠ _
          split
          · rintro ⟨⟩
          · exact ih nextLocated
        · rw [failed]
          rintro ⟨⟩
      · exact ih located

theorem ProcessorState.Consistent.resolveVirtual_reads {state : ProcessorState Node}
    (consistent : state.Consistent elementHash dag floor) (fits : params.CountsFitWords)
    (free : dag.CollisionFree) {resolution : Resolution dag}
    (aboveFloor : floor ∈ dag.chain resolution.finalityPoint) (missing : Node) :
    Sophis.resolveVirtual elementHash dag relations state resolution ≠
      .error (.relative (.missingMultiset missing)) := by
  intro failed
  rw [Sophis.resolveVirtual, bind_eq_error] at failed
  rcases failed with searching | ⟨⟨got, candidates⟩, searched, failed⟩
  · exact consistent.located.sinkSearchAlgorithm_reads fits free
      consistent.createdFrom aboveFloor missing searching
  · obtain ⟨located, -⟩ := consistent.located.sinkSearchAlgorithm fits
      free consistent.createdFrom aboveFloor searched
    have kept := located.consistent.multiset_eq _ located.aboveFloor located.valid
    simp only [calculateVirtualState, accumulateDiff, kept, bind_eq_error, reject_eq_error,
      unwrapOr_eq_error, mapError_eq_error, pure, Except.pure, reduceCtorEq,
      ResolvePanic.relative.injEq, exists_eq_right, and_false, false_and, exists_false,
      or_self] at failed

end

section

variable (elementHash : List UInt8 → Hash) {external : External}
  {params : Params} {Node : Type} [DecidableEq Node]
  (dag : BlockDag external params Node) (relations : DagRelations Node)
  (manager : BlockDepthManager Node)

/-- The finality point that a resolve starts from is that of virtual, for a
pruning point on its chain. -/
def ProcessorState.HasFinalityPoint (state : ProcessorState Node)
    (blueScore : Nat) (finalityPoint : Node) : Prop :=
  ∃ pruningPoint ∈ dag.chain state.virtualState.sink,
    manager.virtualFinalityPoint state.virtualState.sink blueScore pruningPoint = finalityPoint

/-- Runs of resolves that meet a condition on their finality point and the blocks
whose multisets were deleted before, with the blue score of virtual and these
blocks. -/
inductive PrunedRun (condition : Node → List Node → Prop) :
    ProcessorState Node → Nat → List Node → Prop where
  | genesis : PrunedRun condition dag.genesisState 1 []
  | resolve {state next : ProcessorState Node} {blueScore nextScore : Nat}
    {deleted : List Node} {resolution : Resolution dag} :
    PrunedRun condition state blueScore deleted →
    state.HasFinalityPoint dag manager blueScore resolution.finalityPoint →
    condition resolution.finalityPoint deleted →
    resolveVirtual elementHash dag relations state resolution = .ok next →
    (dag.block next.virtualState.sink).header.blueScore.toNat < nextScore →
    PrunedRun condition next nextScore
      (deleted ++ (finalizedTarget dag resolution.finalityPoint).toList)

/-- The finality point is not below a block whose multiset was deleted. -/
def BlockDag.AboveDeleted (finalityPoint : Node) (deleted : List Node) : Prop :=
  ∀ target ∈ deleted, finalityPoint ∉ dag.chain target

end

variable {floor finalityPoint : Node} {deleted : List Node}

/-- On the chain of the sink, what is not below a deleted block is above the
floor. -/
structure BlockDag.Guards (dag : BlockDag external params Node)
    (floor sink : Node) (deleted : List Node) : Prop where
  onChain : floor ∈ dag.chain sink
  guarded : ∀ node ∈ dag.chain sink, dag.AboveDeleted node deleted → floor ∈ dag.chain node

theorem BlockDag.AboveDeleted.of_append {others : List Node}
    (above : dag.AboveDeleted finalityPoint (deleted ++ others)) :
    dag.AboveDeleted finalityPoint deleted :=
  fun target mem => above target (mem_append_left others mem)

variable {sink next : Node}

theorem BlockDag.Guards.keep (guards : dag.Guards floor sink deleted)
    (kept : floor ∈ dag.chain next) (others : List Node) :
    dag.Guards floor next (deleted ++ others) := by
  refine ⟨kept, fun node onChain above => ?_⟩
  rcases mem_chain_total kept onChain with below | below
  · exact below
  · exact guards.guarded node (mem_chain_trans below guards.onChain) above.of_append

theorem finalizedTarget_eq_some {target : Node}
    (got : finalizedTarget dag finalityPoint = some target) :
    target ∈ dag.chain finalityPoint ∧
      dag.height target + safetyMargin = dag.height finalityPoint := by
  rw [finalizedTarget] at got
  split at got
  · cases got
  · exact ⟨mem_of_getElem? got, height_of_getElem?_chain got⟩

theorem BlockDag.Spares.atFinalityPoint (aboveFloor : floor ∈ dag.chain finalityPoint) :
    dag.Spares floor finalityPoint finalityPoint := by
  refine ⟨aboveFloor, dag.self_mem_chain _, fun target got mem => ?_⟩
  have level := (finalizedTarget_eq_some got).2
  have lower := height_le_of_mem_chain mem
  rw [safetyMargin] at level
  omega

theorem BlockDag.Guards.prune (guards : dag.Guards floor sink deleted)
    (aboveFloor : floor ∈ dag.chain finalityPoint) (final : finalityPoint ∈ dag.chain next) :
    ∃ nextFloor, dag.Spares floor finalityPoint nextFloor ∧ dag.Guards nextFloor next
      (deleted ++ (finalizedTarget dag finalityPoint).toList) := by
  have kept := mem_chain_trans aboveFloor final
  by_cases reached : ∃ target, finalizedTarget dag finalityPoint = some target ∧
    floor ∈ dag.chain target
  · obtain ⟨target, got, below⟩ := reached
    obtain ⟨onChain, level⟩ := finalizedTarget_eq_some got
    have notEnd : target ≠ finalityPoint := by
      rintro rfl
      exact absurd level (by simp [safetyMargin])
    -- The floor moves to the child of the deleted block.
    obtain ⟨child, childOn, ne, rfl⟩ := exists_child_mem_chain onChain notEnd
    have childKept := mem_chain_trans childOn final
    refine ⟨child, ⟨mem_chain_of_parent ne below, childOn, ?_⟩, childKept, ?_⟩
    · intro other isOther
      cases got.symm.trans isOther
      exact not_mem_chain_parent ne
    · intro node nodeOn above
      rcases mem_chain_total childKept nodeOn with higher | lower
      · exact higher
      · by_cases eq : node = child
        · exact eq ▸ dag.self_mem_chain child
        · refine absurd (mem_chain_parent lower eq).2 ?_
          exact above _ (mem_append_right _ (Option.mem_toList.mpr got))
  · refine ⟨floor, ⟨dag.self_mem_chain floor, aboveFloor, ?_⟩, guards.keep kept _⟩
    intro target got below
    exact reached ⟨target, got, below⟩

section

variable [DecidableEq Node] {mergeDepth finalityDepth : Nat}
  {depthStore : BlockDepthType → Node → Option Node} {state : ProcessorState Node} {blueScore : Nat}

theorem ProcessorState.HasFinalityPoint.mem_chain {finalityPoint : Node}
    (computed : state.HasFinalityPoint dag
      (dag.depthManager mergeDepth finalityDepth depthStore) blueScore
      finalityPoint) (recorded : dag.DepthsRecorded mergeDepth finalityDepth depthStore) :
    finalityPoint ∈ dag.chain state.virtualState.sink := by
  obtain ⟨pruningPoint, onChain, rfl⟩ := computed
  exact recorded.virtualFinalityPoint_mem onChain blueScore

theorem PrunedRun.guarded {deleted : List Node} (run : PrunedRun elementHash dag relations
      (dag.depthManager mergeDepth finalityDepth depthStore)
      dag.AboveDeleted state blueScore deleted) (fits : params.CountsFitWords)
    (free : dag.CollisionFree)
    (recorded : dag.DepthsRecorded mergeDepth finalityDepth depthStore) :
    ∃ floor, state.Consistent elementHash dag floor ∧
      dag.Guards floor state.virtualState.sink deleted := by
  induction run with
  | genesis =>
    exact ⟨dag.root, dag.genesisState_consistent elementHash,
      dag.root_mem_chain _, fun node _ _ => dag.root_mem_chain node⟩
  | @resolve state next blueScore nextScore deleted resolution run computed
    above resolved higher ih =>
    obtain ⟨floor, consistent, guards⟩ := ih
    have aboveFloor := guards.guarded resolution.finalityPoint (computed.mem_chain recorded) above
    have final : resolution.finalityPoint ∈ dag.chain next.virtualState.sink :=
      (consistent.resolveVirtual fits free (.atFinalityPoint aboveFloor) resolved).1.sink_above
    obtain ⟨nextFloor, spares, nextGuards⟩ := guards.prune aboveFloor final
    exact ⟨nextFloor, (consistent.resolveVirtual fits free spares resolved).1, nextGuards⟩

/-- Deleted multisets are never read, as long as the finality point does not fall
back below a block whose multiset was deleted: in every run of resolves whose
finality points meet this, the next such resolve finds every multiset that it
reads, that of the new sink and those of the selected parents of the chain blocks
it verifies. -/
theorem deletedMultisets_never_read (elementHash : List UInt8 → Hash) (external : External)
    (params : Params) (fits : params.CountsFitWords) (Node : Type) [DecidableEq Node]
    (dag : BlockDag external params Node) (collisionFree : dag.CollisionFree)
    (relations : DagRelations Node) (mergeDepth finalityDepth : Nat)
    (depthStore : BlockDepthType → Node → Option Node)
    (recorded : dag.DepthsRecorded mergeDepth finalityDepth depthStore)
    (state : ProcessorState Node) (blueScore : Nat) (deleted : List Node)
    (run : PrunedRun elementHash dag relations
      (dag.depthManager mergeDepth finalityDepth depthStore)
      dag.AboveDeleted state blueScore deleted) (resolution : Resolution dag)
    (computed : state.HasFinalityPoint dag
      (dag.depthManager mergeDepth finalityDepth depthStore) blueScore
      resolution.finalityPoint) (above : dag.AboveDeleted resolution.finalityPoint deleted) :
    ∀ node, resolveVirtual elementHash dag relations state resolution ≠
      .error (.relative (.missingMultiset node)) := by
  obtain ⟨floor, consistent, guards⟩ := run.guarded fits collisionFree recorded
  exact consistent.resolveVirtual_reads fits collisionFree
    (guards.guarded _ (computed.mem_chain recorded) above)

end

section

variable {Node : Type} [DecidableEq Node] (tree : QuietTree Node) (mergeDepth finalityDepth : Nat)

/-- The depth store of quiet blocks on a node that never pruned. -/
def quietDepths : BlockDepthType → Node → Option Node :=
  (quietDag tree).recordDepths mergeDepth finalityDepth tree.root

def quietManager : BlockDepthManager Node := (quietDag tree).depthManager mergeDepth finalityDepth
    (quietDepths tree mergeDepth finalityDepth)

theorem quietDepths_recorded : (quietDag tree).DepthsRecorded mergeDepth finalityDepth
    (quietDepths tree mergeDepth finalityDepth) :=
  (quietDag tree).recordDepths_recorded tree.root

/-- Where the walk to the finality point of virtual starts. -/
def quietStart (sink : Node) : Node :=
  (quietDepths tree mergeDepth finalityDepth .finality sink).getD tree.root

variable {tree mergeDepth finalityDepth}

theorem quietManager_calculated (sink : Node) (blueScore : Nat) :
    (quietManager tree mergeDepth finalityDepth).calculateBlockAtDepth
        .finality (some sink) blueScore tree.root =
      some (if blueScore < finalityDepth then
        tree.root
      else
        lastBelow tree.height (blueScore - finalityDepth)
          (quietStart tree mergeDepth finalityDepth sink)
          (tree.path (quietStart tree mergeDepth finalityDepth sink) sink)) := by
  have scores : (quietManager tree mergeDepth finalityDepth).blueScore = tree.height :=
    funext tree.toNat_blueScore
  have ancestor : (quietManager tree mergeDepth
      finalityDepth).isChainAncestorOf tree.root sink = true :=
    decide_eq_true (tree.root_mem_chain sink)
  rw [calculateBlockAtDepth, scores, tree.height_root, Nat.zero_add, ancestor]
  change (if blueScore < finalityDepth then some tree.root
    else if blueScore < finalityDepth then _ else _) = _
  split
  · rfl
  · rfl

variable {node : Node}

theorem quietDepths_of_ne (ne : node ≠ tree.root) :
    quietDepths tree mergeDepth finalityDepth .finality node =
      (quietManager tree mergeDepth finalityDepth).calculateBlockAtDepth
        .finality (some (tree.parent node)) (tree.height node) tree.root := by
  rw [quietDepths, (quietDag tree).recordDepths_of_ne _ _ ne, ← tree.toNat_blueScore]
  rfl

theorem height_quietStart_le (node : Node) :
    tree.height (quietStart tree mergeDepth finalityDepth node) ≤
      tree.height node - finalityDepth - 1 := by
  induction node using tree.ascend with
  | atRoot =>
    have none : quietDepths tree mergeDepth finalityDepth .finality tree.root = none :=
      (quietDepths_recorded tree mergeDepth finalityDepth).atRoot .finality
    rw [quietStart, none]
    exact tree.height_root.trans_le (Nat.zero_le _)
  | upwards node ne ih =>
    have level := tree.height_parent node ne
    rw [quietStart, quietDepths_of_ne ne, quietManager_calculated, Option.getD_some]
    split
    · exact tree.height_root.trans_le (Nat.zero_le _)
    · rcases lastBelow_cases _ _ with eq | ⟨-, lower⟩
      · rw [eq]
        omega
      · exact Nat.le_pred_of_lt lower

theorem quietStart_mem (sink : Node) :
    quietStart tree mergeDepth finalityDepth sink ∈ tree.chain sink := by
  rw [quietStart]
  cases got : quietDepths tree mergeDepth finalityDepth .finality sink with
  | none => exact tree.root_mem_chain sink
  | some point => exact (quietDepths_recorded tree mergeDepth finalityDepth).mem_chain got

theorem quietManager_finalityPoint (sink : Node) (blueScore : Nat) :
    (quietManager tree mergeDepth finalityDepth).virtualFinalityPoint sink blueScore tree.root =
      if blueScore < finalityDepth then
        tree.root
      else
        lastBelow tree.height (blueScore - finalityDepth)
          (quietStart tree mergeDepth finalityDepth sink)
          (tree.path (quietStart tree mergeDepth finalityDepth sink) sink) := by
  rw [virtualFinalityPoint, quietManager_calculated]
  exact if_pos (decide_eq_true (tree.root_mem_chain _))

theorem quietManager_finalityPoint_height {sink : Node} (pos : 0 < finalityDepth)
    (high : finalityDepth ≤ tree.height sink) :
    tree.height ((quietManager tree mergeDepth
      finalityDepth).virtualFinalityPoint sink (tree.height sink + 1)
        tree.root) + finalityDepth = tree.height sink := by
  have onChain : quietStart tree mergeDepth finalityDepth sink ∈
      tree.chain sink := quietStart_mem sink
  have start : tree.height (quietStart tree mergeDepth finalityDepth sink) ≤
      tree.height sink - finalityDepth - 1 := height_quietStart_le sink
  have ends : sink ∈ tree.path (quietStart tree mergeDepth finalityDepth sink) sink :=
    mem_of_getLast? (getLast?_path onChain)
  have steps := isChain_path onChain
  rw [quietManager_finalityPoint, if_neg (by omega)]
  obtain ⟨rest, listed⟩ : ∃ rest, tree.path (quietStart tree mergeDepth
      finalityDepth sink) sink = quietStart tree mergeDepth finalityDepth sink :: rest := ⟨_, rfl⟩
  rw [listed] at steps ends ⊢
  have later : sink ∈ rest := by
    refine (mem_cons.mp ends).resolve_left fun eq => ?_
    rw [← eq] at start
    omega
  rw [lastBelow, if_neg (by omega)]
  have low : tree.height (quietStart tree mergeDepth finalityDepth sink) <
      tree.height sink + 1 - finalityDepth := by
    omega
  have last := blueScore_lastBelow steps low ⟨sink, later, by omega⟩
  omega

variable {relations : DagRelations Node}

variable {tip : Node}

omit [DecidableEq Node] in
theorem quiet_blueScore_lt {state : ProcessorState Node} (sink : state.virtualState.sink = tip) :
    ((quietDag tree).block state.virtualState.sink).header.blueScore.toNat <
      tree.height tip + 1 := by
  rw [sink]
  exact lt_of_eq_of_lt (tree.toNat_blueScore tip) (Nat.lt_succ_self _)

theorem BlockDag.genesisState_multiset_iff {external : External} {params : Params}
    {dag : BlockDag external params Node} :
    (dag.genesisState.stores.utxoMultisets node).isSome = true ↔ node = dag.root := by
  by_cases isRoot : node = dag.root
  · simp [BlockDag.genesisState, isRoot]
  · simp [BlockDag.genesisState, isRoot]

variable (mergeDepth) in
theorem quietDag_resolves_first (tip : Node)
    (related : relations.isDagAncestorOf tree.root tip = true) (early : 1 < finalityDepth) :
    ∃ state, PrunedRun fingerprint (quietDag tree) relations
        (quietManager tree mergeDepth finalityDepth)
        (quietDag tree).AboveDeleted state (tree.height tip + 1) [] ∧
      state.Quiet tree ∧ state.virtualState.sink = tip ∧
      ∀ node, (state.stores.Valid node ↔ node ∈ tree.chain tip) ∧
        ((state.stores.utxoMultisets node).isSome = true ↔ node ∈ tree.chain tip) := by
  have genesisOnly {node : Node} :
      (quietDag tree).genesisState.stores.Valid node ↔ node = tree.root :=
    BlockDag.genesisState_valid_iff
  have popped : popMax ((quietDag tree).sortable relations)
      ([tip].filter (relations.isDagAncestorOf tree.root)) = some (tip, []) := by
    rw [filter_singleton, related]
    rfl
  have rootOnChain := tree.root_mem_chain tip
  obtain ⟨state, extended, resolved, quiet, sink, grown, stores⟩ :=
    (quietDag_genesisState tree).resolveVirtual fingerprint popped rootOnChain fun node _ valid =>
      BlockDag.genesisState_multiset_iff.mpr (genesisOnly.mp valid)
  have nothing : finalizedTarget (quietDag tree) tree.root = none :=
    if_pos (tree.height_root.trans_le (Nat.zero_le _))
  have unchanged : pruneFinalizedMultiset (quietDag tree) tree.root extended = extended := by
    rw [pruneFinalizedMultiset, nothing]
  rw [unchanged] at stores
  refine ⟨state, ?_, quiet, sink, fun node => ⟨?_, ?_⟩⟩
  · have run : PrunedRun fingerprint (quietDag tree) relations
        (quietManager tree mergeDepth finalityDepth)
        (quietDag tree).AboveDeleted state (tree.height tip + 1)
        ([] ++ (finalizedTarget (quietDag tree) tree.root).toList) :=
      .resolve .genesis ⟨tree.root, (quietDag tree).root_mem_chain _,
          (quietManager_finalityPoint _ _).trans (if_pos early)⟩
        (forall_mem_nil _) resolved
        (quiet_blueScore_lt sink)
    rw [nothing] at run
    exact run
  · rw [stores, grown.valid_iff, genesisOnly]
    exact or_iff_right_of_imp fun isRoot => isRoot ▸ rootOnChain
  · rw [stores, grown.multiset_iff, BlockDag.genesisState_multiset_iff, genesisOnly]
    by_cases isRoot : node = tree.root
    · exact ⟨fun _ => isRoot ▸ rootOnChain, fun _ => .inl isRoot⟩
    · exact ⟨fun either => (either.resolve_left isRoot).2, fun onChain => .inr ⟨isRoot, onChain⟩⟩

theorem quietDag_resolves_second {candidate finalityPoint target : Node} {tips rest : List Node}
    (related : relations.isDagAncestorOf tree.root tip = true) (early : 1 < finalityDepth)
    (computed : (quietManager tree mergeDepth
      finalityDepth).virtualFinalityPoint tip (tree.height tip + 1) tree.root = finalityPoint)
    (popped : popMax ((quietDag tree).sortable relations)
      (tips.filter (relations.isDagAncestorOf finalityPoint)) = some (candidate, rest))
    (final : finalityPoint ∈ tree.chain candidate)
    (deletes : finalizedTarget (quietDag tree) finalityPoint = some target) :
    ∃ state, PrunedRun fingerprint (quietDag tree) relations
        (quietManager tree mergeDepth finalityDepth)
        (quietDag tree).AboveDeleted state (tree.height candidate + 1)
        [target] ∧
      state.Quiet tree ∧ state.virtualState.sink = candidate ∧
      (∀ node, state.stores.Valid node ↔ node ∈ tree.chain tip ∨ node ∈ tree.chain candidate) ∧
      state.stores.utxoMultisets target = none := by
  obtain ⟨before, run, quiet, onTip, kept⟩ := quietDag_resolves_first mergeDepth tip related early
  obtain ⟨state, extended, resolved, nextQuiet, sink, grown, stores⟩ :=
    quiet.resolveVirtual fingerprint popped final fun node _ valid =>
      (kept node).2.mpr ((kept node).1.mp valid)
  refine ⟨state, ?_, nextQuiet, sink, fun node => ?_, ?_⟩
  · have ran : PrunedRun fingerprint (quietDag tree) relations
        (quietManager tree mergeDepth finalityDepth)
        (quietDag tree).AboveDeleted state (tree.height candidate + 1)
        ([] ++ (finalizedTarget (quietDag tree) finalityPoint).toList) :=
      .resolve run ⟨tree.root, (quietDag tree).root_mem_chain _, onTip ▸ computed⟩
        (forall_mem_nil _) resolved (quiet_blueScore_lt sink)
    rw [deletes] at ran
    exact ran
  · have valid : state.stores.Valid node ↔ extended.Valid node := by
      rw [stores]
      rfl
    rw [valid, grown.valid_iff, (kept node).1]
  · rw [stores, pruneFinalizedMultiset, deletes]
    exact Function.update_self _ _ _

end

/-! A trunk and three branches, on mainnet depths. The light branch leaves the
trunk at height 101. The heavy one leaves it there too and has 200 blocks fewer,
of a difficulty that is higher by a thousandth. The late one leaves the trunk at
height 1. -/

/-- The branches of a fork above the root. -/
inductive ForkBranch where
  | trunk
  | light
  | heavy
  | late
  deriving DecidableEq

/-- A block of the fork. -/
structure ForkNode where
  branch : ForkBranch
  index : Fin 432000
  deriving DecidableEq

def ForkBranch.start : ForkBranch → Nat
  | trunk => 0
  | light => 102
  | heavy => 102
  | late => 2

def ForkBranch.code : ForkBranch → Nat
  | trunk => 0
  | light => 1
  | heavy => 2
  | late => 3

namespace ForkNode

def height (node : ForkNode) : Nat := node.branch.start + node.index

def parent : ForkNode → ForkNode
  | ⟨branch, ⟨index + 1, bound⟩⟩ => ⟨branch, ⟨index, Nat.lt_of_succ_lt bound⟩⟩
  | ⟨.trunk, ⟨0, _⟩⟩ => ⟨.trunk, 0⟩
  | ⟨.light, ⟨0, _⟩⟩ => ⟨.trunk, 101⟩
  | ⟨.heavy, ⟨0, _⟩⟩ => ⟨.trunk, 101⟩
  | ⟨.late, ⟨0, _⟩⟩ => ⟨.trunk, 1⟩

def blueWork (node : ForkNode) : Nat := match node.branch with
  | .trunk => 1000 * node.index
  | .light => 1000 * (node.index + 102)
  | .heavy => 101000 + 1001 * (node.index + 1)
  | .late => 1000 + 1001 * (node.index + 1)

def lightTip : ForkNode := ⟨.light, 431999⟩

def heavyTip : ForkNode := ⟨.heavy, 431799⟩

def lateTip : ForkNode := ⟨.late, 431899⟩

theorem height_parent {node : ForkNode} (ne : node ≠ ⟨.trunk, 0⟩) :
    node.height = node.parent.height + 1 := by
  obtain ⟨branch, ⟨index, bound⟩⟩ := node
  cases index with
  | zero =>
    cases branch with
    | trunk => exact absurd rfl ne
    | light | heavy | late => rfl
  | succ index => rfl

def hash (node : ForkNode) : Hash := .ofPrefix 32 (leBytes 8 (4 * node.index + node.branch.code))

theorem hash_injective : Function.Injective hash := by
  rintro ⟨branch, index⟩ ⟨other, otherIndex⟩ eq
  have bound (branch : ForkBranch) : branch.code < 4 := by cases branch <;> decide
  have small (branch : ForkBranch) (index : Fin 432000) :
      4 * (index : Nat) + branch.code < 256 ^ 8 := by
    have := bound branch
    omega
  have value := eq_of_ofPrefix_leBytes_eq (small branch index)
    (small other otherIndex) (by decide) eq
  have first := bound branch
  have second := bound other
  have codes : branch.code = other.code := by omega
  have branches : branch = other := by cases branch <;> cases other <;> first | rfl | cases codes
  rw [ForkNode.mk.injEq, Fin.ext_iff]
  exact ⟨branches, by omega⟩

end ForkNode

def forkTree : QuietTree ForkNode where
  root := ⟨.trunk, 0⟩
  parent := ForkNode.parent
  height := ForkNode.height
  height_root := rfl
  height_parent _ := ForkNode.height_parent
  hash := ForkNode.hash
  hash_injective := ForkNode.hash_injective
  height_lt node := by
    obtain ⟨branch, index⟩ := node
    cases branch <;> simp only [ForkNode.height, ForkBranch.start] <;> omega

def forkRelations : DagRelations ForkNode where
  parents node := if node = forkTree.root then [] else [node.parent]
  isDagAncestorOf lower node := lower ∈ forkTree.chain node
  blueWork := ForkNode.blueWork
  filteringBlueWork _ := 0
  rank := ForkNode.height
  rank_parent node parent member := by
    split at member
    · cases member
    · next notRoot =>
      rw [mem_singleton.mp member, ForkNode.height_parent notRoot]
      exact Nat.lt_succ_self _

namespace ForkNode

variable {branch : ForkBranch}

theorem mem_chain_of_le {lower upper : Fin 432000} (below : lower ≤ upper) :
    (⟨branch, lower⟩ : ForkNode) ∈ forkTree.chain ⟨branch, upper⟩ := by
  obtain ⟨upper, bound⟩ := upper
  induction upper with
  | zero =>
    have eq : lower = ⟨0, bound⟩ := Fin.le_antisymm below (Fin.zero_le _)
    rw [eq]
    exact forkTree.self_mem_chain _
  | succ upper ih =>
    by_cases eq : lower = ⟨upper + 1, bound⟩
    · rw [eq]
      exact forkTree.self_mem_chain _
    · have strict := lt_of_le_of_ne below eq
      refine mem_chain_of_parent ?_ (ih (Nat.lt_of_succ_lt bound) (Nat.le_of_lt_succ strict))
      exact fun isRoot => absurd (congrArg (fun node => node.index.val)
        isRoot) (Nat.succ_ne_zero upper)

theorem fork_mem_chain (notTrunk : branch ≠ .trunk) (index : Fin 432000) :
    (⟨branch, 0⟩ : ForkNode).parent ∈ forkTree.chain ⟨branch, index⟩ := by
  refine mem_chain_trans ?_ (mem_chain_of_le (Fin.zero_le index))
  refine mem_chain_of_parent ?_ (forkTree.self_mem_chain _)
  exact fun isRoot => notTrunk (congrArg ForkNode.branch isRoot)

theorem mem_chain_cases {lower upper : ForkNode} (mem : lower ∈ forkTree.chain upper) :
    lower.branch = upper.branch ∨ lower.branch = .trunk ∧ lower.height < upper.branch.start := by
  induction upper, mem using climb with
  | start => exact .inl rfl
  | upwards upper ne _ below onTrunk =>
    have level : lower.height ≤ upper.parent.height := height_le_of_mem_chain below
    obtain ⟨branch, ⟨index, bound⟩⟩ := upper
    cases index with
    | succ index => exact onTrunk
    | zero =>
      cases branch with
      | trunk => exact onTrunk
      | light | heavy | late =>
        refine .inr ⟨?_, Nat.lt_succ_of_le level⟩
        exact onTrunk.elim id And.left

end ForkNode

theorem forkTree_height_lightTip : forkTree.height ForkNode.lightTip = 432101 := rfl

theorem forkTree_trunk_mem {branch : ForkBranch} (forks : branch = .light ∨ branch = .heavy)
    (index : Fin 432000) : (⟨.trunk, 101⟩ : ForkNode) ∈ forkTree.chain ⟨branch, index⟩ := by
  rcases forks with rfl | rfl
  · exact ForkNode.fork_mem_chain (by decide) index
  · exact ForkNode.fork_mem_chain (by decide) index

theorem forkTree_finalityPoint : (quietManager forkTree 36000 432000).virtualFinalityPoint
    ForkNode.lightTip (forkTree.height ForkNode.lightTip + 1)
    forkTree.root = ⟨.trunk, 101⟩ := by
  have onChain := (quietDepths_recorded forkTree 36000 432000).virtualFinalityPoint_mem
      (forkTree.root_mem_chain ForkNode.lightTip) (forkTree.height ForkNode.lightTip + 1)
  have high : 432000 ≤ forkTree.height ForkNode.lightTip := by
    rw [forkTree_height_lightTip]
    omega
  have pos : 0 < 432000 := by omega
  have level : forkTree.height ((quietManager forkTree 36000
      432000).virtualFinalityPoint ForkNode.lightTip
        (forkTree.height ForkNode.lightTip + 1) forkTree.root) + 432000 =
      forkTree.height ForkNode.lightTip :=
    quietManager_finalityPoint_height pos high
  have total := level.trans forkTree_height_lightTip
  have trunk : forkTree.height ⟨.trunk, 101⟩ = 101 := rfl
  have eq : forkTree.height ((quietManager forkTree 36000
      432000).virtualFinalityPoint ForkNode.lightTip
        (forkTree.height ForkNode.lightTip + 1) forkTree.root) =
      forkTree.height ⟨.trunk, 101⟩ := by
    rw [trunk]
    exact Nat.eq_sub_of_add_eq total
  exact eq_of_height_eq onChain (forkTree_trunk_mem (.inl rfl) 431999) eq

theorem forkTree_finalizedTarget :
    finalizedTarget (quietDag forkTree) (⟨.trunk, 101⟩ : ForkNode) = some ⟨.trunk, 1⟩ := by
  have height : forkTree.height ⟨.trunk, 101⟩ = 101 := rfl
  have long : safetyMargin < (forkTree.chain (⟨.trunk, 101⟩ : ForkNode)).length := by
    rw [length_chain, height]
    decide
  have got : (forkTree.chain (⟨.trunk, 101⟩ : ForkNode))[safetyMargin]? =
      some ((forkTree.chain ⟨.trunk, 101⟩).get ⟨safetyMargin, long⟩) :=
    getElem?_eq_getElem long
  have level := height_of_getElem?_chain got
  have second : (⟨.trunk, 1⟩ : ForkNode) ∈ forkTree.chain (⟨.trunk, 101⟩ : ForkNode) :=
    ForkNode.mem_chain_of_le (by decide)
  have lowHeight : forkTree.height ⟨.trunk, 1⟩ = 1 := rfl
  have eq : (forkTree.chain (⟨.trunk, 101⟩ : ForkNode)).get
      ⟨safetyMargin, long⟩ = ⟨.trunk, 1⟩ := by
    refine eq_of_height_eq (mem_of_getElem? got) second ?_
    have margin : safetyMargin = 100 := rfl
    omega
  rw [finalizedTarget]
  refine (if_neg ?_).trans (got.trans (congrArg some eq))
  change ¬ forkTree.height ⟨.trunk, 101⟩ ≤ safetyMargin
  rw [height]
  decide

variable {node : ForkNode}

theorem forkRelations_related {lower : ForkNode} (mem : lower ∈ forkTree.chain node) :
    forkRelations.isDagAncestorOf lower node = true :=
  decide_eq_true mem

theorem popMax_cons_of_lighter {first largest : ForkNode} {heap others : List ForkNode}
    (popped : popMax ((quietDag forkTree).sortable forkRelations) heap = some (largest, others))
    (lighter : first.blueWork < largest.blueWork) :
    popMax ((quietDag forkTree).sortable forkRelations) (first :: heap) =
      some (largest, first :: others) := by
  have below : (quietDag forkTree).sortable forkRelations first <
      (quietDag forkTree).sortable forkRelations largest :=
    SortableBlock.lt_of_blueWork_lt lighter
  rw [popMax, popped]
  exact if_neg (lt_asymm below)

theorem ForkNode.low_of_mem_late
    (mem : node ∈ forkTree.chain lightTip ∨ node ∈ forkTree.chain heavyTip)
    (onLate : node ∈ forkTree.chain lateTip) : node.branch = .trunk ∧ node.height < 2 := by
  rcases mem_chain_cases onLate with isLate | onTrunk
  · rcases mem with onLight | onHeavy
    · rcases mem_chain_cases onLight with eq | ⟨trunk, -⟩
      · cases isLate.symm.trans eq
      · cases isLate.symm.trans trunk
    · rcases mem_chain_cases onHeavy with eq | ⟨trunk, -⟩
      · cases isLate.symm.trans eq
      · cases isLate.symm.trans trunk
  · exact onTrunk

theorem forkTree_second {candidate : ForkNode} {tips rest : List ForkNode}
    (forks : candidate.branch = .light ∨ candidate.branch = .heavy)
    (related : ∀ tip ∈ tips, (⟨.trunk, 101⟩ : ForkNode) ∈ forkTree.chain tip)
    (popped : popMax ((quietDag forkTree).sortable forkRelations) tips = some (candidate, rest)) :
    ∃ state, PrunedRun fingerprint (quietDag forkTree) forkRelations
        (quietManager forkTree 36000 432000)
        (quietDag forkTree).AboveDeleted state
        (forkTree.height candidate + 1) [⟨.trunk, 1⟩] ∧
      state.Quiet forkTree ∧ state.virtualState.sink = candidate ∧
      (∀ node, state.stores.Valid node ↔ node ∈ forkTree.chain ForkNode.lightTip ∨
        node ∈ forkTree.chain candidate) ∧
      state.stores.utxoMultisets ⟨.trunk, 1⟩ = none := by
  have filtered : tips.filter (forkRelations.isDagAncestorOf ⟨.trunk, 101⟩) = tips :=
    filter_eq_self.mpr fun tip mem => forkRelations_related (related tip mem)
  have rooted := forkRelations_related (forkTree.root_mem_chain ForkNode.lightTip)
  have taken : popMax ((quietDag forkTree).sortable forkRelations)
      (tips.filter (forkRelations.isDagAncestorOf ⟨.trunk, 101⟩)) = some (candidate, rest) := by
    rw [filtered]
    exact popped
  exact quietDag_resolves_second rooted (by omega) forkTree_finalityPoint taken
    (forkTree_trunk_mem forks candidate.index) forkTree_finalizedTarget

theorem PrunedRun.unconditional {elementHash : List UInt8 → Hash} {external : External}
    {params : Params} {Node : Type} [DecidableEq Node] {dag : BlockDag external params Node}
    {relations : DagRelations Node} {manager : BlockDepthManager Node}
    {condition : Node → List Node → Prop} {state : ProcessorState Node} {blueScore : Nat}
    {deleted : List Node}
    (run : PrunedRun elementHash dag relations manager condition state blueScore deleted) :
    PrunedRun elementHash dag relations manager (fun _ _ => True) state blueScore deleted := by
  induction run with
  | genesis => exact .genesis
  | resolve _ computed _ resolved higher ih => exact .resolve ih computed trivial resolved higher

theorem quietParams_countsFitWords : quietParams.CountsFitWords := ⟨by decide, by decide⟩

/-- A node that stays on the light branch deletes a multiset and goes on. -/
theorem forkTree_staysOnLight : ∃ state, state.virtualState.sink = ForkNode.lightTip ∧
    state.stores.utxoMultisets ⟨.trunk, 1⟩ = none ∧
    ∀ node, resolveVirtual fingerprint (quietDag forkTree) forkRelations
        state (quietResolution forkTree [ForkNode.lightTip] ⟨.trunk, 101⟩) ≠
      .error (.relative (.missingMultiset node)) := by
  have popped : popMax ((quietDag forkTree).sortable forkRelations)
      [ForkNode.lightTip] = some (ForkNode.lightTip, []) := rfl
  have related : ∀ tip ∈ [ForkNode.lightTip], (⟨.trunk, 101⟩ : ForkNode) ∈ forkTree.chain tip := by
    exact forall_mem_singleton.mpr (forkTree_trunk_mem (.inl rfl) _)
  obtain ⟨state, run, -, sink, -, missing⟩ := forkTree_second (.inl rfl) related popped
  refine ⟨state, sink, missing, ?_⟩
  refine deletedMultisets_never_read fingerprint quietExternal quietParams
    quietParams_countsFitWords ForkNode (quietDag forkTree) (quietDag_collisionFree forkTree)
    forkRelations 36000 432000 (quietDepths forkTree 36000 432000)
    (quietDepths_recorded forkTree 36000 432000) state (forkTree.height ForkNode.lightTip + 1)
    [⟨.trunk, 1⟩] run _ ⟨forkTree.root, (quietDag forkTree).root_mem_chain _, ?_⟩ ?_
  · rw [sink]
    exact forkTree_finalityPoint
  · intro target mem onChain
    rw [mem_singleton.mp mem] at onChain
    have level := height_le_of_mem_chain onChain
    exact absurd level (by decide)

/-- The heavy branch lowers the blue score of virtual below the finality depth, so
that the finality point falls back to the genesis. The late branch respects it
and is heavier, but the multiset on which its first block is verified was
deleted. -/
theorem forkTree_reads_deleted : ∃ state, PrunedRun fingerprint (quietDag forkTree) forkRelations
      (quietManager forkTree 36000 432000) (fun _ _ => True) state
      (forkTree.height ForkNode.heavyTip + 1) [⟨.trunk, 1⟩] ∧
    state.HasFinalityPoint (quietDag forkTree) (quietManager forkTree 36000 432000)
      (forkTree.height ForkNode.heavyTip + 1) forkTree.root ∧
    resolveVirtual fingerprint (quietDag forkTree) forkRelations state (quietResolution forkTree
        [ForkNode.lightTip, ForkNode.heavyTip, ForkNode.lateTip] forkTree.root) =
      .error (.relative (.missingMultiset ⟨.trunk, 1⟩)) := by
  have lighter : ForkNode.lightTip.blueWork < ForkNode.heavyTip.blueWork := by decide
  have heavier : ForkNode.heavyTip.blueWork < ForkNode.lateTip.blueWork := by decide
  have one (tip : ForkNode) : popMax ((quietDag forkTree).sortable
      forkRelations) [tip] = some (tip, []) := rfl
  have two := popMax_cons_of_lighter (one ForkNode.heavyTip) lighter
  have related : ∀ tip ∈ [ForkNode.lightTip, ForkNode.heavyTip],
      (⟨.trunk, 101⟩ : ForkNode) ∈ forkTree.chain tip := by
    intro tip mem
    rcases mem_pair.mp mem with rfl | rfl
    · exact forkTree_trunk_mem (.inl rfl) _
    · exact forkTree_trunk_mem (.inr rfl) _
  obtain ⟨state, run, quiet, sink, valid, missing⟩ := forkTree_second (.inr rfl) related two
  have three := popMax_cons_of_lighter (popMax_cons_of_lighter (one ForkNode.lateTip) heavier)
    (lighter.trans heavier)
  have filtered : [ForkNode.lightTip, ForkNode.heavyTip,
      ForkNode.lateTip].filter (forkRelations.isDagAncestorOf forkTree.root) =
      [ForkNode.lightTip, ForkNode.heavyTip, ForkNode.lateTip] :=
    filter_eq_self.mpr fun tip _ => forkRelations_related (forkTree.root_mem_chain tip)
  rw [← filtered] at three
  have low : forkTree.height ForkNode.heavyTip + 1 < 432000 := by
    have height : forkTree.height ForkNode.heavyTip = 431901 := rfl
    omega
  refine ⟨state, run.unconditional, ⟨forkTree.root, (quietDag forkTree).root_mem_chain _,
    (quietManager_finalityPoint _ _).trans (if_pos low)⟩, ?_⟩
  have onTrunk : (⟨.trunk, 1⟩ : ForkNode) ∈ forkTree.chain ForkNode.heavyTip :=
    mem_chain_trans (ForkNode.mem_chain_of_le (by decide)) (forkTree_trunk_mem (.inr rfl) _)
  refine quiet.resolveVirtual_missing fingerprint three (forkTree.root_mem_chain _) (sink ▸ onTrunk)
    (ForkNode.fork_mem_chain (by decide) _) ?_ (by decide) missing ?_
  · intro node onSink onLate
    rw [sink] at onSink
    exact Nat.le_of_lt_succ (ForkNode.low_of_mem_late (.inr onSink) onLate).2
  · intro node onLate first
    by_contra kept
    have isValid := (valid node).mp (Option.isSome_iff_ne_none.mpr kept)
    obtain ⟨-, low⟩ := ForkNode.low_of_mem_late isValid onLate
    by_cases isRoot : node = forkTree.root
    · rw [isRoot] at first
      exact absurd first (by decide)
    · have level := forkTree.height_parent node isRoot
      rw [first] at level
      have second : forkTree.height ⟨.trunk, 1⟩ = 1 := rfl
      have lower : forkTree.height node < 2 := low
      omega

end Sophis
