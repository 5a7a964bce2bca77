import Sophis.BlockDag

namespace Sophis

open ExceptLoop List MachineWord Option ParallelReduce ParentTree Tree

/-!
# Moving between chains

`calculate_utxo_state_relatively` of `virtual_processor/processor.rs`: from the
difference of one chain block to virtual it computes that of another one. It
walks down to the block where the two chains split, undoing stored differences,
and up the other chain, where it reuses, verifies or disqualifies the blocks it
meets.
-/

/-- What the verification of a block depends on besides the unspent outputs:
the environment of its transactions, the cuts of the parallel hashing, and
whether the header has the calculated commitments and pruning point. -/
structure Judging where
  environment : ValidationEnvironment
  cuts : Nat → Splitting
  utxoCommitmentMatches : MuHash → Bool
  acceptedIdMerkleRootMatches : UtxoProcessingContext → Bool
  pruningPointMatches : Bool

/-- Why a chain block is not verified. -/
inductive ChainBlockError where
  | badUtxoCommitment
  | badAcceptedIdMerkleRoot
  | wrongHeaderPruningPoint
  | rule (error : RuleError)
  deriving DecidableEq

def asChainBlockError : Failure RuleError → Failure ChainBlockError
  | .raised error => .raised (.rule error)
  | .panicked => .panicked

variable (elementHash : List UInt8 → Hash) {external : External}
  {params : Params} {Node : Type} (dag : BlockDag external params Node)

/-- The checks of `verify_expected_utxo_state` in their order: the header, the
coinbase, the pruning point, and, once the coinbase is checked, the rest. -/
def verifyChainBlock (judging : Judging) (context : UtxoProcessingContext)
    (multiset : MuHash) (view : UtxoView) (node : Node) :
    Except (Failure ChainBlockError) Unit := do
  reject (judging.utxoCommitmentMatches multiset = false) (.raised .badUtxoCommitment)
  reject (judging.acceptedIdMerkleRootMatches context = false) (.raised .badAcceptedIdMerkleRoot)
  let coinbase ← orPanic (dag.block node).coinbase?
  (verifyCoinbaseTransaction external.toHashers params coinbase (dag.block node).header.daaScore
    (dag.ghostdag node) context.reward (dag.nonDaa node)).mapError asChainBlockError
  reject (judging.pruningPointMatches = false) (.raised .wrongHeaderPruningPoint)
  (verifyExpectedUtxoState external.toHashers params context view (dag.block node)
    (dag.ghostdag node) (dag.nonDaa node)).mapError asChainBlockError

/-- Calculates and verifies the state of a block on a view of its selected
parent. -/
def judgeChainBlock (judging : Judging) (view : UtxoView)
    (selectedParent current : Node) (multiset : MuHash) :
    Except (Failure ChainBlockError) (UtxoProcessingContext × MuHash) := do
  let (context, multiset) ← orPanic (calculateUtxoStateWithMuhash elementHash external.toHashers
    params judging.environment view (dag.block current).header.daaScore (dag.block selectedParent)
    (dag.blocks (dag.mergeset current)) judging.cuts multiset)
  verifyChainBlock dag judging context multiset view current
  return (context, multiset)

/-- What can abort the judgement of a block: merging a block of its mergeset,
validating a transaction of its own, or the sum of the rewards it pays. -/
inductive BlockDag.JudgementAborts (node : Node) : Prop where
  | merging {other : Node}
    (merged : other ∈ dag.parent node :: dag.mergeset node)
    (aborts : MergeAborts external.toHashers params
      (dag.block node).header.daaScore (dag.block other))
  | validation {environment : ValidationEnvironment} {view : UtxoView}
    {tx : Transaction}
    (member : tx ∈ (dag.block node).transactions.tail)
    (panicked : validateTransactionInUtxoContext external.toHashers params
      environment tx view (dag.block node).header.daaScore .full = .error .panicked)
  | rewards {environment : ValidationEnvironment} {view : UtxoView}
    {context : UtxoProcessingContext} {reward : Hash → BlockRewardData}
    (calculated : calculateUtxoState external.toHashers params environment view
      (dag.block node).header.daaScore (dag.block (dag.parent node))
      (dag.blocks (dag.mergeset node)) = some context)
    (found : ∀ block ∈ (dag.ghostdag node).mergesetBlues ++ (dag.ghostdag node).mergesetReds,
      context.reward block = some (reward block))
    (overflow : 2 ^ 64 ≤ (((dag.ghostdag node).mergesetBlues ++
      (dag.ghostdag node).mergesetReds).map fun block => exactReward (reward block)).sum)

variable {elementHash : List UInt8 → Hash} {external : External} {params : Params} {Node : Type}
  {dag : BlockDag external params Node}

variable {node : Node} {environment : ValidationEnvironment} {view : UtxoView}
  {context : UtxoProcessingContext} {judging : Judging}

theorem asChainBlockError_eq_panicked {failure : Failure RuleError} :
    asChainBlockError failure = .panicked ↔ failure = .panicked := by
  cases failure <;> simp [asChainBlockError]

section

variable (notRoot : node ≠ dag.root)
  (calculated : calculateUtxoState external.toHashers params environment view
    (dag.block node).header.daaScore (dag.block (dag.parent node))
    (dag.blocks (dag.mergeset node)) = some context)
include notRoot calculated

theorem BlockDag.verifyCoinbase_aborts {coinbase : Transaction}
    (first : (dag.block node).coinbase? = some coinbase)
    (panicked : verifyCoinbaseTransaction external.toHashers params coinbase
      (dag.block node).header.daaScore (dag.ghostdag node) context.reward
      (dag.nonDaa node) = .error .panicked) : dag.JudgementAborts node := by
  obtain ⟨_, data, alsoFirst, parsed⟩ := dag.readable node
  cases first.symm.trans alsoFirst
  have got : ∀ block ∈ (dag.ghostdag node).mergesetBlues ++ (dag.ghostdag node).mergesetReds,
      context.reward block = some ((context.reward block).getD ⟨0, 0, ⟨0, []⟩⟩) := by
    intro block coloured
    obtain ⟨merged, isMerged, rfl⟩ := dag.coloured_merged node notRoot block coloured
    have listed : dag.block merged ∈ (dag.parent node :: dag.mergeset node).map dag.block :=
      List.mem_map_of_mem isMerged
    obtain ⟨entry, isEntry⟩ := isSome_iff_exists.mp
      (reward_isSome_of_calculateUtxoState calculated listed)
    rw [isEntry, getD_some]
  exact .rewards calculated got (verifyCoinbaseTransaction_aborts parsed got panicked)

theorem BlockDag.verifyChainBlock_aborts {multiset : MuHash}
    (panicked : verifyChainBlock dag judging context multiset view node = .error .panicked) :
    dag.JudgementAborts node := by
  obtain ⟨coinbase, -, first, -⟩ := dag.readable node
  simp only [verifyChainBlock, verifyExpectedUtxoState, first, bind_eq_error, reject_eq_error,
    mapError_eq_error, orPanic_eq_error, orPanic_eq_ok, asChainBlockError_eq_panicked, reduceCtorEq,
    and_false, and_true, false_or, or_false, exists_const, exists_eq_right, Option.some.injEq,
    exists_eq_left'] at panicked
  obtain ⟨-, -, -, -, coinbaseAborts | ⟨-, -, -, -, again⟩⟩ := panicked
  · exact dag.verifyCoinbase_aborts notRoot calculated first coinbaseAborts
  · rcases again with coinbaseAborts | ⟨-, -, aborted⟩
    · exact dag.verifyCoinbase_aborts notRoot calculated first coinbaseAborts
    · obtain ⟨tx, mem, panics⟩ := validateTransactionsInParallel_eq_none aborted
      exact .validation mem panics

end

theorem BlockDag.Reaches.judgeChainBlock_aborts {utxo : UtxoSet}
    (reaches : dag.Reaches (dag.parent node) utxo) (fits : params.CountsFitWords)
    (collisionFree : dag.CollisionFree) (notRoot : node ≠ dag.root)
    (panicked : judgeChainBlock elementHash dag judging utxo.lookup (dag.parent node)
      node (commitment elementHash utxo) = .error .panicked) : dag.JudgementAborts node := by
  simp only [judgeChainBlock, bind_eq_error, orPanic_eq_error, orPanic_eq_ok, and_true] at panicked
  rcases panicked with aborted | ⟨⟨context, multiset⟩, withMuhash, failed⟩
  · have missing : calculateUtxoState external.toHashers params
        judging.environment utxo.lookup (dag.block node).header.daaScore
        (dag.block (dag.parent node)) (dag.blocks (dag.mergeset node)) = none := by
      by_contra calculates
      obtain ⟨context, calculated⟩ := ne_none_iff_exists'.mp calculates
      have exactly : CalculationExact elementHash dag _ judging.environment _ _ _ context :=
        reaches.calculation fits collisionFree (dag.root_not_merged node) calculated
      cases aborted.symm.trans (exactly.commits judging.cuts)
    obtain ⟨other, merged, aborts⟩ := reaches.calculation_aborts fits
      collisionFree (dag.root_not_merged node) missing
    exact .merging merged aborts
  · have calculated := calculateUtxoState_of_withMuhash withMuhash
    rcases failed with failed | ⟨-, -, ran⟩
    · exact dag.verifyChainBlock_aborts notRoot calculated failed
    · cases ran

section

/-- The reasons for which the processor aborts. The last one stands for the
calculation and verification of a block aborting themselves. -/
inductive ReorgPanic (Node : Type) where
  | missingStatus (node : Node)
  | missingDiff (node : Node)
  | missingMultiset (node : Node)
  | utxoAlgebra (error : UtxoAlgebraError)
  | noSplitPoint
  | calculation (node : Node)

/-- A difference on top of another one, which must be possible. -/
def accumulateDiff {Node : Type} (diff other : UtxoDiff) : Except (ReorgPanic Node) UtxoDiff :=
  (diff.withDiffInPlace other).mapError .utxoAlgebra

variable (elementHash : List UInt8 → Hash) {external : External}
  {params : Params} {Node : Type} [DecidableEq Node]
  (dag : BlockDag external params Node)

/-- Walks down a chain to the first block that is also on the chain of the
target. -/
def walkDown (stores : UtxoStores Node) (target : Node) :
    UtxoDiff → List Node → Except (ReorgPanic Node) (Node × UtxoDiff)
  | _, [] => .error .noSplitPoint
  | diff, current :: rest =>
    if current ∈ dag.chain target then
      .ok (current, diff)
    else do
      let mergesetDiff ← unwrapOr (.missingDiff current) (stores.utxoDiffs current)
      let diff ← accumulateDiff diff mergesetDiff.asReversed
      walkDown stores target diff rest

/-- The most recent valid block on the way up with its difference to
virtual. -/
structure Progress (Node : Type) where
  diffPoint : Node
  diff : UtxoDiff
  stores : UtxoStores Node

variable (judging : Node → Judging) (virtualUtxo : UtxoSet)

def disqualify (progress : Progress Node) (current : Node) :
    Except (ReorgPanic Node) (Progress Node) := do
  let status ← unwrapOr (.missingStatus current) (progress.stores.statuses current)
  if status = .disqualifiedFromChain then
    return progress
  else
    return { progress with
      stores := progress.stores.setStatus current .disqualifiedFromChain }

def verifyNext (progress : Progress Node) (selectedParent current : Node) :
    Except (ReorgPanic Node) (Progress Node) := do
  let multiset ← unwrapOr (.missingMultiset selectedParent)
    (progress.stores.utxoMultisets selectedParent)
  match judgeChainBlock elementHash dag (judging current) (progress.diff.compose virtualUtxo.lookup)
    selectedParent current multiset with
  | .error .panicked => .error (.calculation current)
  | .error (.raised _) =>
    return { progress with
      stores := progress.stores.setStatus current .disqualifiedFromChain }
  | .ok (context, multiset) => do
    let diff ← accumulateDiff progress.diff context.mergesetDiff
    return {
      diffPoint := current
      diff
      stores := progress.stores.commitUtxoState current context.mergesetDiff multiset }

def walkUpStep (progress : Progress Node) (pair : Node × Node) :
    Except (ReorgPanic Node) (Progress Node) :=
  let (selectedParent, current) := pair
  if selectedParent ≠ progress.diffPoint then
    -- The selected parent is disqualified, and so is everything above it.
    disqualify progress current
  else
    match progress.stores.utxoDiffs current with
    | some mergesetDiff => do
      let diff ← accumulateDiff progress.diff mergesetDiff
      return { progress with diffPoint := current, diff }
    | none => do
      let status ← unwrapOr (.missingStatus current) (progress.stores.statuses current)
      if status = .disqualifiedFromChain then
        return progress
      else
        verifyNext elementHash dag judging virtualUtxo progress selectedParent current

/-- Computes the difference of `target` to virtual from that of `source`. -/
def calculateUtxoStateRelatively (stores : UtxoStores Node)
    (diff : UtxoDiff) (source target : Node) :
    Except (ReorgPanic Node) (Progress Node) := do
  let status ← unwrapOr (.missingStatus target) (stores.statuses target)
  if status = .disqualifiedFromChain then
    return ⟨source, diff, stores⟩
  else do
    let (splitPoint, diff) ← walkDown dag stores target diff (dag.chain source)
    (Tree.windows (dag.path splitPoint target)).foldlM
      (walkUpStep elementHash dag judging virtualUtxo) ⟨splitPoint, diff, stores⟩

end

variable {stores : UtxoStores Node} {floor : Node} {virtualUtxo : UtxoSet} {diff : UtxoDiff}

/-- Exact differences between sets of the DAG are accumulated exactly. -/
theorem BlockDag.CollisionFree.accumulateDiff (collisionFree : dag.CollisionFree)
    (fits : params.CountsFitWords) {mid target : UtxoSet}
    (virtualCreated : CreatedFrom external.toHashers dag.Known virtualUtxo)
    (middleCreated : CreatedFrom external.toHashers dag.Known mid)
    (targetCreated : CreatedFrom external.toHashers dag.Known target) {other : UtxoDiff}
    (before : diff.Between virtualUtxo mid) (after : other.Between mid target) :
    ∃ composed, (Sophis.accumulateDiff diff other :
        Except (ReorgPanic Node) UtxoDiff) = .ok composed ∧
      composed.Between virtualUtxo target := by
  have determined : EntriesDetermined [virtualUtxo, mid, target] := by
    refine collisionFree.identifiable.entriesDetermined fits ?_
    simp only [forall_mem_cons]
    exact ⟨virtualCreated, middleCreated, targetCreated, forall_mem_nil _⟩
  obtain ⟨composed, succeeds, exactly⟩ := before.withDiffInPlace after determined
  refine ⟨composed, ?_, exactly⟩
  rw [Sophis.accumulateDiff, succeeds]
  rfl

/-- A valid block from the floor on with exactly its difference to
virtual. -/
structure Located (elementHash : List UInt8 → Hash)
    (dag : BlockDag external params Node) (floor : Node)
    (virtualUtxo : UtxoSet) (progress : Progress Node) : Prop where
  consistent : progress.stores.Consistent elementHash dag floor
  valid : progress.stores.Valid progress.diffPoint
  aboveFloor : floor ∈ dag.chain progress.diffPoint
  between : progress.diff.Between virtualUtxo (dag.utxoOf progress.stores progress.diffPoint)

/-- Where the way up stands after a block: at the last valid block, which is
the block itself if that has a difference. -/
structure Ascended (elementHash : List UInt8 → Hash)
    (dag : BlockDag external params Node) (floor : Node)
    (virtualUtxo : UtxoSet) (last : Node) (progress : Progress Node) : Prop
    extends Located elementHash dag floor virtualUtxo progress where
  onChain : progress.diffPoint ∈ dag.chain last
  topmost : progress.diffPoint ≠ last → progress.stores.utxoDiffs last = none

variable [DecidableEq Node] {source target node : Node} {progress : Progress Node}

omit [DecidableEq Node] in
theorem Located.ascended (located : Located elementHash dag floor virtualUtxo progress) :
    Ascended elementHash dag floor virtualUtxo progress.diffPoint progress :=
  ⟨located, dag.self_mem_chain _, fun differs => absurd rfl differs⟩

omit [DecidableEq Node] in
theorem UtxoStores.Consistent.judged (consistent : stores.Consistent elementHash dag floor)
    (fits : params.CountsFitWords) (collisionFree : dag.CollisionFree)
    (parentValid : stores.Valid (dag.parent node)) {judging : Judging}
    {context : UtxoProcessingContext} {multiset : MuHash}
    (passed : judgeChainBlock elementHash dag judging
        (dag.utxoOf stores (dag.parent node)).lookup (dag.parent node) node
        (commitment elementHash (dag.utxoOf stores (dag.parent node))) =
      .ok (context, multiset)) :
    dag.Verified (dag.utxoOf stores (dag.parent node)) node context.mergesetDiff ∧
      multiset = commitment elementHash ((dag.utxoOf stores (dag.parent node)).withDiff
        context.mergesetDiff) := by
  simp only [judgeChainBlock, bind_eq_ok, orPanic_eq_ok, check_eq_ok] at passed
  obtain ⟨⟨computed, hashed⟩, withMuhash, checked, same⟩ := passed
  cases same
  have calculated := calculateUtxoState_of_withMuhash withMuhash
  have exactly : CalculationExact elementHash dag _ judging.environment _ _ _ computed :=
    (consistent.reaches parentValid).calculation fits collisionFree
      (dag.root_not_merged node) calculated
  have committed := withMuhash.symm.trans (exactly.commits judging.cuts)
  simp only [verifyChainBlock, bind_eq_ok, check_eq_ok, orPanic_eq_ok,
    reject_eq_ok, mapError_eq_ok] at checked
  obtain ⟨-, -, -, -, -, -, verified⟩ := checked
  refine ⟨⟨judging.environment, computed, calculated, verified, rfl⟩, ?_⟩
  rw [Option.some.injEq, Prod.mk.injEq] at committed
  exact committed.2

section

variable (ascended : Ascended elementHash dag floor virtualUtxo (dag.parent node) progress)
  (notRoot : node ≠ dag.root)
include ascended

omit [DecidableEq Node] in
theorem Ascended.at_parent (atParent : dag.parent node = progress.diffPoint) :
    let utxo := dag.utxoOf progress.stores (dag.parent node)
    progress.stores.Valid (dag.parent node) ∧
      progress.stores.utxoMultisets (dag.parent node) = some (commitment elementHash utxo) ∧
      progress.diff.Between virtualUtxo utxo ∧
      progress.diff.compose virtualUtxo.lookup = fun outpoint => utxo.lookup outpoint := by
  intro utxo
  have parentValid : progress.stores.Valid (dag.parent node) := atParent ▸ ascended.valid
  have between : progress.diff.Between virtualUtxo utxo := by
    simpa only [utxo, atParent] using ascended.between
  refine ⟨parentValid, ascended.consistent.multiset_eq _ (atParent ▸ ascended.aboveFloor)
    parentValid, between, funext fun outpoint => ?_⟩
  rw [← UtxoSet.lookup_withDiff, between.withDiff_eq]

include notRoot

section

variable (notValid : progress.stores.utxoDiffs node = none)
include notValid

theorem Ascended.skip : Ascended elementHash dag floor virtualUtxo node progress ∧
    Ascended elementHash dag floor virtualUtxo node { progress with
      stores := progress.stores.setStatus node .disqualifiedFromChain } := by
  have onChain := mem_chain_of_parent notRoot ascended.onChain
  exact ⟨{
    consistent := ascended.consistent
    valid := ascended.valid
    aboveFloor := ascended.aboveFloor
    onChain
    between := ascended.between
    topmost := fun _ => notValid
  }, {
    consistent := ascended.consistent.setStatus notValid
    valid := ascended.valid
    aboveFloor := ascended.aboveFloor
    onChain
    between := ascended.between
    topmost := fun _ => notValid
  }⟩

theorem Ascended.disqualify : ∃ next, Sophis.disqualify progress node = .ok next ∧
    Ascended elementHash dag floor virtualUtxo node next := by
  obtain ⟨status, known⟩ := isSome_iff_exists.mp (ascended.consistent.status_known node)
  obtain ⟨same, set⟩ := ascended.skip notRoot notValid
  rw [Sophis.disqualify, unwrapOr_eq_ok.mpr known, ok_bind]
  by_cases already : status = .disqualifiedFromChain
  · rw [if_pos already]
    exact ⟨progress, rfl, same⟩
  · rw [if_neg already]
    exact ⟨_, rfl, set⟩

end

variable (fits : params.CountsFitWords) (collisionFree : dag.CollisionFree)
  (virtualCreated : CreatedFrom external.toHashers dag.Known virtualUtxo)
include fits collisionFree virtualCreated

omit [DecidableEq Node] in
theorem Ascended.reuse (atParent : dag.parent node = progress.diffPoint) {mergesetDiff : UtxoDiff}
    (stored : progress.stores.utxoDiffs node = some mergesetDiff) :
    ∃ diff, (accumulateDiff progress.diff mergesetDiff :
        Except (ReorgPanic Node) UtxoDiff) = .ok diff ∧
      Ascended elementHash dag floor virtualUtxo node
        { progress with diffPoint := node, diff } := by
  have valid : progress.stores.Valid node := isSome_of_eq_some stored
  have consistent := ascended.consistent
  have between := ascended.between
  rw [← atParent] at between
  obtain ⟨diff, accumulated, exactly⟩ := collisionFree.accumulateDiff fits virtualCreated
      (consistent.createdFrom fits collisionFree (consistent.parent_valid node notRoot valid))
      (consistent.createdFrom fits collisionFree valid) between
      (consistent.stored_between fits collisionFree notRoot stored)
  exact ⟨diff, accumulated, {
    consistent
    valid
    aboveFloor := mem_chain_of_parent notRoot (atParent ▸ ascended.aboveFloor)
    onChain := dag.self_mem_chain node
    between := exactly
    topmost := fun differs => absurd rfl differs }⟩

theorem Ascended.verifyNext (atParent : dag.parent node = progress.diffPoint)
    (new : progress.stores.utxoDiffs node = none) (judging : Node → Judging) :
    (∃ next, Sophis.verifyNext elementHash dag judging virtualUtxo progress
          (dag.parent node) node = .ok next ∧
        Ascended elementHash dag floor virtualUtxo node next) ∨
      (Sophis.verifyNext elementHash dag judging virtualUtxo progress
          (dag.parent node) node = .error (.calculation node) ∧
        dag.JudgementAborts node) := by
  have consistent := ascended.consistent
  obtain ⟨parentValid, multiset, between, view⟩ := ascended.at_parent atParent
  rw [Sophis.verifyNext, unwrapOr_eq_ok.mpr multiset, ok_bind, view]
  cases judged : judgeChainBlock elementHash dag (judging node)
    (dag.utxoOf progress.stores (dag.parent node)).lookup (dag.parent node)
    node (commitment elementHash (dag.utxoOf progress.stores (dag.parent node))) with
  | error failure =>
    cases failure with
    | panicked =>
      exact .inr ⟨rfl, (consistent.reaches parentValid).judgeChainBlock_aborts fits
        collisionFree notRoot judged⟩
    | raised _ => exact .inl ⟨_, rfl, (ascended.skip notRoot new).2⟩
  | ok outcome =>
    obtain ⟨context, multiset⟩ := outcome
    obtain ⟨verified, commits⟩ := consistent.judged fits collisionFree parentValid judged
    obtain ⟨exactly, createsKnown⟩ := consistent.verified_exact fits
      collisionFree parentValid verified
    have parentCreated := consistent.createdFrom fits collisionFree parentValid
    obtain ⟨diff, accumulated, accumulatedExactly⟩ :=
      collisionFree.accumulateDiff fits virtualCreated parentCreated
        (createsKnown parentCreated) between exactly
    obtain ⟨committed, replayed⟩ := consistent.commit notRoot new parentValid verified commits
    refine .inl ⟨⟨node, diff, progress.stores.commitUtxoState node
      context.mergesetDiff multiset⟩, ?_, {
        consistent := committed
        valid := ?_
        aboveFloor := mem_chain_of_parent notRoot (atParent ▸ ascended.aboveFloor)
        onChain := dag.self_mem_chain node
        between := ?_
        topmost := fun differs => absurd rfl differs }⟩
    · simp only [accumulated, ok_bind]
      rfl
    · exact isSome_of_eq_some (Function.update_self _ _ _)
    · rw [replayed]
      exact accumulatedExactly

theorem Ascended.step (judging : Node → Judging) :
    (∃ next, walkUpStep elementHash dag judging virtualUtxo progress
          (dag.parent node, node) = .ok next ∧
        Ascended elementHash dag floor virtualUtxo node next) ∨
      (walkUpStep elementHash dag judging virtualUtxo progress
          (dag.parent node, node) = .error (.calculation node) ∧
        dag.JudgementAborts node) := by
  rw [walkUpStep]
  by_cases atParent : dag.parent node = progress.diffPoint
  · simp only [if_neg (not_not.mpr atParent)]
    cases stored : progress.stores.utxoDiffs node with
    | some mergesetDiff =>
      obtain ⟨diff, accumulated, next⟩ := ascended.reuse notRoot fits
        collisionFree virtualCreated atParent stored
      refine .inl ⟨_, ?_, next⟩
      simp only [accumulated, ok_bind]
      rfl
    | none =>
      obtain ⟨status, known⟩ := isSome_iff_exists.mp (ascended.consistent.status_known node)
      simp only [unwrapOr_eq_ok.mpr known, ok_bind]
      by_cases already : status = .disqualifiedFromChain
      · rw [if_pos already]
        exact .inl ⟨_, rfl, (ascended.skip notRoot stored).1⟩
      · rw [if_neg already]
        exact ascended.verifyNext notRoot fits collisionFree virtualCreated atParent stored judging
  · simp only [if_pos atParent]
    -- The selected parent has no difference, so the block has none.
    have parentNotValid := ascended.topmost (Ne.symm atParent)
    have notValid : progress.stores.utxoDiffs node = none := by
      by_contra stored
      have valid : progress.stores.Valid node := isSome_iff_ne_none.mpr stored
      have parentValid := ascended.consistent.parent_valid node notRoot valid
      rw [UtxoStores.Valid, parentNotValid] at parentValid
      cases parentValid
    exact .inl (ascended.disqualify notRoot notValid)

end

variable (fits : params.CountsFitWords) (collisionFree : dag.CollisionFree)
  (virtualCreated : CreatedFrom external.toHashers dag.Known virtualUtxo)
include fits collisionFree virtualCreated

/-- The way down undoes the stored differences up to the split point. -/
theorem UtxoStores.Consistent.walkDown (consistent : stores.Consistent elementHash dag floor)
    (valid : stores.Valid source) (between : diff.Between virtualUtxo (dag.utxoOf stores source))
    (aboveFloor : floor ∈ dag.chain source) (targetAbove : floor ∈ dag.chain target) :
    ∃ splitPoint splitDiff, Sophis.walkDown dag stores target diff (dag.chain source) =
        .ok (splitPoint, splitDiff) ∧
      splitPoint ∈ dag.chain target ∧
      Located elementHash dag floor virtualUtxo ⟨splitPoint, splitDiff, stores⟩ := by
  induction source using dag.ascend generalizing diff with
  | atRoot =>
    have shared := dag.root_mem_chain target
    refine ⟨dag.root, diff, ?_, shared, consistent, valid, aboveFloor, between⟩
    rw [dag.chain_root, Sophis.walkDown, if_pos shared]
  | upwards source notRoot ih =>
    rw [dag.chain_of_ne notRoot, Sophis.walkDown]
    by_cases shared : source ∈ dag.chain target
    · rw [if_pos shared]
      exact ⟨source, diff, rfl, shared, consistent, valid, aboveFloor, between⟩
    · obtain ⟨mergesetDiff, stored⟩ := isSome_iff_exists.mp valid
      have parentValid := consistent.parent_valid source notRoot valid
      obtain ⟨undone, accumulated, exactly⟩ := collisionFree.accumulateDiff fits virtualCreated
          (consistent.createdFrom fits collisionFree valid)
          (consistent.createdFrom fits collisionFree parentValid) between
          (consistent.stored_between fits collisionFree notRoot stored).asReversed
      rw [if_neg shared, unwrapOr_eq_ok.mpr stored, ok_bind, accumulated, ok_bind]
      -- The floor is on both chains, so it is further down.
      have differs : floor ≠ source := by
        rintro rfl
        exact shared targetAbove
      exact ih parentValid exactly (mem_chain_parent aboveFloor differs).2

theorem Ascended.walkUp {lower : Node}
    (start : Ascended elementHash dag floor virtualUtxo lower progress)
    (judging : Node → Judging) {upper : Node} (mem : lower ∈ dag.chain upper) :
    (∃ final, (windows (dag.path lower upper)).foldlM
          (walkUpStep elementHash dag judging virtualUtxo) progress =
        .ok final ∧
        Ascended elementHash dag floor virtualUtxo upper final) ∨
      ∃ failing ∈ dag.chain upper, (windows (dag.path lower upper)).foldlM
            (walkUpStep elementHash dag judging virtualUtxo) progress =
          .error (.calculation failing) ∧
        dag.JudgementAborts failing := by
  have nothing : (windows (dag.path lower lower)).foldlM
      (walkUpStep elementHash dag judging virtualUtxo) progress = .ok progress := by
    rw [path_self]
    rfl
  induction upper, mem using climb with
  | start => exact .inl ⟨progress, nothing, start⟩
  | upwards upper notRoot differs below ih =>
    rw [windows_path notRoot differs below, foldlM_append]
    rcases ih with ⟨mid, walked, reached⟩ | ⟨failing, inParent, failed, aborts⟩
    · rw [walked, ok_bind, foldlM_cons]
      rcases reached.step notRoot fits collisionFree virtualCreated
        judging with ⟨next, stepped, ascended⟩ | ⟨failed, aborts⟩
      · rw [stepped]
        exact .inl ⟨next, rfl, ascended⟩
      · rw [failed]
        exact .inr ⟨upper, dag.self_mem_chain upper, rfl, aborts⟩
    · rw [failed]
      exact .inr ⟨failing, mem_chain_of_parent notRoot inParent, rfl, aborts⟩

variable (located : Located elementHash dag floor virtualUtxo ⟨source, diff, stores⟩)
  (judging : Node → Judging) (targetAbove : floor ∈ dag.chain target)
include located targetAbove

/-- From a valid block with its exact difference every move ends at a valid
block with its exact difference, unless a transaction aborts its validation
or a sum overflows. -/
theorem Located.relatively :
    (∃ final, calculateUtxoStateRelatively elementHash dag judging virtualUtxo stores
          diff source target = .ok final ∧
        Located elementHash dag floor virtualUtxo final ∧
        (if stores.statuses target = some .disqualifiedFromChain then
          final.diffPoint = source
        else
          final.diffPoint ∈ dag.chain target)) ∨
      ∃ failing ∈ dag.chain target, calculateUtxoStateRelatively elementHash dag judging virtualUtxo
            stores diff source target =
          .error (.calculation failing) ∧
        dag.JudgementAborts failing := by
  have consistent : stores.Consistent elementHash dag floor := located.consistent
  obtain ⟨status, known⟩ := isSome_iff_exists.mp (consistent.status_known target)
  rw [calculateUtxoStateRelatively, unwrapOr_eq_ok.mpr known, ok_bind, known]
  by_cases already : status = .disqualifiedFromChain
  · simp only [Option.some.injEq, if_pos already]
    exact .inl ⟨_, rfl, located, rfl⟩
  · simp only [Option.some.injEq, if_neg already]
    obtain ⟨splitPoint, splitDiff, descended, shared, split⟩ :=
      consistent.walkDown fits collisionFree virtualCreated located.valid
        located.between located.aboveFloor targetAbove
    rw [descended, ok_bind]
    rcases split.ascended.walkUp fits collisionFree virtualCreated judging shared with
      ⟨final, walked, ascended⟩ | failed
    · exact .inl ⟨final, walked, ascended.toLocated, ascended.onChain⟩
    · exact .inr failed

variable {judging}

theorem Located.of_relatively {next : Progress Node}
    (moved : calculateUtxoStateRelatively elementHash dag judging virtualUtxo stores diff source
      target = .ok next) :
    Located elementHash dag floor virtualUtxo next := by
  rcases located.relatively fits collisionFree virtualCreated judging targetAbove with
    ⟨reached, ran, exactly, -⟩ | ⟨failing, -, failed, -⟩
  · cases ran.symm.trans moved
    exact exactly
  · cases failed.symm.trans moved

end Sophis
