import Sophis.VirtualResolution

namespace Sophis

open ExceptLoop ParentTree

/-!
# What resolving commits

A chain block is committed on top of a committed block only, and what is
committed stays. This holds of every resolve, whichever multisets have been
deleted before it.
-/

variable {elementHash : List UInt8 → Hash} {external : External}
  {params : Params} {Node : Type} {dag : BlockDag external params Node}
  {relations : DagRelations Node}

/-- Every block on the chain of a committed block is committed. -/
structure UtxoStores.ChainClosed (dag : BlockDag external params Node)
    (stores : UtxoStores Node) : Prop where
  root_valid : stores.Valid dag.root
  parent_valid : ∀ node, node ≠ dag.root → stores.Valid node → stores.Valid (dag.parent node)

variable {stores : UtxoStores Node} {node : Node}

theorem UtxoStores.ChainClosed.chain_valid (closed : stores.ChainClosed dag) {lower : Node}
    (valid : stores.Valid node) (below : lower ∈ dag.chain node) : stores.Valid lower := by
  induction node, below using Tree.climb with
  | start => exact valid
  | upwards node ne _ _ ih => exact ih (closed.parent_valid node ne valid)

/-- A difference at a committed block, in stores that have grown from others. -/
structure Progress.Committed (dag : BlockDag external params Node)
    (earlier : UtxoStores Node) (progress : Progress Node) : Prop where
  closed : progress.stores.ChainClosed dag
  kept : ∀ node, earlier.Valid node → progress.stores.Valid node
  valid : progress.stores.Valid progress.diffPoint

variable [DecidableEq Node] {earlier : UtxoStores Node} {progress next : Progress Node}

theorem Progress.Committed.commit (committed : progress.Committed dag earlier)
    (onTop : dag.parent node = progress.diffPoint) (mergesetDiff diff : UtxoDiff)
    (multiset : MuHash) :
    Progress.Committed dag earlier ⟨node, diff,
      progress.stores.commitUtxoState node mergesetDiff multiset⟩ := by
  have kept {other : Node} (valid : progress.stores.Valid other) :
      (progress.stores.commitUtxoState node mergesetDiff multiset).Valid other :=
    UtxoStores.valid_commit_iff.mpr (.inr valid)
  refine ⟨⟨kept committed.closed.root_valid, ?_⟩,
    fun other valid => kept (committed.kept other valid),
    UtxoStores.valid_commit_iff.mpr (.inl rfl)⟩
  intro other ne valid
  rcases UtxoStores.valid_commit_iff.mp valid with rfl | before
  · exact kept (onTop ▸ committed.valid)
  · exact kept (committed.closed.parent_valid other ne before)

variable {judging : Node → Judging} {virtualUtxo : UtxoSet}

theorem Progress.Committed.walkUpStep (committed : progress.Committed dag earlier) (walked :
    Sophis.walkUpStep elementHash dag judging virtualUtxo progress
      (dag.parent node, node) = .ok next) : next.Committed dag earlier := by
  rw [Sophis.walkUpStep] at walked
  split at walked
  · simp only [disqualify, bind_eq_ok] at walked
    obtain ⟨status, -, walked⟩ := walked
    split at walked
    · cases walked
      exact committed
    · cases walked
      exact ⟨⟨committed.closed.root_valid, committed.closed.parent_valid⟩,
        committed.kept, committed.valid⟩
  · next onTop =>
    rw [not_not] at onTop
    split at walked
    · next mergesetDiff stored =>
      simp only [bind_eq_ok] at walked
      obtain ⟨diff, -, eq⟩ := walked
      cases eq
      exact ⟨committed.closed, committed.kept, Option.isSome_of_eq_some stored⟩
    · simp only [bind_eq_ok] at walked
      obtain ⟨status, -, walked⟩ := walked
      split at walked
      · cases walked
        exact committed
      · simp only [verifyNext, bind_eq_ok] at walked
        obtain ⟨multiset, -, walked⟩ := walked
        split at walked
        · cases walked
        · cases walked
          exact ⟨⟨committed.closed.root_valid, committed.closed.parent_valid⟩, committed.kept,
            committed.valid⟩
        · simp only [bind_eq_ok] at walked
          obtain ⟨diff, -, eq⟩ := walked
          cases eq
          exact committed.commit onTop _ _ _

variable {target : Node}

theorem walkDown_mem {splitPoint : Node} {diff splitDiff : UtxoDiff} {nodes : List Node}
    (walked : walkDown dag stores target diff nodes = .ok (splitPoint, splitDiff)) :
    splitPoint ∈ nodes ∧ splitPoint ∈ dag.chain target := by
  induction nodes generalizing diff with
  | nil => cases walked
  | cons current rest ih =>
    rw [walkDown] at walked
    split at walked
    · next shared =>
      cases walked
      exact ⟨List.mem_cons_self, shared⟩
    · simp only [bind_eq_ok] at walked
      obtain ⟨_, -, _, -, walked⟩ := walked
      obtain ⟨later, shared⟩ := ih walked
      exact ⟨List.mem_cons_of_mem _ later, shared⟩

theorem Progress.Committed.relatively (committed : progress.Committed dag earlier) (moved :
      calculateUtxoStateRelatively elementHash dag judging virtualUtxo
        progress.stores progress.diff progress.diffPoint target = .ok next) :
    next.Committed dag earlier := by
  simp only [calculateUtxoStateRelatively, bind_eq_ok] at moved
  obtain ⟨status, -, moved⟩ := moved
  split at moved
  · cases moved
    exact committed
  · simp only [bind_eq_ok] at moved
    obtain ⟨⟨splitPoint, diff⟩, down, up⟩ := moved
    obtain ⟨below, shared⟩ := walkDown_mem down
    have start : Progress.Committed dag earlier ⟨splitPoint, diff, progress.stores⟩ :=
      ⟨committed.closed, committed.kept, committed.closed.chain_valid committed.valid below⟩
    refine Tree.foldlM_path_invariant
      (fun _ reached => reached.Committed dag earlier) ?_ shared start up
    intro node _ state after before walked
    exact before.walkUpStep walked

theorem Progress.Committed.sinkSearchAlgorithm (committed : progress.Committed dag earlier)
    {finalityPoint : Node} {fuel : Nat} {heap candidates : List Node}
    (searched : Sophis.sinkSearchAlgorithm elementHash dag relations judging
      virtualUtxo finalityPoint fuel progress heap = .ok (next, candidates)) :
    next.Committed dag earlier := by
  induction fuel generalizing progress heap with
  | zero => cases searched
  | succ fuel ih =>
    rw [Sophis.sinkSearchAlgorithm] at searched
    split at searched
    · cases searched
    · split at searched
      · simp only [bind_eq_ok, mapError_eq_ok] at searched
        obtain ⟨mid, moved, ran⟩ := searched
        have reached := committed.relatively moved
        split at ran
        · cases ran
          exact reached
        · exact ih reached ran
      · exact ih committed searched

/-- The sink of virtual is committed, and so is its chain. -/
structure ProcessorState.Committed (dag : BlockDag external params Node)
    (state : ProcessorState Node) : Prop where
  closed : state.stores.ChainClosed dag
  sink_valid : state.stores.Valid state.virtualState.sink

theorem ProcessorState.Committed.resolveVirtual {state after : ProcessorState Node}
    (committed : state.Committed dag) {resolution : Resolution dag}
    (resolved : Sophis.resolveVirtual elementHash dag relations state resolution = .ok after) :
    after.Committed dag ∧ ∀ node, state.stores.Valid node → after.stores.Valid node := by
  simp only [Sophis.resolveVirtual, calculateVirtualState, bind_eq_ok, check_eq_ok,
    reject_eq_ok, not_not, unwrapOr_eq_ok, mapError_eq_ok] at resolved
  obtain ⟨⟨got, candidates⟩, searched, onSink, multiset, -,
    ⟨virtualState, accumulated⟩, ⟨_, -, _, -, _, -, made⟩, eq⟩ := resolved
  cases made
  cases eq
  have start : Progress.Committed dag state.stores
      ⟨state.virtualState.sink, state.virtualState.utxoDiff.asReversed, state.stores⟩ :=
    ⟨committed.closed, fun _ valid => valid, committed.sink_valid⟩
  have reached := start.sinkSearchAlgorithm searched
  refine ⟨⟨⟨reached.closed.root_valid, reached.closed.parent_valid⟩, ?_⟩, reached.kept⟩
  rw [onSink]
  exact reached.valid

end Sophis
