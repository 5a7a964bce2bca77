import Sophis.BestSink
import Sophis.CommittedChains

namespace Sophis

open ExceptLoop List ParentDag ParentTree

/-!
# Nodes that resolve the same DAG

Two nodes that judge blocks alike learn the blocks of a DAG in any order and
resolve whenever they like. What one finds valid stays valid there, the other
never disqualifies it, and both see the same unspent outputs. Given the same tips
they choose the same sink.
-/

variable {elementHash : List UInt8 → Hash} {external : External} {params : Params} {Node : Type}
  [DecidableEq Node] {dag : BlockDag external params Node} {relations : DagRelations Node}
  {judging : Node → Judging} {floor finalityPoint : Node}

theorem ProcessorState.Committed.foldlM {state later : ProcessorState Node}
    {resolutions : List (Resolution dag)} (committed : state.Committed dag)
    (resolved : resolutions.foldlM (Sophis.resolveVirtual elementHash dag relations) state =
      .ok later) :
    later.Committed dag ∧ ∀ node, state.stores.Valid node → later.stores.Valid node := by
  induction resolutions generalizing state with
  | nil =>
    cases resolved
    exact ⟨committed, fun _ valid => valid⟩
  | cons first rest ih =>
    rw [foldlM_cons, bind_eq_ok] at resolved
    obtain ⟨next, ran, resolved⟩ := resolved
    obtain ⟨nextCommitted, kept⟩ := committed.resolveVirtual ran
    obtain ⟨laterCommitted, keptOn⟩ := ih nextCommitted resolved
    exact ⟨laterCommitted, fun node valid => keptOn node (kept node valid)⟩

/-- Whatever nodes know and however they judge, the chain of every sink is valid,
and what was valid once stays valid. -/
theorem resolves_keep_valid {state later : ProcessorState Node}
    {earlier more : List (Resolution dag)}
    (reached : earlier.foldlM (resolveVirtual elementHash dag relations) dag.genesisState =
      .ok state)
    (resolved : more.foldlM (resolveVirtual elementHash dag relations) state = .ok later) :
    (∀ node ∈ dag.chain later.virtualState.sink, later.stores.Valid node) ∧
      ∀ node, state.stores.Valid node → later.stores.Valid node := by
  have consistent := dag.genesisState_consistent elementHash
  have start : dag.genesisState.Committed dag :=
    ⟨⟨consistent.sink_valid, consistent.stores.parent_valid⟩, consistent.sink_valid⟩
  obtain ⟨committed, kept⟩ := (start.foldlM reached).1.foldlM resolved
  exact ⟨fun _ below => committed.closed.chain_valid committed.sink_valid below, kept⟩

theorem rivalDag_second_valid : ∃ state,
    rivalResolve rivalDag.genesisState [.third] = .ok state ∧ state.stores.Valid .second := by
  obtain ⟨state, resolved, later⟩ := Option.bind_eq_some_iff.mp rivalDag_resolves
  obtain ⟨_, -, moved⟩ := Option.bind_eq_some_iff.mp later
  obtain ⟨_, -, points⟩ := Option.map_eq_some_iff.mp moved
  rw [toOption_eq_some_iff] at resolved
  have isThird : state.virtualState.sink = .third := congrArg Prod.fst points
  have onChain : .second ∈ rivalDag.chain state.virtualState.sink := by
    rw [isThird]
    decide
  have ran : [rivalResolution [.third]].foldlM (resolveVirtual fingerprint rivalDag
      rivalRelations) rivalDag.genesisState = .ok state := bind_eq_ok.mpr ⟨_, resolved, rfl⟩
  exact ⟨state, resolved,
    (resolves_keep_valid (rfl : [].foldlM _ _ = _) ran).1 .second onChain⟩

/-- A search that returns has found the best sink as the initial stores see it. -/
theorem HeapInvariant.of_search {virtualUtxo : UtxoSet} {initial : UtxoStores Node}
    {progress got : Progress Node} {tips heap candidates : List Node} {fuel : Nat}
    (sound : relations.Sound dag)
    (inv : HeapInvariant elementHash dag relations judging virtualUtxo
      finalityPoint floor initial tips progress heap)
    (fits : params.CountsFitWords) (free : dag.CollisionFree)
    (virtualCreated : CreatedFrom external.toHashers dag.Known virtualUtxo)
    (aboveFloor : floor ∈ dag.chain finalityPoint)
    (searched : sinkSearchAlgorithm elementHash dag relations judging virtualUtxo
      finalityPoint fuel progress heap = .ok (got, candidates)) :
    BestSink elementHash dag relations judging finalityPoint initial tips
        got.diffPoint candidates ∧
      initial.Agrees elementHash dag judging got.stores := by
  induction fuel generalizing progress heap with
  | zero => cases searched
  | succ fuel ih =>
    rw [sinkSearchAlgorithm] at searched
    split at searched
    · cases searched
    · next candidate rest popped =>
      split at searched
      · next final =>
        simp only [bind_eq_ok, mapError_eq_ok] at searched
        obtain ⟨next, moved, ran⟩ := searched
        obtain ⟨-, agrees, eligible_iff⟩ :=
          inv.calculated fits free virtualCreated aboveFloor final moved
        split at ran
        · next same =>
          cases ran
          rw [same]
          exact ⟨inv.bestSink sound popped (eligible_iff.mpr same), agrees⟩
        · next differs =>
          exact ih (inv.step sound fits free virtualCreated aboveFloor
            (.invalid popped final moved differs)) ran
      · next notFinal =>
        exact ih (inv.step sound fits free virtualCreated aboveFloor
          (.violates popped notFinal)) searched

variable (elementHash dag relations judging) in
/-- A node judges blocks as given and resolves again and again from the genesis
on: the tips and the finality point of its last resolve, the block from which
multisets are kept, and its state. -/
inductive JudgedRun : List Node → Node → Node → ProcessorState Node → Prop where
  | genesis : JudgedRun [] dag.root dag.root dag.genesisState
  | resolve {tips : List Node} {finalityPoint floor nextFloor : Node}
    {state next : ProcessorState Node} {resolution : Resolution dag} :
    JudgedRun tips finalityPoint floor state →
    resolution.judging = judging →
    resolution.tips.Nodup →
    relations.toDag.Antichain resolution.tips →
    dag.KeepsAbove floor resolution.finalityPoint nextFloor →
    resolveVirtual elementHash dag relations state resolution = .ok next →
    JudgedRun resolution.tips resolution.finalityPoint nextFloor next

section

variable {tips otherTips : List Node} {otherFloor otherPoint : Node}
  {state other : ProcessorState Node} (sound : relations.Sound dag)
  (fits : params.CountsFitWords) (free : dag.CollisionFree)
  (run : JudgedRun elementHash dag relations judging tips finalityPoint floor state)
include sound fits free run

/-- The genesis decides what is valid at a node, and which sink it chose. -/
theorem JudgedRun.agrees : state.Consistent elementHash dag floor ∧
    dag.genesisState.stores.Agrees elementHash dag judging state.stores ∧
    (tips ≠ [] → ∃ candidates, BestSink elementHash dag relations judging finalityPoint
      dag.genesisState.stores (tips.filter (relations.isDagAncestorOf finalityPoint))
      state.virtualState.sink candidates) := by
  induction run with
  | genesis =>
    have consistent := dag.genesisState_consistent elementHash
    exact ⟨consistent, consistent.stores.agrees, fun some => absurd rfl some⟩
  | resolve _ isJudging nodup antichain keeps resolved ih =>
    obtain ⟨consistent, agrees, -⟩ := ih
    refine ⟨(consistent.resolveVirtual fits free keeps.spares resolved).1, ?_⟩
    cases isJudging
    simp only [resolveVirtual, calculateVirtualState, bind_eq_ok, check_eq_ok,
      reject_eq_ok, not_not, unwrapOr_eq_ok, mapError_eq_ok] at resolved
    obtain ⟨⟨got, candidates⟩, ran, onSink, _, -, _, ⟨_, -, _, -, _, -, made⟩, eq⟩ := resolved
    cases made
    cases eq
    obtain ⟨best, agrees⟩ := HeapInvariant.of_search sound {
      located := consistent.located
      agrees
      nodup := nodup.filter _
      antichain := fun first isFirst second isSecond =>
        antichain first (mem_of_mem_filter isFirst) second (mem_of_mem_filter isSecond)
      inPast := fun tip isTip => ⟨tip, isTip, .refl tip⟩
      final := fun tip isTip => (sound.exact _ tip).mp (of_mem_filter isTip)
      covered := fun _ inPast _ => inPast } fits free consistent.createdFrom
      (Tree.mem_chain_trans keeps.above keeps.below) ran
    rw [← onSink] at best
    exact ⟨⟨agrees.kept, agrees.kept_disqualified, agrees.valid, agrees.disqualified⟩,
      fun _ => ⟨candidates, best⟩⟩

/-- No node disqualifies what another one finds valid, and both have the same
unspent outputs of a valid block. Nodes whose last resolve had the same tips and
finality point have the same sink, whatever they resolved before. -/
theorem JudgedRun.nodes_agree
    (otherRun : JudgedRun elementHash dag relations judging otherTips otherPoint otherFloor other) :
    (∀ node, state.stores.Valid node →
      other.stores.statuses node ≠ some .disqualifiedFromChain ∧
        (other.stores.Valid node →
          dag.utxoOf state.stores node = dag.utxoOf other.stores node)) ∧
      (tips ≠ [] → tips.Perm otherTips → finalityPoint = otherPoint →
        state.virtualState.sink = other.virtualState.sink) := by
  obtain ⟨-, agrees, chosen⟩ := run.agrees sound fits free
  obtain ⟨-, otherAgrees, otherChosen⟩ := otherRun.agrees sound fits free
  constructor
  · intro node valid
    have isValid := agrees.valid node valid
    exact ⟨fun refused => otherAgrees.disqualified node refused _ isValid,
      fun otherValid => isValid.unique (otherAgrees.valid node otherValid)⟩
  · rintro nonempty sameTips rfl
    obtain ⟨_, best⟩ := chosen nonempty
    obtain ⟨_, otherBest⟩ := otherChosen fun isNil => nonempty (isNil ▸ sameTips).eq_nil
    have covers {tip : Node} := (sameTips.filter
      (relations.isDagAncestorOf finalityPoint)).mem_iff (a := tip)
    obtain ⟨tip, isTip, below⟩ := best.inPast
    obtain ⟨otherTip, isOther, otherBelow⟩ := otherBest.inPast
    -- Each of two different sinks would be larger than the other one.
    by_contra differs
    exact lt_asymm
      (best.largest _ ⟨otherTip, covers.mpr isOther, otherBelow⟩ otherBest.eligible
        (Ne.symm differs))
      (otherBest.largest _ ⟨tip, covers.mp isTip, below⟩ best.eligible differs)

end

/-- One more resolve of the rival DAG. -/
theorem rivalDag_judgedRun {tips earlier : List RivalNode} {state next : ProcessorState RivalNode}
    (run : JudgedRun fingerprint rivalDag rivalRelations (rivalResolution []).judging
      earlier .genesis .genesis state)
    (nodup : tips.Nodup)
    (antichain : ∀ tip ∈ tips, ∀ other ∈ tips, tip ∈ rivalDag.chain other → tip = other)
    (resolved : rivalResolve state tips = .ok next) :
    JudgedRun fingerprint rivalDag rivalRelations (rivalResolution []).judging
      tips .genesis .genesis next := by
  refine run.resolve (rfl : (rivalResolution tips).judging = _) nodup ?_ ?_ resolved
  · simp only [Dag.Antichain, rivalRelations_below_iff]
    exact antichain
  · exact ⟨rivalDag.self_mem_chain _, rivalDag.self_mem_chain _,
      Nat.lt_add_of_pos_right (by decide)⟩

/-- One node resolves the longer chain first, the other one both at once. -/
theorem rivalDag_converges : ∃ state next other,
    rivalResolve rivalDag.genesisState [.third] = .ok state ∧
      rivalResolve state [.third, .rival] = .ok next ∧
      rivalResolve rivalDag.genesisState [.rival, .third] = .ok other ∧
      next.virtualState.sink = other.virtualState.sink := by
  have ran : ((rivalResolve rivalDag.genesisState [.third]).toOption.bind fun state =>
      (rivalResolve state [.third, .rival]).toOption.bind fun _ =>
        (rivalResolve rivalDag.genesisState [.rival, .third]).toOption.map fun _ => ()) =
      some () := by
    decide +kernel
  obtain ⟨state, resolved, later⟩ := Option.bind_eq_some_iff.mp ran
  obtain ⟨next, nextResolved, last⟩ := Option.bind_eq_some_iff.mp later
  obtain ⟨other, otherResolved, -⟩ := Option.map_eq_some_iff.mp last
  rw [toOption_eq_some_iff] at resolved nextResolved otherResolved
  have run := rivalDag_judgedRun .genesis (by decide) (by decide) resolved
  exact ⟨state, next, other, resolved, nextResolved, otherResolved,
    (JudgedRun.nodes_agree rivalRelations_sound ⟨by decide, by decide⟩ rivalDag_collisionFree
      (rivalDag_judgedRun run (by decide) (by decide) nextResolved)
      (rivalDag_judgedRun .genesis (by decide) (by decide) otherResolved)).2
      (cons_ne_nil _ _) (.swap _ _ _) rfl⟩

end Sophis
