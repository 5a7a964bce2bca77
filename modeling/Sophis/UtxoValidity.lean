import Sophis.Reorganisation

namespace Sophis

open ExceptLoop Function UtxoStores

/-!
# Which blocks are UTXO valid

A block is valid when its difference is stored, or when it is not disqualified
and passes its judgement on the unspent outputs of its valid selected parent.
Moving between chains stores this and nothing else: the differences that it adds
are those of valid blocks, and the blocks that it disqualifies are not valid.
-/

variable (elementHash : List UInt8 → Hash) {external : External}
  {params : Params} {Node : Type} (dag : BlockDag external params Node)
  (judging : Node → Judging)

/-- A block is UTXO valid with these unspent outputs, as the stores and the
judgements say. -/
inductive BlockDag.UtxoValid (stores : UtxoStores Node) : Node → UtxoSet → Prop where
  | stored {node : Node} :
    stores.Valid node →
    UtxoValid stores node (dag.utxoOf stores node)
  | verified {node : Node} {utxo : UtxoSet} {context : UtxoProcessingContext}
    {multiset : MuHash} :
    node ≠ dag.root →
    stores.utxoDiffs node = none →
    stores.statuses node ≠ some .disqualifiedFromChain →
    UtxoValid stores (dag.parent node) utxo →
    judgeChainBlock elementHash dag (judging node) utxo.lookup
      (dag.parent node) node (commitment elementHash utxo) = .ok (context, multiset) →
    UtxoValid stores node (utxo.withDiff context.mergesetDiff)

variable {elementHash dag judging} {stores : UtxoStores Node} {node : Node}

theorem UtxoStores.not_valid_of_none (missing : stores.utxoDiffs node = none) :
    ¬ stores.Valid node := by
  rw [Valid, missing]
  exact Bool.false_ne_true

theorem BlockDag.UtxoValid.unique {first second : UtxoSet}
    (isFirst : dag.UtxoValid elementHash judging stores node first)
    (isSecond : dag.UtxoValid elementHash judging stores node second) : first = second := by
  induction isFirst generalizing second with
  | stored valid =>
    cases isSecond with
    | stored _ => rfl
    | verified _ missing => exact absurd valid (not_valid_of_none missing)
  | verified _ missing _ _ judged ih =>
    cases isSecond with
    | stored valid => exact absurd valid (not_valid_of_none missing)
    | verified _ _ _ parentValid alsoJudged =>
      cases ih parentValid
      cases judged.symm.trans alsoJudged
      rfl

/-- Stores that agree with the validity that earlier stores gave: what they
added is valid, and what they disqualified is not. -/
structure UtxoStores.Agrees (elementHash : List UInt8 → Hash)
    (dag : BlockDag external params Node) (judging : Node → Judging)
    (initial stores : UtxoStores Node) : Prop where
  kept : ∀ node, initial.Valid node → stores.Valid node
  kept_disqualified : ∀ node, initial.statuses node = some .disqualifiedFromChain →
    stores.statuses node = some .disqualifiedFromChain
  valid : ∀ node, stores.Valid node →
    dag.UtxoValid elementHash judging initial node (dag.utxoOf stores node)
  disqualified : ∀ node, stores.statuses node = some .disqualifiedFromChain →
    ∀ utxo, ¬ dag.UtxoValid elementHash judging initial node utxo

theorem UtxoStores.Consistent.agrees {floor : Node}
    (consistent : stores.Consistent elementHash dag floor) :
    stores.Agrees elementHash dag judging stores where
  kept _ valid := valid
  kept_disqualified _ known := known
  valid _ valid := .stored valid
  disqualified node known utxo isValid := by
    cases isValid with
    | stored valid => cases known.symm.trans ((consistent.valid_iff node).mpr valid)
    | verified _ _ notDisqualified => exact notDisqualified known

variable {elementHash : List UInt8 → Hash} {external : External}
  {params : Params} {Node : Type} [DecidableEq Node]
  {dag : BlockDag external params Node} {judging : Node → Judging}
  {floor : Node} {virtualUtxo : UtxoSet}
  {initial stores : UtxoStores Node} {progress : Progress Node} {node : Node}

theorem UtxoStores.Agrees.setStatus (agrees : initial.Agrees elementHash dag judging stores)
    (notValid : ∀ utxo, ¬ dag.UtxoValid elementHash judging initial node utxo) :
    initial.Agrees elementHash dag judging (stores.setStatus node .disqualifiedFromChain) := by
  refine ⟨agrees.kept, fun other known => ?_, agrees.valid, fun other known => ?_⟩
  · by_cases eq : other = node
    · simp [UtxoStores.setStatus, eq]
    · simpa [UtxoStores.setStatus, eq] using agrees.kept_disqualified other known
  · by_cases eq : other = node
    · exact eq ▸ notValid
    · refine agrees.disqualified other ?_
      simpa [UtxoStores.setStatus, eq] using known

variable {diff : UtxoDiff}

theorem UtxoStores.Agrees.commit (agrees : initial.Agrees elementHash dag judging stores)
    (consistent : stores.Consistent elementHash dag floor) (notRoot : node ≠ dag.root)
    (new : stores.utxoDiffs node = none) (parentValid : stores.Valid (dag.parent node))
    {multiset : MuHash}
    (isValid : dag.UtxoValid elementHash judging initial node
      ((dag.utxoOf stores (dag.parent node)).withDiff diff)) :
    initial.Agrees elementHash dag judging (stores.commitUtxoState node diff multiset) := by
  have own : (stores.commitUtxoState node diff multiset).utxoDiffs node = some diff :=
    update_self _ _ _
  have status {other : Node} (ne : other ≠ node) :
      (stores.commitUtxoState node diff multiset).statuses other = stores.statuses other :=
    update_of_ne ne _ _
  refine ⟨fun other valid => ?_, fun other known => ?_, fun other valid => ?_,
    fun other known => ?_⟩
  · by_cases eq : other = node
    · exact absurd (eq ▸ agrees.kept other valid) (not_valid_of_none new)
    · rw [Valid, utxoDiffs_commit_of_ne eq]
      exact agrees.kept other valid
  · have prior := agrees.kept_disqualified other known
    by_cases eq : other = node
    · subst eq
      exact absurd isValid (agrees.disqualified other prior _)
    · exact (status eq).trans prior
  · by_cases eq : other = node
    · subst eq
      rw [BlockDag.utxoOf_of_ne notRoot own, consistent.utxoOf_commit new diff multiset parentValid]
      exact isValid
    · rw [Valid, utxoDiffs_commit_of_ne eq] at valid
      rw [consistent.utxoOf_commit new diff multiset valid]
      exact agrees.valid other valid
  · by_cases eq : other = node
    · subst eq
      cases (update_self _ _ _).symm.trans known
    · exact agrees.disqualified other ((status eq).symm.trans known)

/-- Where the way up stands: a block that it did not reach is disqualified. -/
structure Ascended.Judged (elementHash : List UInt8 → Hash)
    (dag : BlockDag external params Node) (judging : Node → Judging)
    (initial : UtxoStores Node) (last : Node) (progress : Progress Node) :
    Prop where
  agrees : initial.Agrees elementHash dag judging progress.stores
  rejected : progress.diffPoint ≠ last → progress.stores.statuses last = some .disqualifiedFromChain

variable {next : Progress Node}

section

variable (ascended : Ascended elementHash dag floor virtualUtxo (dag.parent node) progress)
  (judged : Ascended.Judged elementHash dag judging initial (dag.parent node) progress)
  (notRoot : node ≠ dag.root)
include ascended judged notRoot

theorem Ascended.Judged.disqualify (notAtParent : dag.parent node ≠ progress.diffPoint)
    (step : Sophis.disqualify progress node = .ok next) :
    Ascended.Judged elementHash dag judging initial node next := by
  have parentRejected := judged.rejected (Ne.symm notAtParent)
  have parentMissing := ascended.topmost (Ne.symm notAtParent)
  have notValid : ∀ utxo, ¬ dag.UtxoValid elementHash judging initial node utxo := by
    intro utxo isValid
    cases isValid with
    | stored valid =>
      have parentValid := ascended.consistent.parent_valid node notRoot
        (judged.agrees.kept node valid)
      exact not_valid_of_none parentMissing parentValid
    | verified _ _ _ parentValid _ =>
      exact judged.agrees.disqualified _ parentRejected _ parentValid
  simp only [Sophis.disqualify, bind_eq_ok, unwrapOr_eq_ok] at step
  obtain ⟨status, known, step⟩ := step
  split at step
  · next already =>
    cases step
    exact ⟨judged.agrees, fun _ => already ▸ known⟩
  · cases step
    exact ⟨judged.agrees.setStatus notValid, fun _ => update_self _ _ _⟩

theorem Ascended.Judged.verifyNext (atParent : dag.parent node = progress.diffPoint)
    (new : progress.stores.utxoDiffs node = none)
    (notDisqualified : progress.stores.statuses node ≠ some .disqualifiedFromChain)
    (step : Sophis.verifyNext elementHash dag judging virtualUtxo progress
      (dag.parent node) node = .ok next) :
    Ascended.Judged elementHash dag judging initial node next := by
  have consistent := ascended.consistent
  obtain ⟨parentValid, multiset, -, view⟩ := ascended.at_parent atParent
  have parentIsValid := judged.agrees.valid _ parentValid
  have initiallyNew : initial.utxoDiffs node = none := by
    by_contra stored
    exact not_valid_of_none new (judged.agrees.kept node (Option.isSome_iff_ne_none.mpr stored))
  rw [Sophis.verifyNext, unwrapOr_eq_ok.mpr multiset, ok_bind, view] at step
  split at step
  · cases step
  · next failed =>
    cases step
    refine ⟨judged.agrees.setStatus fun utxo isValid => ?_, fun _ => update_self _ _ _⟩
    cases isValid with
    | stored valid => exact not_valid_of_none initiallyNew valid
    | verified _ _ _ alsoValid passed =>
      cases parentIsValid.unique alsoValid
      cases failed.symm.trans passed
  · next context multiset passed =>
    rw [bind_eq_ok] at step
    obtain ⟨diff, -, step⟩ := step
    cases step
    refine ⟨?_, fun ne => absurd rfl ne⟩
    have isValid : dag.UtxoValid elementHash judging initial node
        ((dag.utxoOf progress.stores (dag.parent node)).withDiff context.mergesetDiff) :=
      .verified notRoot initiallyNew (fun known => notDisqualified
          (judged.agrees.kept_disqualified node known))
        parentIsValid passed
    exact judged.agrees.commit consistent notRoot new parentValid isValid

theorem Ascended.Judged.walkUpStep
    (step : Sophis.walkUpStep elementHash dag judging virtualUtxo progress
      (dag.parent node, node) = .ok next) :
    Ascended.Judged elementHash dag judging initial node next := by
  rw [Sophis.walkUpStep] at step
  by_cases atParent : dag.parent node = progress.diffPoint
  · simp only [if_neg (not_not.mpr atParent)] at step
    cases kept : progress.stores.utxoDiffs node with
    | some mergesetDiff =>
      simp only [kept, bind_eq_ok] at step
      obtain ⟨diff, -, step⟩ := step
      cases step
      exact ⟨judged.agrees, fun ne => absurd rfl ne⟩
    | none =>
      simp only [kept, bind_eq_ok, unwrapOr_eq_ok] at step
      obtain ⟨status, known, step⟩ := step
      split at step
      · next already =>
        cases step
        exact ⟨judged.agrees, fun _ => already ▸ known⟩
      · next notAlready =>
        refine judged.verifyNext ascended notRoot atParent kept ?_ step
        rw [known]
        exact fun already => notAlready (Option.some.inj already)
  · simp only [if_pos atParent] at step
    exact judged.disqualify ascended notRoot atParent step

end

/-- A move to a block ends there exactly when the block is valid, and what it
stores agrees with validity. -/
theorem Located.relatively_judged {source : Node}
    (located : Located elementHash dag floor virtualUtxo ⟨source, diff, stores⟩)
    (fits : params.CountsFitWords) (free : dag.CollisionFree)
    (virtualCreated : CreatedFrom external.toHashers dag.Known virtualUtxo)
    (agrees : initial.Agrees elementHash dag judging stores) {target : Node}
    (targetAbove : floor ∈ dag.chain target) {final : Progress Node}
    (moved : calculateUtxoStateRelatively elementHash dag judging virtualUtxo
      stores diff source target = .ok final) :
    initial.Agrees elementHash dag judging final.stores ∧ (final.diffPoint ≠ target →
      ∀ utxo, ¬ dag.UtxoValid elementHash judging initial target utxo) := by
  have consistent : stores.Consistent elementHash dag floor := located.consistent
  simp only [calculateUtxoStateRelatively, bind_eq_ok, unwrapOr_eq_ok] at moved
  obtain ⟨status, known, moved⟩ := moved
  split at moved
  · next already =>
    cases moved
    exact ⟨agrees, fun _ => agrees.disqualified target (already ▸ known)⟩
  · rw [bind_eq_ok] at moved
    obtain ⟨⟨splitPoint, splitDiff⟩, descended, walked⟩ := moved
    obtain ⟨_, _, alsoDescended, shared, split⟩ :=
      consistent.walkDown fits free virtualCreated located.valid
        located.between located.aboveFloor targetAbove
    cases descended.symm.trans alsoDescended
    have ended := dag.foldlM_path_invariant (fun last progress =>
        Ascended elementHash dag floor virtualUtxo last progress ∧
          Ascended.Judged elementHash dag judging initial last progress)
      (by
        intro node notRoot progress next before stepped
        refine ⟨?_, before.2.walkUpStep before.1 notRoot stepped⟩
        rcases before.1.step notRoot fits free virtualCreated judging
          with ⟨_, alsoStepped, after⟩ | ⟨failed, -⟩
        · cases stepped.symm.trans alsoStepped
          exact after
        · cases stepped.symm.trans failed)
      shared ⟨split.ascended, agrees, fun ne => absurd rfl ne⟩ walked
    exact ⟨ended.2.agrees, fun ne =>
      ended.2.agrees.disqualified target (ended.2.rejected ne)⟩

end Sophis
