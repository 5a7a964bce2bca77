import Mathlib.Algebra.Order.BigOperators.Group.List
import Mathlib.Algebra.Order.Group.Nat
import Sophis.ChainLedger
import Sophis.CoinbaseClosure

namespace Sophis

open ExceptLoop List MachineWord Option

/-!
# When the calculation of a state aborts

`calculate_utxo_state` and `verify_expected_utxo_state` unwrap what
`add_transaction`, the reading of payloads and the building of the coinbase
return. On the unspent outputs of a chain none of these fails. What is left
to abort is the validation of a single transaction and an overflowing sum of
fees or rewards.
-/

variable {hashers : Hashers} {params : Params}

section

variable {base : UtxoSet} {povDaaScore : UInt64} {history allTxs : List Transaction}

def Block.Readable (params : Params) (block : Block) : Prop :=
  ∃ coinbase data, block.coinbase? = some coinbase ∧
    (CoinbaseManager.ofParams params).deserializeCoinbasePayload coinbase.payload = .ok data

theorem BodyAccepted.readable {external : External} {context : BodyContext} {block : Block}
    (ok : BodyAccepted external params context block) : block.Readable params := by
  obtain ⟨coinbase, data, first, -, parsed, -⟩ := ok.coinbase_payload
  exact ⟨coinbase, data, first, parsed⟩

/-- What can abort the merging of a block: the validation of one of its
transactions, or the sum of the fees of those that are valid. -/
inductive MergeAborts (hashers : Hashers) (params : Params)
    (povDaaScore : UInt64) (block : Block) : Prop where
  | validation {environment : ValidationEnvironment} {view : UtxoView}
    {flags : TxValidationFlags} {tx : Transaction}
    (member : tx ∈ block.transactions.tail)
    (panicked : validateTransactionInUtxoContext hashers params environment tx view
      povDaaScore flags = .error .panicked)
  | fees {environment : ValidationEnvironment} {view : UtxoView}
    {flags : TxValidationFlags}
    {validated : List (ValidatedTransaction × Nat)}
    (kept : validateTransactionsInParallel hashers params environment
      block.transactions view povDaaScore flags = some validated)
    (overflow : 2 ^ 64 ≤ exactSum (validated.map fun accepted => accepted.1.calculatedFee))

variable {environment : ValidationEnvironment} {view : UtxoView} {flags : TxValidationFlags}

theorem keepValid_eq_none {items : List (Transaction × Nat)}
    (aborted : keepValid hashers params environment view povDaaScore flags items = none) :
    ∃ tx ∈ items.map Prod.fst, validateTransactionInUtxoContext hashers params environment tx view
      povDaaScore flags = .error .panicked := by
  induction items with
  | nil => cases aborted
  | cons item rest ih =>
    obtain ⟨tx, index⟩ := item
    rw [keepValid] at aborted
    have later (inRest : keepValid hashers params environment view povDaaScore flags rest = none) :
        ∃ other ∈ ((tx, index) :: rest).map Prod.fst,
          validateTransactionInUtxoContext hashers params environment
            other view povDaaScore flags = .error .panicked := by
      exact exists_mem_cons_of_exists (ih inRest)
    cases outcome : validateTransactionInUtxoContext hashers params
      environment tx view povDaaScore flags with
    | error failure =>
      rw [outcome] at aborted
      cases failure with
      | panicked => exact ⟨tx, mem_cons_self, outcome⟩
      | raised _ => exact later aborted
    | ok validated =>
      rw [outcome] at aborted
      refine later ?_
      cases others : keepValid hashers params environment view povDaaScore flags rest with
      | none => rfl
      | some kept =>
        rw [others] at aborted
        cases aborted

theorem validateTransactionsInParallel_eq_none {txs : List Transaction} (aborted :
      validateTransactionsInParallel hashers params environment txs view povDaaScore flags = none) :
    ∃ tx ∈ txs.tail, validateTransactionInUtxoContext hashers params environment tx view
      povDaaScore flags = .error .panicked := by
  have panics := keepValid_eq_none aborted
  rwa [zipIdx_tail_map_fst] at panics

variable {context : UtxoProcessingContext} (fits : params.CountsFitWords)
  (collisionFree : hashers.CollisionFree allTxs)

include fits collisionFree

theorem Processing.mergeBlock_aborts {merged : Block × TxValidationFlags}
    (processing : Processing hashers params base history context.mergesetDiff)
    (known : ∀ tx ∈ history, tx ∈ allTxs) (shape : BlockShape params.transactionValidator merged.1)
    (blockKnown : ∀ tx ∈ merged.1.transactions, tx ∈ allTxs) (readable : merged.1.Readable params)
    (aborted : mergeBlock hashers params base.lookup povDaaScore context merged = none) :
    MergeAborts hashers params povDaaScore merged.1 := by
  cases kept : validateTransactionsInParallel hashers params
    context.environment merged.1.transactions
    (context.mergesetDiff.compose base.lookup) povDaaScore merged.2 with
  | none =>
    obtain ⟨tx, mem, panicked⟩ := validateTransactionsInParallel_eq_none kept
    exact .validation mem panicked
  | some validated =>
    refine .fees kept ?_
    by_contra fitting
    obtain ⟨next, ran, -⟩ := processing.applyValidated fits
      collisionFree known shape blockKnown kept
    have summed := checkedSum_eq_some_iff.mpr (UInt64.toNat_ofNat_of_lt (Nat.not_le.mp fitting))
    obtain ⟨coinbase, data, first, parsed⟩ := readable
    simp only [mergeBlock, mergeValidated, kept, ran, summed, blockRewardData, first,
      parsed, bind_eq_bind, bind_some] at aborted
    cases aborted

variable {selectedParent : Block}

/-- The same for a list of blocks with full checks. The induction is on the
list; the blocks before the aborting one keep the calculation on its way. -/
theorem Merging.mergeBlocks_aborts {start : UtxoDiff} {blocks : List Block}
    (merging : Merging hashers params base povDaaScore selectedParent start history context)
    (known : ∀ tx ∈ history, tx ∈ allTxs)
    (shapes : ∀ block ∈ blocks, BlockShape params.transactionValidator block)
    (blocksKnown : ∀ block ∈ blocks, ∀ tx ∈ block.transactions, tx ∈ allTxs)
    (readable : ∀ block ∈ blocks, block.Readable params)
    (aborted : (blocks.map fun block => (block, TxValidationFlags.full)).foldlM
      (Sophis.mergeBlock hashers params base.lookup povDaaScore) context = none) :
    ∃ block ∈ blocks, MergeAborts hashers params povDaaScore block := by
  induction blocks generalizing context history with
  | nil => cases aborted
  | cons block rest ih =>
    have isKnown := blocksKnown block mem_cons_self
    have shape := shapes block mem_cons_self
    rw [map_cons, foldlM_cons] at aborted
    cases step : Sophis.mergeBlock hashers params base.lookup
      povDaaScore context (block, .full) with
    | none =>
      exact ⟨block, mem_cons_self, merging.processing.mergeBlock_aborts fits collisionFree known
        shape isKnown (readable block mem_cons_self) step⟩
    | some mid =>
      rw [step] at aborted
      obtain ⟨ran, own, merged, -⟩ := merging.mergeBlock fits
        collisionFree known shape isKnown (.inr rfl) step
      exact exists_mem_cons_of_exists (ih merged
        (known_of_appliedBefore known fun accepted mem =>
          isKnown _ (mem_of_mem_tail (own accepted mem)))
        (forall_mem_cons.mp shapes).2
        (forall_mem_cons.mp blocksKnown).2
        (forall_mem_cons.mp readable).2
        aborted)

/-- The whole calculation on the unspent outputs of applied transactions. -/
theorem LedgerInvariant.calculateUtxoState_aborts
    (invariant : LedgerInvariant hashers params history base)
    (known : ∀ tx ∈ history, tx ∈ allTxs) {mergeset : List Block}
    (shapes : ∀ block ∈ selectedParent :: mergeset, BlockShape params.transactionValidator block)
    (blocksKnown : ∀ block ∈ selectedParent :: mergeset, ∀ tx ∈ block.transactions, tx ∈ allTxs)
    (readable : ∀ block ∈ selectedParent :: mergeset, block.Readable params)
    (below : CoinbasesBelow history selectedParent.header.blueScore.toNat)
    (aborted : Sophis.calculateUtxoState hashers params environment base.lookup
      povDaaScore selectedParent mergeset = none) :
    ∃ block ∈ selectedParent :: mergeset, MergeAborts hashers params povDaaScore block := by
  have parentReadable := readable selectedParent mem_cons_self
  have parentKnown := blocksKnown selectedParent mem_cons_self
  have parentShape := shapes selectedParent mem_cons_self
  obtain ⟨coinbase, data, first, parsed⟩ := parentReadable
  have shape := (parentShape.coinbase coinbase first).1
  have isNew : ValidatedTransaction.newCoinbase coinbase = _ :=
    dif_pos ⟨shape.isCoinbase, shape.noInputs⟩
  obtain ⟨start, ran, -, -, knownBefore, begun⟩ :=
    invariant.startMerging fits collisionFree known parentShape parentKnown
      below first (blueScore_of_deserialized parsed).1 isNew povDaaScore
  simp only [Sophis.calculateUtxoState, first, isNew, ran, foldlM_cons,
    bind_eq_bind, bind_some] at aborted
  cases mergedParent : mergeBlock hashers params base.lookup povDaaScore
    ⟨environment, start, [], []⟩ (selectedParent, .skipScriptChecks) with
  | none =>
    exact ⟨selectedParent, mem_cons_self,
      (begun environment).processing.mergeBlock_aborts fits collisionFree knownBefore parentShape
        parentKnown (readable _ mem_cons_self) mergedParent⟩
  | some mid =>
    obtain ⟨ran, own, merged, -⟩ := (begun environment).mergeBlock fits collisionFree
      knownBefore parentShape parentKnown (.inl ⟨rfl, rfl⟩) mergedParent
    rw [mergedParent, bind_some] at aborted
    exact exists_mem_cons_of_exists (merged.mergeBlocks_aborts fits collisionFree
      (known_of_appliedBefore knownBefore fun accepted mem =>
        parentKnown _ (mem_of_mem_tail (own accepted mem)))
      (forall_mem_cons.mp shapes).2
      (forall_mem_cons.mp blocksKnown).2
      (forall_mem_cons.mp readable).2
      aborted)

end

variable {view : UtxoView} {povDaaScore : UInt64} {context : UtxoProcessingContext}

theorem mergesetRewards_of_mergeBlocks {merged : List (Block × TxValidationFlags)}
    {next : UtxoProcessingContext}
    (folded : merged.foldlM (mergeBlock hashers params view povDaaScore) context = some next) :
    next.mergesetRewards.map Prod.fst = context.mergesetRewards.map Prod.fst ++
      merged.map fun block => block.1.header.hash := by
  induction merged generalizing context with
  | nil =>
    cases folded
    rw [map_nil, append_nil]
  | cons first rest ih =>
    rw [foldlM_cons, bind_eq_bind, bind_eq_some_iff] at folded
    obtain ⟨mid, step, ran⟩ := folded
    simp only [mergeBlock, mergeValidated, bind_eq_bind, bind_eq_some_iff] at step
    obtain ⟨validated, -, diff, -, fees, -, reward, -, eq⟩ := step
    cases eq
    rw [ih ran, map_append, map_cons, append_assoc]
    rfl

theorem reward_isSome_of_calculateUtxoState {environment : ValidationEnvironment}
    {selectedParent : Block} {mergeset : List Block}
    (ran : calculateUtxoState hashers params environment view povDaaScore
      selectedParent mergeset = some context) {block : Block}
    (mem : block ∈ selectedParent :: mergeset) :
    (context.reward block.header.hash).isSome = true := by
  simp only [calculateUtxoState, bind_eq_bind, bind_eq_some_iff] at ran
  obtain ⟨-, -, -, -, start, -, folded⟩ := ran
  have entries := mergesetRewards_of_mergeBlocks folded
  have listed : block.header.hash ∈ context.mergesetRewards.map Prod.fst := by
    rw [entries]
    rcases mem_cons.mp mem with rfl | inMergeset
    · exact mem_append_right _ mem_cons_self
    · refine mem_append_right _ (mem_cons_of_mem _ ?_)
      rw [List.map_map]
      exact List.mem_map_of_mem (f := fun other => other.header.hash) inMergeset
  obtain ⟨entry, isEntry, eq⟩ := List.mem_map.mp listed
  rw [UtxoProcessingContext.reward, isSome_map, find?_isSome]
  exact ⟨entry, isEntry, decide_eq_true eq⟩

variable {ghostdag : GhostdagData} {rewards : Hash → Option BlockRewardData}
  {reward : Hash → BlockRewardData}

theorem expectedCoinbaseTransaction_exists {manager : CoinbaseManager} {minerData : MinerData}
    (short : minerData.scriptPublicKey.script.length ≤
      manager.coinbasePayloadScriptPublicKeyMaxLen.toNat)
    (got : ∀ block ∈ ghostdag.mergesetBlues ++ ghostdag.mergesetReds,
      rewards block = some (reward block))
    (fits : ((ghostdag.mergesetBlues ++ ghostdag.mergesetReds).map fun block =>
      exactReward (reward block)).sum < 2 ^ 64) (daaScore : UInt64) (nonDaa : List Hash) :
    ∃ template, manager.expectedCoinbaseTransaction daaScore minerData ghostdag
      rewards nonDaa = .ok template := by
  rw [map_append, sum_append] at fits
  let share : Hash → Nat := fun red =>
    if nonDaa.contains red then
      (reward red).totalFees.toNat
    else
      exactReward (reward red)
  have bluesFit : ((ghostdag.rewardedBlues nonDaa).map fun block =>
      exactReward (reward block)).sum < 2 ^ 64 := by
    have rewarded : (ghostdag.rewardedBlues nonDaa).Sublist ghostdag.mergesetBlues := filter_sublist
    have fewer := (rewarded.map fun block =>
      exactReward (reward block)).sum_le_sum fun _ _ => Nat.zero_le _
    omega
  have redsFit : (ghostdag.mergesetReds.map share).sum < 2 ^ 64 := by
    have smaller : (ghostdag.mergesetReds.map share).sum ≤ (ghostdag.mergesetReds.map fun red =>
        exactReward (reward red)).sum := by
      refine sum_le_sum fun red _ => ?_
      simp only [share, exactReward]
      split <;> omega
    omega
  have isFound : ∀ blue ∈ ghostdag.rewardedBlues nonDaa, rewards blue = some (reward blue) :=
    fun blue mem => got blue (mem_append_left _ (mem_of_mem_filter mem))
  obtain ⟨blues, bluesBuilt⟩ := blueOutputs_exists isFound bluesFit
  have redBuilt := (redReward_eq_ok_iff share (fun red mem => got red (mem_append_right _ mem))
    (fun red _ => redShare_eq_some_iff nonDaa red _) 0
    (UInt64.ofNat (ghostdag.mergesetReds.map share).sum)).mpr (by
      rw [UInt64.toNat_ofNat', Nat.mod_eq_of_lt redsFit, UInt64.toNat_zero, Nat.zero_add])
  obtain ⟨payload, written⟩ := serializeCoinbasePayload_exists short
    ghostdag.blueScore (manager.calcBlockSubsidy daaScore)
  simp only [CoinbaseManager.expectedCoinbaseTransaction, bluesBuilt,
    redBuilt, raising, written, Except.mapError, ok_bind]
  exact ⟨_, rfl⟩

/-- The verification of a coinbase aborts only on overflowing rewards. -/
theorem verifyCoinbaseTransaction_aborts {coinbase : Transaction} {data : CoinbaseData} (parsed :
      (CoinbaseManager.ofParams params).deserializeCoinbasePayload coinbase.payload = .ok data)
    (got : ∀ block ∈ ghostdag.mergesetBlues ++ ghostdag.mergesetReds,
      rewards block = some (reward block)) {daaScore : UInt64} {nonDaa : List Hash}
    (panicked : verifyCoinbaseTransaction hashers params coinbase daaScore ghostdag
      rewards nonDaa = .error .panicked) :
    2 ^ 64 ≤ ((ghostdag.mergesetBlues ++ ghostdag.mergesetReds).map fun block =>
      exactReward (reward block)).sum := by
  by_contra fitting
  obtain ⟨template, built⟩ := expectedCoinbaseTransaction_exists
    (deserializeCoinbasePayload_script_le parsed) got (Nat.not_le.mp fitting) daaScore nonDaa
  simp only [verifyCoinbaseTransaction, parsed, built, Except.toOption,
    orPanic, ok_bind, reject] at panicked
  split at panicked
  · cases panicked
  · cases panicked

end Sophis
