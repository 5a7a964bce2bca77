import Sophis.SpendAuthorisation

namespace Sophis

open ExceptLoop List MachineWord OracleProgram

/-!
# The contract executions of a transaction

Which deployed code the script and token checks run for a transaction: the
contract behind a contract input, the transfer policy of a token input, and the
minting policy of a token whose amounts differ. Everything else these checks
look at is the transaction and its entries, so the point of view enters a full
validation through the executions alone.
-/

/-- A contract that a transaction runs. -/
structure SvmRun where
  manifest : ContractManifest
  contractId : ContractId
  deriving Repr, DecidableEq

def SvmRun.ofPolicy (policy : ContractId) : SvmRun := ⟨policyManifest policy, policy⟩

def UtxoEntry.svmRun? (entry : UtxoEntry) : Option SvmRun :=
  if entry.scriptPublicKey.version = scriptVersionContract then
    (ContractUtxoData.tryFromSlice entry.scriptPublicKey.script).toOption.map fun data =>
      ⟨data.manifest, data.contractId⟩
  else if entry.scriptPublicKey.version = scriptVersionToken then
    (NativeTokenUtxoData.tryFromSlice entry.scriptPublicKey.script).toOption.bind fun data =>
      data.transferPolicyId.map SvmRun.ofPolicy
  else
    none

def PopulatedTransaction.mintRuns (populated : PopulatedTransaction) : List SvmRun :=
  match inputTokens populated, outputTokens populated.tx with
  | .ok inputs, .ok outputs =>
    ((inputs.keys ++ outputs.keys).dedup.filter fun tokenId =>
      inputs.amount tokenId ≠ outputs.amount tokenId).map SvmRun.ofPolicy
  | _, _ => []

/-- All executions that a full validation makes: one for each input that asks
for it, in the order of the inputs, then those for the tokens. -/
def PopulatedTransaction.svmRuns (populated : PopulatedTransaction) : List SvmRun :=
  populated.entries.filterMap UtxoEntry.svmRun? ++ populated.mintRuns

def SvmRun.Approved (hashers : Hashers) (svm : Option SvmContext)
    (populated : PopulatedTransaction) (povDaaScore : UInt64)
    (run : SvmRun) : Prop :=
  ∃ context, svm = some context ∧ ∃ wasm, context.store run.contractId = some wasm ∧
    context.runContract hashers populated povDaaScore run.manifest run.contractId wasm = .ok true

variable {hashers : Hashers} {verify : SigCheck → Bool}
  {svm : Option SvmContext} {populated : PopulatedTransaction}
  {povDaaScore : UInt64}

def InputScriptPasses (hashers : Hashers) (verify : SigCheck → Bool)
    (populated : PopulatedTransaction)
    (index : Fin populated.tx.inputs.length) : Prop :=
  let entry := (populated.populatedInput index).2
  if entry.scriptPublicKey.version = scriptVersionContract then
    ∃ data, ContractUtxoData.tryFromSlice entry.scriptPublicKey.script = .ok data
  else if entry.scriptPublicKey.version = scriptVersionToken then
    ∃ data, NativeTokenUtxoData.tryFromSlice entry.scriptPublicKey.script = .ok data ∧
      (runScriptEngine hashers populated index (data.lockEntry entry)).run.evaluate verify = .ok ()
  else
    (runScriptEngine hashers populated index entry).run.evaluate verify = .ok ()

/-- What the script and token checks ask besides the executions. -/
structure PopulatedTransaction.ScriptsPass (hashers : Hashers)
    (verify : SigCheck → Bool) (populated : PopulatedTransaction) :
    Prop where
  inputs : ∀ index, InputScriptPasses hashers verify populated index
  inputTokens_read : ∃ totals, inputTokens populated = .ok totals
  outputTokens_read : ∃ totals, outputTokens populated.tx = .ok totals

theorem requireApproval_iff_approved {context : SvmContext} {manifest : ContractManifest}
    {contractId : ContractId} {notDeployed rejected : TxRuleError} {failed : String → TxRuleError} :
    requireApproval hashers context populated povDaaScore manifest
        contractId notDeployed failed rejected = .ok () ↔
      SvmRun.Approved hashers (some context) populated povDaaScore ⟨manifest, contractId⟩ := by
  rw [requireApproval_eq_ok_iff, SvmRun.Approved]
  constructor
  · intro approved
    exact ⟨context, rfl, approved⟩
  · rintro ⟨other, eq, approved⟩
    cases eq
    exact approved

theorem not_approved_none (run : SvmRun) : ¬ run.Approved hashers none populated povDaaScore := by
  rintro ⟨context, absent, -⟩
  cases absent

variable {entry : UtxoEntry}

theorem checkContractInput_eq_ok_iff
    (contract : entry.scriptPublicKey.version = scriptVersionContract) :
    checkContractInput hashers svm populated entry povDaaScore = .ok () ↔ (∃ data,
      ContractUtxoData.tryFromSlice entry.scriptPublicKey.script = .ok data) ∧
      ∀ run, entry.svmRun? = some run → run.Approved hashers svm populated povDaaScore := by
  rw [UtxoEntry.svmRun?, if_pos contract]
  cases read : ContractUtxoData.tryFromSlice entry.scriptPublicKey.script with
  | error error => cases svm <;> simp [checkContractInput, read, Except.mapError]
  | ok data =>
    cases svm with
    | none => simp [checkContractInput, Except.toOption, not_approved_none]
    | some context =>
      simp [checkContractInput, read, Except.mapError,
        Except.toOption, requireApproval_iff_approved]

theorem checkTokenUtxoSpend_eq_ok_iff {index : Fin populated.tx.inputs.length}
    (notContract : entry.scriptPublicKey.version ≠ scriptVersionContract)
    (token : entry.scriptPublicKey.version = scriptVersionToken) :
    (checkTokenUtxoSpend hashers svm populated index entry
        povDaaScore).run.evaluate verify = .ok () ↔
      (∃ data, NativeTokenUtxoData.tryFromSlice entry.scriptPublicKey.script = .ok data ∧
          (runScriptEngine hashers populated index
            (data.lockEntry entry)).run.evaluate verify = .ok ()) ∧
        ∀ run, entry.svmRun? = some run → run.Approved hashers svm populated povDaaScore := by
  rw [UtxoEntry.svmRun?, if_neg notContract, if_pos token, checkTokenUtxoSpend]
  simp only [evaluate_bind_eq_ok, evaluate_ofResult, mapError_eq_ok, check_eq_ok]
  cases read : NativeTokenUtxoData.tryFromSlice entry.scriptPublicKey.script with
  | error error => simp
  | ok data =>
    simp only [Except.ok.injEq, exists_eq_left', Except.toOption, Option.bind_some]
    refine and_congr_right fun _ => ?_
    rw [checkTransferPolicy]
    cases data.transferPolicyId with
    | none => simp
    | some policy =>
      cases svm with
      | none => simp [not_approved_none]
      | some context => simp [requireApproval_iff_approved, SvmRun.ofPolicy]

theorem checkInputScript_eq_ok_iff (index : Fin populated.tx.inputs.length) :
    (checkInputScript hashers svm populated povDaaScore index).run.evaluate verify = .ok () ↔
      InputScriptPasses hashers verify populated index ∧
        ∀ run, (populated.populatedInput index).2.svmRun? = some run →
          run.Approved hashers svm populated povDaaScore := by
  unfold checkInputScript InputScriptPasses
  by_cases contract : (populated.populatedInput index).2.scriptPublicKey.version =
    scriptVersionContract
  · simp only [if_pos contract, evaluate_ofResult]
    exact checkContractInput_eq_ok_iff contract
  · by_cases token : (populated.populatedInput index).2.scriptPublicKey.version = scriptVersionToken
    · simp only [if_neg contract, if_pos token]
      exact checkTokenUtxoSpend_eq_ok_iff contract token
    · simp [UtxoEntry.svmRun?, if_neg contract, if_neg token]

theorem checkTokenConservation_eq_ok_iff (scheduling : Scheduling) :
    checkTokenConservation hashers scheduling svm populated povDaaScore = .ok () ↔
      ((∃ totals, inputTokens populated = .ok totals) ∧
        ∃ totals, outputTokens populated.tx = .ok totals) ∧
        ∀ run ∈ populated.mintRuns, run.Approved hashers svm populated povDaaScore := by
  rw [checkTokenConservation, PopulatedTransaction.mintRuns]
  cases inputTokens populated with
  | error error => simp
  | ok inputs =>
    cases outputTokens populated.tx with
    | error error => simp
    | ok outputs =>
      have each : ∀ (index : Nat) tokenId, checkTokenDelta hashers svm populated povDaaScore inputs
            outputs tokenId = .ok () ↔
          (inputs.amount tokenId ≠ outputs.amount tokenId →
            (SvmRun.ofPolicy tokenId).Approved hashers svm populated povDaaScore) := by
        intro index tokenId
        unfold checkTokenDelta
        by_cases eq : inputs.amount tokenId = outputs.amount tokenId
        · simp [eq]
        · cases svm with
          | none => simp [eq, not_approved_none]
          | some context => simp [eq, requireApproval_iff_approved, SvmRun.ofPolicy]
      simp only [ok_bind, forEach_eq_ok_iff_forall each, (scheduling.tokenOrder_perm _).mem_iff,
        Except.ok.injEq, exists_eq', and_self, true_and, List.mem_map, mem_filter,
        decide_eq_true_eq]
      constructor
      · rintro approved run ⟨tokenId, ⟨mem, ne⟩, rfl⟩
        exact approved tokenId mem ne
      · intro approved tokenId mem ne
        exact approved _ ⟨tokenId, ⟨mem, ne⟩, rfl⟩

theorem PopulatedTransaction.forall_entries_iff (populated : PopulatedTransaction)
    (property : UtxoEntry → Prop) :
    (∀ index, property (populated.populatedInput index).2) ↔
      ∀ entry ∈ populated.entries, property entry := by
  constructor
  · intro holds entry mem
    obtain ⟨index, rfl⟩ := mem_iff_get.mp mem
    exact holds (index.cast populated.length_entries)
  · intro holds index
    exact holds _ (List.get_mem _ _)

variable (validator : ContextualValidator) (scheduling : Scheduling)
include validator scheduling

theorem checkScriptsAndTokens_eq_ok_iff : (checkScriptsAndTokens validator scheduling populated
      povDaaScore).run.evaluate verify = .ok () ↔
    populated.ScriptsPass validator.hashers verify ∧ ∀ run ∈ populated.svmRuns,
      run.Approved validator.hashers validator.svm populated povDaaScore := by
  have entries := populated.forall_entries_iff fun entry =>
      ∀ run, entry.svmRun? = some run →
        run.Approved validator.hashers validator.svm populated povDaaScore
  rw [checkScriptsAndTokens, evaluate_bind_eq_ok, check_eq_ok,
    evaluate_mapFailure_eq_ok, evaluate_checkScriptsWithSvm_eq_ok_iff,
    evaluate_ofResult, raising_eq_ok, checkTokenConservation_eq_ok_iff]
  simp only [checkInputScript_eq_ok_iff, forall_and, entries]
  constructor
  · rintro ⟨⟨inputs, spends⟩, ⟨inputTotals, outputTotals⟩, mints⟩
    refine ⟨⟨inputs, inputTotals, outputTotals⟩, fun run mem => ?_⟩
    rcases mem_append.mp mem with spend | mint
    · obtain ⟨entry, isEntry, asks⟩ := mem_filterMap.mp spend
      exact spends entry isEntry run asks
    · exact mints run mint
  · rintro ⟨passes, approved⟩
    refine ⟨⟨passes.inputs, fun entry isEntry run asks => ?_⟩,
      ⟨passes.inputTokens_read, passes.outputTokens_read⟩,
      fun run mint => approved run (mem_append_right _ mint)⟩
    exact approved run (mem_append_left _ (mem_filterMap.mpr ⟨entry, isEntry, asks⟩))

/-- A full validation is a validation without scripts, what the scripts ask of
the transaction, and the approval of all its executions. -/
theorem validateFull_eq_ok_iff (threshold : Option (UInt64 × Float)) (fee : UInt64) :
    (validatePopulatedTransactionAndGetFee validator scheduling populated
        povDaaScore .full threshold).run.evaluate verify = .ok fee ↔
      (validatePopulatedTransactionAndGetFee validator scheduling populated
          povDaaScore .skipScriptChecks threshold).run.evaluate verify =
        .ok fee ∧
      populated.ScriptsPass validator.hashers verify ∧ ∀ run ∈ populated.svmRuns,
        run.Approved validator.hashers validator.svm populated povDaaScore := by
  have amounts : checkAmountsAndContext validator populated povDaaScore .full threshold =
      checkAmountsAndContext validator populated povDaaScore .skipScriptChecks threshold :=
    rfl
  simp only [validatePopulatedTransactionAndGetFee, evaluate_bind_eq_ok,
    evaluate_ofResult, check_eq_ok, evaluate_pure_fallible, amounts,
    checkScriptsAndTokens_eq_ok_iff, true_and, exists_const]
  constructor
  · rintro ⟨charged, passed, scripts, eq⟩
    exact ⟨⟨charged, passed, eq⟩, scripts⟩
  · rintro ⟨⟨charged, passed, eq⟩, scripts⟩
    exact ⟨charged, passed, scripts, eq⟩

end Sophis
