import Sophis.UtxoValidation

namespace Sophis

open ByteCodec ExceptLoop OracleProgram

/-!
# Who may spend an output

Each allocated script version is meant to have a program that authorises a
spend: the script engine, the contract, the lock script of a token, or the
withdrawal rule of the bridge. The validator dispatches on the version.
-/

/-- The withdrawal contract of the bridge, which is switched off: it looks at
nothing and rejects every withdrawal. -/
def bridgeWithdrawal (_ : ExecutionContext) : Bool := false

/-- A program bound to the entry behind an input approved the spend. -/
inductive Authorised (hashers : Hashers) (verify : SigCheck → Bool)
    (svm : Option SvmContext) (populated : PopulatedTransaction)
    (povDaaScore : UInt64) (index : Fin populated.tx.inputs.length) :
    Prop where
  | script
    (version : (populated.populatedInput index).2.scriptPublicKey.version = scriptVersionStandard)
    (approved : (executeInput hashers (.txInput populated index (populated.populatedInput index).2)
      (populated.tx.inputs.get index).signatureScript
      (populated.populatedInput index).2.scriptPublicKey.script
      (populated.tx.inputs.get index).sigOpCount).run.evaluate verify = .ok ())
  | contract
    (version : (populated.populatedInput index).2.scriptPublicKey.version = scriptVersionContract)
    (context : SvmContext)
    (data : ContractUtxoData)
    (wasm : List UInt8)
    (installed : svm = some context)
    (decoded : ContractUtxoData.tryFromSlice
      (populated.populatedInput index).2.scriptPublicKey.script = .ok data)
    (deployed : context.store data.contractId = some wasm)
    (approved : context.runContract hashers populated povDaaScore data.manifest
      data.contractId wasm = .ok true)
  | tokenLock
    (version : (populated.populatedInput index).2.scriptPublicKey.version = scriptVersionToken)
    (data : NativeTokenUtxoData)
    (decoded : NativeTokenUtxoData.tryFromSlice
      (populated.populatedInput index).2.scriptPublicKey.script = .ok data)
    (approved : (executeInput hashers (.txInput populated index
        (data.lockEntry (populated.populatedInput index).2))
      (populated.tx.inputs.get index).signatureScript data.lockScript
      (populated.tx.inputs.get index).sigOpCount).run.evaluate verify = .ok ())
  | bridge
    (version : (populated.populatedInput index).2.scriptPublicKey.version = bridgeVaultVersion ∨
      (populated.populatedInput index).2.scriptPublicKey.version = bridgeClaimVersion)
    (context : ExecutionContext)
    (approved : bridgeWithdrawal context = true)

variable {hashers : Hashers} {verify : SigCheck → Bool} {populated : PopulatedTransaction}
  {index : Fin populated.tx.inputs.length}

theorem evaluate_runScriptEngine_standard {entry : UtxoEntry}
    (standard : entry.scriptPublicKey.version = scriptVersionStandard) :
    (runScriptEngine hashers populated index entry).run.evaluate verify = .ok () ↔
      (executeInput hashers (.txInput populated index entry)
        (populated.tx.inputs.get index).signatureScript entry.scriptPublicKey.script
        (populated.tx.inputs.get index).sigOpCount).run.evaluate verify = .ok () := by
  have known : ¬ entry.scriptPublicKey.version > maxEngineScriptVersion := by
    rw [standard]
    decide
  rw [runScriptEngine, evaluate_mapFailure_eq_ok, execute, if_neg known]

/-- Both checkers run the check of every input. -/
theorem evaluate_checkScriptsWithSvm_eq_ok_iff (scheduling : Scheduling) (svm : Option SvmContext)
    (populated : PopulatedTransaction) (povDaaScore : UInt64) :
    (checkScriptsWithSvm hashers scheduling svm populated
        povDaaScore).run.evaluate verify = .ok () ↔
      ∀ index, (checkInputScript hashers svm populated povDaaScore
        index).run.evaluate verify = .ok () := by
  have every : (∀ program ∈ inputScriptChecks hashers svm populated povDaaScore,
        program.run.evaluate verify = .ok ()) ↔
      ∀ index, (checkInputScript hashers svm populated povDaaScore
        index).run.evaluate verify = .ok () := by
    simp [inputScriptChecks]
  rw [← every, checkScriptsWithSvm]
  split
  · exact evaluate_runConcurrently_eq_ok_iff _ _ _ _
  · exact evaluate_runEach_eq_ok_iff _ _

variable {svm : Option SvmContext} {povDaaScore : UInt64}

theorem authorised_of_checkInputScript (checked :
      (checkInputScript hashers svm populated povDaaScore index).run.evaluate verify = .ok ())
    (known : (populated.populatedInput index).2.scriptPublicKey.version ≤ scriptVersionToken) :
    Authorised hashers verify svm populated povDaaScore index := by
  unfold checkInputScript at checked
  by_cases contract : (populated.populatedInput index).2.scriptPublicKey.version =
    scriptVersionContract
  · rw [if_pos contract, evaluate_ofResult] at checked
    cases installed : svm with
    | none => simp [checkContractInput, installed] at checked
    | some context =>
      simp only [checkContractInput, installed, bind_eq_ok, mapError_eq_ok,
        requireApproval_eq_ok_iff] at checked
      obtain ⟨data, read, wasm, deployed, approved⟩ := checked
      exact .contract contract context data wasm rfl read deployed approved
  · rw [if_neg contract] at checked
    by_cases token : (populated.populatedInput index).2.scriptPublicKey.version = scriptVersionToken
    · rw [if_pos token, checkTokenUtxoSpend, evaluate_bind_eq_ok] at checked
      obtain ⟨data, read, rest⟩ := checked
      rw [evaluate_ofResult, mapError_eq_ok] at read
      rw [evaluate_bind_eq_ok] at rest
      obtain ⟨⟨⟩, unlocked, -⟩ := rest
      exact .tokenLock token data read ((evaluate_runScriptEngine_standard rfl).mp unlocked)
    · rw [if_neg token] at checked
      have standard : (populated.populatedInput index).2.scriptPublicKey.version =
          scriptVersionStandard := by
        simp only [scriptVersionContract, scriptVersionToken, scriptVersionStandard,
          UInt16.le_iff_toNat_le, ← UInt16.toNat_inj, UInt16.reduceToNat] at contract token known ⊢
        omega
      exact .script standard ((evaluate_runScriptEngine_standard standard).mp checked)

theorem Authorised.version_le
    (authorised : Authorised hashers verify svm populated povDaaScore index) :
    (populated.populatedInput index).2.scriptPublicKey.version ≤ scriptVersionToken := by
  cases authorised with
  | script version | contract version | tokenLock version =>
    rw [version]
    decide
  | bridge _ _ approved => cases approved

theorem checkInputScript_of_validated {validator : ContextualValidator} {scheduling : Scheduling}
    {verify : SigCheck → Bool} {populated : PopulatedTransaction} {povDaaScore fee : UInt64}
    {threshold : Option (UInt64 × Float)}
    (validated : (validatePopulatedTransactionAndGetFee validator scheduling populated
      povDaaScore .full threshold).run.evaluate verify = .ok fee)
    (index : Fin populated.tx.inputs.length) :
    (checkInputScript validator.hashers validator.svm populated povDaaScore
      index).run.evaluate verify = .ok () := by
  simp only [validatePopulatedTransactionAndGetFee, checkScriptsAndTokens,
    evaluate_bind_eq_ok, evaluate_mapFailure_eq_ok] at validated
  obtain ⟨-, -, ⟨⟩, ⟨⟨⟩, scripts, -⟩, -⟩ := validated
  exact (evaluate_checkScriptsWithSvm_eq_ok_iff scheduling validator.svm
    populated povDaaScore).mp scripts index

/-- In an accepted transaction every input of an allocated version that moves
value was authorised exactly when none of them spends a vault, claim or carrier
version. -/
theorem accepted_spends_authorised_iff (validator : ContextualValidator) (scheduling : Scheduling)
    (verify : SigCheck → Bool) (populated : PopulatedTransaction) (povDaaScore fee : UInt64)
    (threshold : Option (UInt64 × Float))
    (validated : (validatePopulatedTransactionAndGetFee validator scheduling populated
      povDaaScore .full threshold).run.evaluate verify = .ok fee) :
    (∀ index, 0 < (populated.populatedInput index).2.amount →
        (populated.populatedInput index).2.scriptPublicKey.version ≤ maxScriptPublicKeyVersion →
          Authorised validator.hashers verify validator.svm populated povDaaScore index) ↔
      ∀ index, 0 < (populated.populatedInput index).2.amount →
        (populated.populatedInput index).2.scriptPublicKey.version ≤ maxScriptPublicKeyVersion →
          (populated.populatedInput index).2.scriptPublicKey.version ≤ scriptVersionToken := by
  constructor
  · intro authorised index pos allocated
    exact (authorised index pos allocated).version_le
  · intro known index pos allocated
    exact authorised_of_checkInputScript (checkInputScript_of_validated validated index)
      (known index pos allocated)

/-- The spend of an output that only needs a true top of stack meets the
condition, and its script was run. -/
theorem unsignedSpend_authorised :
    (validatePopulatedTransactionAndGetFee (mainnetParams.contextualValidator .zero none) .inOrder
          (unsignedSpend ⟨0, [0x51]⟩) 1 .full none).run.evaluate (fun _ => false) =
        .ok 1000 ∧
      Authorised .zero (fun _ => false) none (unsignedSpend ⟨0, [0x51]⟩) 1 ⟨0, Nat.one_pos⟩ := by
  have validated : (validatePopulatedTransactionAndGetFee
        (mainnetParams.contextualValidator .zero none) .inOrder
        (unsignedSpend ⟨0, [0x51]⟩) 1 .full none).run.evaluate (fun _ => false) =
      .ok 1000 := by
    decide +kernel
  refine ⟨validated, ?_⟩
  refine (accepted_spends_authorised_iff _ _ _ _ _ _ _ validated).mpr ?_ _ (by decide) (by decide)
  decide +kernel

/-- A bridge deposit of ten thousand coins to an address of the second
layer. -/
def vaultDeposit : ScriptPublicKey where
  version := bridgeVaultVersion
  script := List.replicate 48 7 ++ leBytes 8 1000000000000

/-- Anyone can take a deposit out of the vault: a transaction without a
signature script is accepted although no program authorised it. -/
theorem vaultDeposit_spent_unauthorised :
    (validatePopulatedTransactionAndGetFee (mainnetParams.contextualValidator .zero none) .inOrder
          (unsignedSpend vaultDeposit) 1 .full none).run.evaluate (fun _ => false) =
        .ok 1000 ∧
      ¬ ∀ index, 0 < ((unsignedSpend vaultDeposit).populatedInput index).2.amount →
        ((unsignedSpend vaultDeposit).populatedInput
            index).2.scriptPublicKey.version ≤ maxScriptPublicKeyVersion →
          Authorised .zero (fun _ => false) none (unsignedSpend vaultDeposit) 1 index := by
  refine ⟨by decide +kernel, fun authorised => ?_⟩
  have known := (authorised ⟨0, by decide⟩ (by decide) (by decide)).version_le
  revert known
  decide

end Sophis
