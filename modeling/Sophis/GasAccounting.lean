import Mathlib.Algebra.Order.BigOperators.Group.List
import Mathlib.Algebra.Order.Group.Nat
import Sophis.ContractMachine

namespace Sophis

open ByteCodec List MeteredProgram OracleProgram

/-!
# The gas of a transaction

The executions of a transaction do not share a meter, the fuel and the charges
of one execution are metered apart, and a refused charge does not end an
execution. The gas of a transaction is therefore bounded by the limit of one
execution only when its programs ask for no more than that in all.
-/

variable (machine : SvmMachine) (hashers : Hashers) (context : SvmContext)
  (populated : PopulatedTransaction) (povDaaScore : UInt64)

/-- The execution of deployed code with a meter for its host calls, where the
code is deployed and loads. -/
def SvmMachine.execution (meter : Meter) (run : SvmRun) :
    Option (Except String Int32 × Account (List BufferedEvent)) := do
  let wasm ← context.store run.contractId
  let guest ← (machine.load run.contractId wasm).toOption
  return machine.runGuest meter (context.executionContext hashers populated povDaaScore run.manifest
    run.contractId) defaultFuelBudget guest

def SvmMachine.accountGas (account : Account (List BufferedEvent)) : Nat :=
  (machine.fuelGas defaultFuelBudget account).toNat + grantedSum account.charges

def SvmMachine.gasUnder (meter : Meter) (run : SvmRun) : Nat :=
  match machine.execution hashers context populated povDaaScore meter run with
  | some (_, account) => machine.accountGas account
  | none => 0

def SvmMachine.gasSpent (run : SvmRun) : Nat :=
  machine.gasUnder hashers context populated povDaaScore (limited machine.gasConfig.maxGasPerTx) run

/-- The gas the same program would ask for if every charge were granted. -/
def SvmMachine.gasDemand (run : SvmRun) : Nat :=
  machine.gasUnder hashers context populated povDaaScore unlimited run

def SvmMachine.RefusesCharge (run : SvmRun) : Prop := ∃ returned account,
    machine.execution hashers context populated povDaaScore
        (limited machine.gasConfig.maxGasPerTx) run =
      some (returned, account) ∧
    ∃ charge ∈ account.charges, charge.granted = false

def SvmMachine.Approves (run : SvmRun) : Prop := ∃ account,
    machine.execution hashers context populated povDaaScore
        (limited machine.gasConfig.maxGasPerTx) run =
      some (.ok 1, account)

section

variable {machine : SvmMachine} {hashers : Hashers} {context : SvmContext}
  {populated : PopulatedTransaction} {povDaaScore : UInt64} {run : SvmRun}

theorem SvmMachine.approved_iff :
    run.Approved hashers (some (context.drivenBy machine)) populated povDaaScore ↔
      machine.Approves hashers context populated povDaaScore run := by
  have eq (manifest : ContractManifest) (contractId : ContractId) :
      (context.drivenBy machine).executionContext hashers populated
          povDaaScore manifest contractId =
        context.executionContext hashers populated povDaaScore manifest contractId :=
    rfl
  simp only [SvmRun.Approved, Option.some.injEq, exists_eq_left',
    SvmContext.runContract, eq, Approves, execution]
  simp only [SvmContext.drivenBy, executor, execute]
  cases context.store run.contractId with
  | none => simp
  | some wasm =>
    cases loaded : machine.load run.contractId wasm with
    | error error => simp [loaded, Except.toOption, Except.map, bind, Except.bind]
    | ok guest =>
      rcases ran : machine.runGuest (limited machine.gasConfig.maxGasPerTx)
        (context.executionContext hashers populated povDaaScore run.manifest run.contractId)
        defaultFuelBudget guest with ⟨returned, account⟩
      cases returned <;>
        simp [loaded, ran, Except.toOption, Except.map, bind, Except.bind, pure, Except.pure]

theorem SvmMachine.execution_cases :
    (∀ meter, machine.execution hashers context populated povDaaScore meter run = none) ∨
      ∃ guest, ∀ meter, machine.execution hashers context populated povDaaScore meter run =
        some (machine.runGuest meter (context.executionContext hashers populated povDaaScore
          run.manifest run.contractId) defaultFuelBudget guest) := by
  unfold execution
  cases context.store run.contractId with
  | none => exact .inl fun meter => rfl
  | some wasm =>
    cases loaded : machine.load run.contractId wasm with
    | error error => exact .inl fun meter => by simp [loaded, Except.toOption]
    | ok guest => exact .inr ⟨guest, fun meter => by simp [loaded, Except.toOption]⟩

theorem SvmMachine.gasDemand_eq_of_granted
    (granted : ¬ machine.RefusesCharge hashers context populated povDaaScore run) :
    machine.gasDemand hashers context populated povDaaScore run =
      machine.gasSpent hashers context populated povDaaScore run := by
  unfold gasDemand gasSpent gasUnder
  rcases machine.execution_cases with absent | ⟨guest, ran⟩
  · rw [absent, absent]
  · rw [ran, ran, runGuest, runGuest, Program.run_unlimited_of_granted]
    intro charge mem
    apply Bool.eq_true_of_not_eq_false
    intro refused
    exact granted ⟨_, _, ran _, charge, mem, refused⟩

theorem SvmMachine.granted_of_gasDemand_le (modest :
      machine.gasDemand hashers context populated povDaaScore run ≤
        machine.gasConfig.maxGasPerTx.toNat) :
    ¬ machine.RefusesCharge hashers context populated povDaaScore run := by
  rintro ⟨returned, account, executed, charge, mem, refused⟩
  rcases machine.execution_cases with absent | ⟨guest, ran⟩
  · rw [absent] at executed
    cases executed
  · unfold gasDemand gasUnder at modest
    rw [ran] at modest executed
    have within := (Nat.le_add_left _ _).trans modest
    have unnoticed : machine.runGuest (limited _) _ _ guest = _ :=
      Program.run_limited_of_le rfl within
    rw [unnoticed] at executed
    obtain ⟨-, rfl⟩ := Prod.ext_iff.mp (Option.some.inj executed)
    have granted := Program.granted_run_unlimited (by nofun) charge mem
    exact nomatch refused.symm.trans granted

/-- The executions of an accepted transaction stay within the gas limit, and
none approves after a refused charge, exactly when the programs together ask
for no more than the limit. -/
theorem gasBound_iff_demand (machine : SvmMachine) (context : SvmContext)
    (validator : ContextualValidator) (driven : validator.svm = some (context.drivenBy machine))
    (scheduling : Scheduling) (verify : SigCheck → Bool) (populated : PopulatedTransaction)
    (povDaaScore : UInt64) (threshold : Option (UInt64 × Float)) (fee : UInt64)
    (accepted : (validatePopulatedTransactionAndGetFee validator scheduling populated
      povDaaScore .full threshold).run.evaluate verify = .ok fee) :
    ((populated.svmRuns.map (machine.gasSpent validator.hashers context populated
        povDaaScore)).sum ≤ machine.gasConfig.maxGasPerTx.toNat ∧
      ∀ run ∈ populated.svmRuns,
        machine.RefusesCharge validator.hashers context populated povDaaScore run →
          ¬ machine.Approves validator.hashers context populated povDaaScore run) ↔
      (populated.svmRuns.map (machine.gasDemand validator.hashers context populated
        povDaaScore)).sum ≤ machine.gasConfig.maxGasPerTx.toNat := by
  have approved := ((validateFull_eq_ok_iff validator scheduling threshold fee).mp accepted).2.2
  rw [driven] at approved
  constructor
  · rintro ⟨bounded, refusals⟩
    have eq := map_congr_left fun run mem =>
      machine.gasDemand_eq_of_granted fun refused =>
        refusals run mem refused (machine.approved_iff.mp (approved run mem))
    rw [eq]
    exact bounded
  · intro modest
    have granted : ∀ run ∈ populated.svmRuns,
        ¬ machine.RefusesCharge validator.hashers context populated povDaaScore run := by
      intro run mem
      apply machine.granted_of_gasDemand_le
      exact (le_sum_of_mem (List.mem_map_of_mem mem)).trans modest
    have eq := map_congr_left fun run mem =>
      machine.gasDemand_eq_of_granted (granted run mem)
    rw [← eq]
    exact ⟨modest, fun run mem refused => absurd refused (granted run mem)⟩

end

/-!
A contract that is granted the proof check and hashing, and a transaction that
spends an output of it.
-/

def proofContractId : ContractId := FixedBytes.replicate 32 7

/-- An output of the contract: its identifier, no datum, and a manifest with
the capabilities to hash and to check proofs. -/
def proofContract : ScriptPublicKey where
  version := scriptVersionContract
  script := proofContractId.bytes ++ leBytes 4 0 ++ proofContractId.bytes ++
    [0] ++ leBytes 4 2 ++ [4, 5]

def proofSpend : PopulatedTransaction where
  tx := {
    version := txVersion
    inputs := [⟨⟨zeroHash, 0⟩, [], 0, 0⟩]
    outputs := [⟨36999000, ⟨0, [0x51]⟩⟩]
    lockTime := 0
    subnetworkId := subnetworkIdNative
    gas := 0
    payload := []
    mass := 0 }
  entries := [⟨37000000, proofContract, 1, false⟩]
  length_entries := rfl

/-- A machine on which the deployed code is the given program. -/
def machineOf (guest : Guest) : SvmMachine where
  gasConfig := .default
  crypto := ⟨fun _ _ _ => false, fun _ => .replicate 48 0, fun _ _ _ => false, fun _ _ _ => false⟩
  load := fun _ _ => .ok guest

def proofContext : SvmContext where
  executor := ⟨fun _ _ _ _ => .ok false⟩
  store := fun contractId =>
    if contractId = proofContractId then some [0, 97, 115, 109] else none
  daStore := none
  lkgBlueScore := none
  altStore := none
  selectedChainStore := none
  headersDaaScore := none
  pruningPoint := none
  pendingChainBlocks := []

def proofValidator (guest : Guest) : ContextualValidator :=
  mainnetParams.contextualValidator Hashers.zero (some (proofContext.drivenBy (machineOf guest)))

def hashingGuest : Guest := .work 5 (.call (none, .sha3384 0 0 0) fun _ => .finish 1)

/-- Asks twice for the check of a proof, ignores the answers and approves. -/
def heedlessGuest : Guest := .work 8 (.call (none, .verifyRisc0Proof 0 0 0 0 0) fun _ =>
    .work 8 (.call (none, .verifyRisc0Proof 0 0 0 0 0) fun _ => .finish 1))

/-- A contract that hashes once stays within its gas. -/
theorem hashingGuest_bounded : (validatePopulatedTransactionAndGetFee (proofValidator hashingGuest)
        .inOrder proofSpend 10 .full none).run.evaluate (fun _ => false) =
      .ok 1000 ∧
    (proofSpend.svmRuns.map ((machineOf hashingGuest).gasSpent Hashers.zero proofContext
        proofSpend 10)).sum ≤
      (machineOf hashingGuest).gasConfig.maxGasPerTx.toNat := by
  have accepted : (validatePopulatedTransactionAndGetFee (proofValidator hashingGuest)
        .inOrder proofSpend 10 .full none).run.evaluate (fun _ => false) =
      .ok 1000 := by
    decide +kernel
  have bound := gasBound_iff_demand (machineOf hashingGuest) proofContext
    (proofValidator hashingGuest) rfl .inOrder (fun _ => false) proofSpend 10 none 1000 accepted
  exact ⟨accepted, (bound.mpr (by decide +kernel)).1⟩

/-- The second check is refused, the transaction is accepted all the same, and
it spends the fuel on top of the whole gas of a transaction. -/
theorem heedlessGuest_exceeds :
    (validatePopulatedTransactionAndGetFee (proofValidator heedlessGuest)
        .inOrder proofSpend 10 .full none).run.evaluate (fun _ => false) =
      .ok 1000 ∧
    (machineOf heedlessGuest).gasConfig.maxGasPerTx.toNat < (proofSpend.svmRuns.map
      ((machineOf heedlessGuest).gasSpent Hashers.zero proofContext proofSpend 10)).sum ∧
    ∃ run ∈ proofSpend.svmRuns, (machineOf heedlessGuest).RefusesCharge Hashers.zero proofContext
        proofSpend 10 run ∧
      (machineOf heedlessGuest).Approves Hashers.zero proofContext proofSpend 10 run := by
  refine ⟨by decide +kernel, by decide +kernel, _, mem_singleton_self _,
    ⟨_, _, rfl, ⟨10000000, false⟩, mem_cons_self, rfl⟩, _, rfl⟩

end Sophis
