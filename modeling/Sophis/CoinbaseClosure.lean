import Sophis.BlockBody

namespace Sophis

open ByteCodec CoinbaseManager ExceptLoop List MachineWord

/-!
# Can a merging block always build its coinbase?

A merging block must carry the coinbase that rewards the blocks it merges, and
that coinbase pays to whatever script public key each merged block declared in
its own payload. Body validation never looks at that script, but isolation
validation looks at the outputs of the coinbase.
-/

/-- Everything that determines the coinbase a block is forced to carry: the
blocks it merges, all with accepted bodies, the fees collected from each of
them, and the payload of its own coinbase. GHOSTDAG colours at most `k + 1`
blocks of a mergeset blue, the selected parent included. -/
structure MergingBlock (external : External) (params : Params) where
  ghostdag : GhostdagData
  daaScore : UInt64
  nonDaa : List Hash
  body : Hash → Block
  fees : Hash → UInt64
  payload : List UInt8
  ownData : CoinbaseData
  bluesBounded : ghostdag.mergesetBlues.length ≤ params.ghostdagK.toNat + 1
  bodiesAccepted : ∀ merged ∈ ghostdag.mergesetBlues ++ ghostdag.mergesetReds,
    ∃ context, BodyAccepted external params context (body merged)
  ownDataParsed : (CoinbaseManager.ofParams params).deserializeCoinbasePayload payload = .ok ownData
  scriptLimit : params.coinbasePayloadScriptPublicKeyMaxLen.toNat ≤ params.maxScriptPublicKeyLen

namespace MergingBlock

variable {external : External} {params : Params} (merging : MergingBlock external params)

def rewards (merged : Hash) : Option BlockRewardData :=
  blockRewardData params (merging.fees merged) (merging.body merged)

def reward (merged : Hash) : BlockRewardData := (merging.rewards merged).getD ⟨0, 0, ⟨0, []⟩⟩

/-- The exact reward of a merged block inside the difficulty window. -/
def fullReward (merged : Hash) : Nat := (merging.reward merged).subsidy.toNat +
    (merging.reward merged).totalFees.toNat

/-- The exact share of a red block in the reward of the merging block. -/
def redRewardOf (merged : Hash) : Nat :=
  if merging.nonDaa.contains merged then
    (merging.reward merged).totalFees.toNat
  else
    merging.fullReward merged

def rewardedBlues : List Hash := merging.ghostdag.rewardedBlues merging.nonDaa

def blueTotal : Nat := (merging.rewardedBlues.map merging.fullReward).sum

def redTotal : Nat := (merging.ghostdag.mergesetReds.map merging.redRewardOf).sum

def forcedCoinbase : Except (Failure CoinbaseError) CoinbaseTransactionTemplate :=
  (CoinbaseManager.ofParams params).expectedCoinbaseTransaction merging.daaScore
    merging.ownData.minerData merging.ghostdag merging.rewards merging.nonDaa

/-- The forced coinbase exists and passes isolation validation. -/
def CoinbaseClosed : Prop := ∃ template, merging.forcedCoinbase = .ok template ∧
    validateTxInIsolation external params.transactionValidator template.tx = .ok ()

end MergingBlock

/-- A script public key that a coinbase output may carry, apart from its
length. -/
structure ScriptPublicKey.PayableInCoinbase (spk : ScriptPublicKey) : Prop where
  notCarrier : spk.version ≠ scriptVersionCarrier
  notAlt : classifyAltScript spk.script = none
  token : spk.tokenAccepted = true

/-- The condition on the merged blocks under which the forced coinbase
passes: every script that is paid a positive reward may stand in a coinbase,
and the rewards stay below the ceiling on amounts. -/
structure MergingBlock.RewardsPayable {external : External}
    {params : Params} (merging : MergingBlock external params) :
    Prop where
  blues : ∀ blue ∈ merging.rewardedBlues, 0 < merging.fullReward blue →
    (merging.reward blue).scriptPublicKey.PayableInCoinbase
  red : 0 < merging.redTotal → merging.ownData.minerData.scriptPublicKey.PayableInCoinbase
  bounded : merging.blueTotal + merging.redTotal ≤ maxSompi.toNat

variable {manager : CoinbaseManager}

theorem deserializeCoinbasePayload_script_le {payload : List UInt8} {data : CoinbaseData}
    (parsed : manager.deserializeCoinbasePayload payload = .ok data) :
    data.minerData.scriptPublicKey.script.length ≤
      manager.coinbasePayloadScriptPublicKeyMaxLen.toNat := by
  simp only [deserializeCoinbasePayload, bind_eq_ok, check_eq_ok, reject_eq_ok] at parsed
  obtain ⟨-, -, declared, -, ran⟩ := parsed
  cases ran
  exact Nat.le_trans (length_take_le _ _) (UInt8.le_iff_toNat_le.mp (UInt8.not_lt.mp declared))

theorem serializeCoinbasePayload_exists {minerData : MinerData}
    (short : minerData.scriptPublicKey.script.length ≤
      manager.coinbasePayloadScriptPublicKeyMaxLen.toNat) (blueScore subsidy : UInt64) :
    ∃ payload, manager.serializeCoinbasePayload { blueScore, subsidy, minerData } =
      .ok payload := by
  simp only [serializeCoinbasePayload, reject, gt_iff_lt, if_neg (Nat.not_lt.mpr short), ok_bind]
  exact ⟨_, rfl⟩

variable {external : External} {params : Params} (merging : MergingBlock external params)

theorem MergingBlock.rewards_eq_some {merged : Hash}
    (mem : merged ∈ merging.ghostdag.mergesetBlues ++ merging.ghostdag.mergesetReds) :
    merging.rewards merged = some (merging.reward merged) ∧
      (merging.reward merged).scriptPublicKey.script.length ≤
        params.coinbasePayloadScriptPublicKeyMaxLen.toNat := by
  obtain ⟨context, ok⟩ := merging.bodiesAccepted merged mem
  obtain ⟨coinbase, data, first, -, parsed, -, -⟩ := ok.coinbase_payload
  have entry : merging.rewards merged = some {
        subsidy := data.subsidy
        totalFees := merging.fees merged
        scriptPublicKey := data.minerData.scriptPublicKey
      } := by
    simp [MergingBlock.rewards, blockRewardData, first, parsed]
  have short := deserializeCoinbasePayload_script_le parsed
  simp only [MergingBlock.reward, entry, Option.getD_some]
  exact ⟨trivial, short⟩

variable {rewards : Hash → Option BlockRewardData} {reward : Hash → BlockRewardData}

def exactReward (entry : BlockRewardData) : Nat := entry.subsidy.toNat + entry.totalFees.toNat

variable {blues : List Hash}

section

variable (found : ∀ blue ∈ blues, rewards blue = some (reward blue))
include found

private theorem blueOutputs_spec {outputs : List TransactionOutput}
    (built : blueOutputs rewards blues = .ok outputs) :
    exactSum (outputs.map TransactionOutput.value) =
        (blues.map fun blue => exactReward (reward blue)).sum ∧
      outputs.length ≤ blues.length ∧
      (∀ output ∈ outputs, output.value ≠ 0 ∧ ∃ blue ∈ blues, 0 < exactReward (reward blue) ∧
        output.scriptPublicKey = (reward blue).scriptPublicKey) ∧
      ∀ blue ∈ blues, 0 < exactReward (reward blue) → ∃ output ∈ outputs,
        output.scriptPublicKey = (reward blue).scriptPublicKey := by
  induction blues generalizing outputs with
  | nil =>
    simp only [blueOutputs, Except.ok.injEq] at built
    subst built
    simp
  | cons blue rest ih =>
    simp only [blueOutputs, found blue (by simp), bind_eq_ok,
      orPanic_eq_ok, Option.some.injEq, exists_eq_left'] at built
    obtain ⟨total, added, tail, tailBuilt, ran⟩ := built
    rw [checkedAdd_eq_some_iff] at added
    obtain ⟨tailSum, tailCount, tailPaid, tailComplete⟩ := ih (forall_mem_cons.mp found).2 tailBuilt
    have totalValue : total.toNat = exactReward (reward blue) := added
    by_cases pos : total > 0
    · have rewardPositive : 0 < exactReward (reward blue) := by
        rw [← totalValue]
        exact UInt64.lt_iff_toNat_lt.mp pos
      rw [if_pos pos] at ran
      cases ran
      refine ⟨?_, by simpa using tailCount, ?_, ?_⟩
      · simp [tailSum, totalValue]
      · intro output mem
        rcases mem_cons.mp mem with rfl | inTail
        · refine ⟨?_, blue, by simp, rewardPositive, rfl⟩
          rintro rfl
          exact absurd pos (by decide)
        · obtain ⟨nonzero, paid, paidMember, paidPositive, script⟩ := tailPaid output inTail
          exact ⟨nonzero, paid, by simp [paidMember], paidPositive, script⟩
      · intro other mem otherPositive
        rcases mem_cons.mp mem with rfl | inRest
        · exact ⟨_, mem_cons_self, rfl⟩
        · obtain ⟨output, outputMember, script⟩ := tailComplete other inRest otherPositive
          exact ⟨output, by simp [outputMember], script⟩
    · have rewardZero : exactReward (reward blue) = 0 := by
        rw [← totalValue]
        simpa [UInt64.lt_iff_toNat_lt] using pos
      rw [if_neg pos] at ran
      cases ran
      refine ⟨?_, Nat.le_succ_of_le tailCount, ?_, ?_⟩
      · simp [tailSum, rewardZero]
      · intro output mem
        obtain ⟨nonzero, paid, paidMember, paidPositive, script⟩ := tailPaid output mem
        exact ⟨nonzero, paid, by simp [paidMember], paidPositive, script⟩
      · intro other mem otherPositive
        rcases mem_cons.mp mem with rfl | inRest
        · omega
        · exact tailComplete other inRest otherPositive

theorem blueOutputs_exists (fits : (blues.map fun blue => exactReward (reward blue)).sum < 2 ^ 64) :
    ∃ outputs, blueOutputs rewards blues = .ok outputs := by
  induction blues with
  | nil => exact ⟨[], rfl⟩
  | cons blue rest ih =>
    simp only [map_cons, sum_cons] at fits
    obtain ⟨tail, tailBuilt⟩ := ih (forall_mem_cons.mp found).2 (by omega)
    have rewardFits : exactReward (reward blue) < 2 ^ 64 := by omega
    have added : checkedAdd (reward blue).subsidy (reward blue).totalFees =
        some ((reward blue).subsidy + (reward blue).totalFees) :=
      if_pos rewardFits
    simp only [blueOutputs, found blue (by simp), added, tailBuilt, orPanic, ok_bind]
    exact ⟨_, rfl⟩

end

/-- A red block adds its fees, and its subsidy if it is inside the difficulty
window. -/
theorem redShare_eq_some_iff (nonDaa : List Hash) (red : Hash) (entry : BlockRewardData)
    (amount : UInt64) :
    redShare nonDaa red entry = some amount ↔ amount.toNat = if nonDaa.contains red then
        entry.totalFees.toNat
      else
        exactReward entry := by
  rw [redShare]
  split
  · rw [Option.some.injEq, ← UInt64.toNat_inj]
    exact eq_comm
  · exact checkedAdd_eq_some_iff

theorem redReward_eq_ok_iff {nonDaa : List Hash} {reds : List Hash} (share : Hash → Nat)
    (found : ∀ red ∈ reds, rewards red = some (reward red))
    (shares : ∀ red ∈ reds, ∀ amount, redShare nonDaa red (reward red) = some amount ↔
      amount.toNat = share red) (total final : UInt64) :
    redReward rewards nonDaa total reds = .ok final ↔
      final.toNat = total.toNat + (reds.map share).sum := by
  induction reds generalizing total with
  | nil =>
    simp only [redReward, Except.ok.injEq, map_nil, sum_nil, Nat.add_zero, ← UInt64.toNat_inj]
    exact eq_comm
  | cons red rest ih =>
    have restReward := ih (forall_mem_cons.mp found).2 (forall_mem_cons.mp shares).2
    simp only [redReward, found red (by simp), bind_eq_ok, orPanic_eq_ok, Option.some.injEq,
      exists_eq_left', shares red (by simp), checkedAdd_eq_some_iff, restReward, map_cons, sum_cons]
    constructor
    · rintro ⟨amount, amountValue, next, nextValue, finalValue⟩
      omega
    · intro finalValue
      have finalFits := final.toNat_lt
      have amountFits : share red < 2 ^ 64 := by omega
      have nextFits : total.toNat + share red < 2 ^ 64 := by omega
      refine ⟨UInt64.ofNat (share red), ?_, UInt64.ofNat (total.toNat + share red), ?_, ?_⟩ <;>
        simp only [UInt64.toNat_ofNat', Nat.mod_eq_of_lt amountFits, Nat.mod_eq_of_lt nextFits]
      omega

section

variable {external : External} {params : Params} (merging : MergingBlock external params)

/-- The coinbase built from the outputs for blue blocks and the red
reward. -/
private def MergingBlock.template (blues : List TransactionOutput)
    (red : UInt64) (payload : List UInt8) : CoinbaseTransactionTemplate where
  tx := {
    version := txVersion
    inputs := []
    outputs := blues ++ redOutputs red merging.ownData.minerData
    lockTime := 0
    subnetworkId := subnetworkIdCoinbase
    gas := 0
    payload
    mass := 0
  }
  hasRedReward := red > 0

private theorem MergingBlock.mem_of_rewarded {blue : Hash} (mem : blue ∈ merging.rewardedBlues) :
    blue ∈ merging.ghostdag.mergesetBlues ++ merging.ghostdag.mergesetReds :=
  mem_append_left _ (mem_of_mem_filter mem)

private theorem MergingBlock.forcedCoinbase_eq_ok_iff (built : CoinbaseTransactionTemplate) :
    merging.forcedCoinbase = .ok built ↔ ∃ blues red payload,
      blueOutputs merging.rewards merging.rewardedBlues = .ok blues ∧ red.toNat = merging.redTotal ∧
        (ofParams params).serializeCoinbasePayload {
          blueScore := merging.ghostdag.blueScore
          subsidy := (ofParams params).calcBlockSubsidy merging.daaScore
          minerData := merging.ownData.minerData
        } = .ok payload ∧
        merging.template blues red payload = built := by
  have reds := fun final =>
    redReward_eq_ok_iff merging.redRewardOf (fun red mem =>
        (merging.rewards_eq_some (mem_append_right _ mem)).1)
      (fun red _ => redShare_eq_some_iff merging.nonDaa red _) 0 final
  simp only [MergingBlock.forcedCoinbase, expectedCoinbaseTransaction, bind_eq_ok,
    reds, raising_eq_ok, UInt64.toNat_zero, Nat.zero_add]
  constructor
  · rintro ⟨blues, bluesBuilt, red, redBuilt, payload, written, ran⟩
    exact ⟨blues, red, payload, bluesBuilt, redBuilt, written, Except.ok.inj ran⟩
  · rintro ⟨blues, red, payload, bluesBuilt, redBuilt, written, rfl⟩
    exact ⟨blues, bluesBuilt, red, redBuilt, payload, written, rfl⟩

variable {blues : List TransactionOutput} {red : UInt64}

private theorem MergingBlock.template_outputs_spec (payload : List UInt8)
    (bluesBuilt : blueOutputs merging.rewards merging.rewardedBlues = .ok blues)
    (redBuilt : red.toNat = merging.redTotal) :
    let outputs := (merging.template blues red payload).tx.outputs
    exactSum (outputs.map TransactionOutput.value) = merging.blueTotal + merging.redTotal ∧
      outputs.length ≤ params.ghostdagK.toNat + 2 ∧
      (∀ output ∈ outputs, output.value ≠ 0) ∧
      ∀ spk, (∃ output ∈ outputs, output.scriptPublicKey = spk) ↔ (∃ blue ∈ merging.rewardedBlues,
        0 < merging.fullReward blue ∧ (merging.reward blue).scriptPublicKey = spk) ∨
        0 < merging.redTotal ∧ merging.ownData.minerData.scriptPublicKey = spk := by
  obtain ⟨sum, count, paid, complete⟩ := blueOutputs_spec (fun blue mem =>
        (merging.rewards_eq_some (merging.mem_of_rewarded mem)).1)
      bluesBuilt
  have blueSum : exactSum (blues.map TransactionOutput.value) = merging.blueTotal := sum
  have bluesCount : blues.length ≤ params.ghostdagK.toNat + 1 := Nat.le_trans count
      (Nat.le_trans (length_filter_le _ _) merging.bluesBounded)
  have redPositive : red > 0 ↔ 0 < merging.redTotal := by
    rw [← redBuilt]
    exact UInt64.lt_iff_toNat_lt
  have bluesPaid : ∀ spk, (∃ output ∈ blues, output.scriptPublicKey = spk) ↔
      ∃ blue ∈ merging.rewardedBlues, 0 < merging.fullReward blue ∧
        (merging.reward blue).scriptPublicKey = spk := by
    intro spk
    constructor
    · rintro ⟨output, mem, rfl⟩
      obtain ⟨-, blue, rewarded, pos, script⟩ := paid output mem
      exact ⟨blue, rewarded, pos, script.symm⟩
    · rintro ⟨blue, rewarded, pos, rfl⟩
      exact complete blue rewarded pos
  by_cases pos : red > 0
  · simp only [MergingBlock.template, redOutputs, if_pos pos]
    refine ⟨?_, by simp; omega, ?_, ?_⟩
    · simp [blueSum, redBuilt]
    · intro output mem
      rcases mem_append.mp mem with inBlues | isRed
      · exact (paid output inBlues).1
      · rw [mem_singleton.mp isRed]
        exact (UInt64.ne_of_lt pos).symm
    · intro spk
      rw [← bluesPaid spk]
      simp [mem_append, or_and_right, exists_or, redPositive.mp pos]
  · simp only [MergingBlock.template, redOutputs, if_neg pos, append_nil]
    have noRed : merging.redTotal = 0 := Nat.eq_zero_of_not_pos (redPositive.not.mp pos)
    refine ⟨?_, Nat.le_succ_of_le bluesCount, fun output mem => (paid output mem).1, ?_⟩
    · rw [blueSum, noRed, Nat.add_zero]
    · intro spk
      rw [bluesPaid spk, noRed]
      simp

private theorem MergingBlock.paid_script_short {spk : ScriptPublicKey} (paid :
      (∃ blue ∈ merging.rewardedBlues, 0 < merging.fullReward blue ∧
          (merging.reward blue).scriptPublicKey = spk) ∨
        0 < merging.redTotal ∧ merging.ownData.minerData.scriptPublicKey = spk) :
    spk.script.length ≤ params.coinbasePayloadScriptPublicKeyMaxLen.toNat := by
  rcases paid with ⟨blue, rewarded, -, rfl⟩ | ⟨-, rfl⟩
  · exact (merging.rewards_eq_some (merging.mem_of_rewarded rewarded)).2
  · exact deserializeCoinbasePayload_script_le merging.ownDataParsed

private theorem MergingBlock.template_accepted_iff (payload : List UInt8)
    (bluesBuilt : blueOutputs merging.rewards merging.rewardedBlues = .ok blues)
    (redBuilt : red.toNat = merging.redTotal) :
    validateTxInIsolation external params.transactionValidator
          (merging.template blues red payload).tx =
        .ok () ↔
      merging.RewardsPayable := by
  obtain ⟨sum, count, pos, scripts⟩ := merging.template_outputs_spec payload bluesBuilt redBuilt
  rw [validateTxInIsolation_coinbase_eq_ok_iff rfl rfl rfl rfl rfl, sum]
  constructor
  · rintro ⟨-, accepted, bounded⟩
    have payable : ∀ spk, (∃ output ∈ (merging.template blues red payload).tx.outputs,
        output.scriptPublicKey = spk) → spk.PayableInCoinbase := by
      rintro spk ⟨output, mem, rfl⟩
      have rules := accepted output mem
      exact ⟨rules.notCarrier, rules.notAlt, rules.token⟩
    exact {
      blues := fun blue rewarded rewardPositive =>
        payable _ ((scripts _).mpr (.inl ⟨blue, rewarded, rewardPositive, rfl⟩))
      red := fun redPositive => payable _ ((scripts _).mpr (.inr ⟨redPositive, rfl⟩))
      bounded
    }
  · intro payable
    refine ⟨count, fun output mem => ?_, payable.bounded⟩
    have paid := (scripts _).mp ⟨output, mem, rfl⟩
    have short := merging.paid_script_short paid
    have allowed : output.scriptPublicKey.PayableInCoinbase := by
      rcases paid with ⟨blue, rewarded, rewardPositive, eq⟩ | ⟨redPositive, eq⟩
      · exact eq ▸ payable.blues blue rewarded rewardPositive
      · exact eq ▸ payable.red redPositive
    have fits : output.script.length ≤ params.maxScriptPublicKeyLen :=
      Nat.le_trans short merging.scriptLimit
    exact {
      notCarrier := allowed.notCarrier
      notAlt := allowed.notAlt
      short
      withinLimit := by simp [hasTooBigScriptPublicKey, Params.transactionValidator, fits]
      positive := pos output mem
      token := allowed.token
    }

/-- The forced coinbase passes isolation validation exactly when every script
it pays to may stand in a coinbase and the rewards stay below the ceiling. -/
theorem coinbaseClosed_iff_rewardsPayable (external : External) (params : Params)
    (merging : MergingBlock external params) : merging.CoinbaseClosed ↔ merging.RewardsPayable := by
  constructor
  · rintro ⟨built, forced, ok⟩
    obtain ⟨blues, red, payload, bluesBuilt, redBuilt, -, rfl⟩ :=
      (merging.forcedCoinbase_eq_ok_iff built).mp forced
    exact (merging.template_accepted_iff payload bluesBuilt redBuilt).mp ok
  · intro payable
    -- Below the ceiling no sum of the construction can overflow.
    have ceiling : maxSompi.toNat < 2 ^ 64 := maxSompi.toNat_lt
    have bounded := payable.bounded
    have bluesFit : merging.blueTotal < 2 ^ 64 := by omega
    have redFits : merging.redTotal < 2 ^ 64 := by omega
    obtain ⟨blues, bluesBuilt⟩ := blueOutputs_exists (fun blue mem =>
          (merging.rewards_eq_some (merging.mem_of_rewarded mem)).1)
        bluesFit
    obtain ⟨payload, written⟩ := serializeCoinbasePayload_exists
      (deserializeCoinbasePayload_script_le merging.ownDataParsed) merging.ghostdag.blueScore
      ((ofParams params).calcBlockSubsidy merging.daaScore)
    have redBuilt : (UInt64.ofNat merging.redTotal).toNat = merging.redTotal := by
      rw [UInt64.toNat_ofNat', Nat.mod_eq_of_lt redFits]
    exact ⟨_, (merging.forcedCoinbase_eq_ok_iff _).mpr
        ⟨blues, _, payload, bluesBuilt, redBuilt, written, rfl⟩,
      (merging.template_accepted_iff payload bluesBuilt redBuilt).mpr payable⟩

end

/-! A miner names a carrier script in an otherwise ordinary payload. The block
is accepted, and every block that rewards it is forced into a coinbase with a
carrier output. -/

/-- The payload of a block with blue score 1 whose reward script has the
carrier version and no bytes. -/
def carrierPayload : List UInt8 := [1, 0, 0, 0, 0, 0, 0, 0, 33, 158, 52, 2, 0, 0, 0, 0, 5, 0, 0]

/-- The hash functions with the values they take on the carrier block. -/
def carrierExternal : External where
  sha3 _ := FixedBytes.replicate 48 0
  wasmHash _ := zeroHash
  mintPolicyHash _ := zeroHash
  transactionIdHash _ := ⟨[111, 179, 126, 86, 74, 251, 39, 159, 50, 239, 194, 213, 206, 55, 6, 184,
    31, 172, 106, 58, 49, 99, 144, 69, 222, 138, 117, 98, 111, 238, 3, 226], rfl⟩
  transactionHash _ := ⟨[80, 74, 95, 178, 214, 238, 46, 166, 221, 42, 51, 225, 232, 208, 75, 175,
    72, 82, 184, 164, 148, 232, 223, 232, 102, 232, 174, 85, 95, 42, 43, 153], rfl⟩
  transactionSigningHash _ := zeroHash
  merkleBranchHash _ := ⟨[186, 222, 226, 244, 135, 74, 118, 244, 178, 77, 27, 31, 23, 29, 55, 177,
    167, 2, 15, 143, 182, 15, 11, 231, 63, 43, 210, 144, 179, 46, 246, 254, 170, 56, 212, 81, 170,
    134, 231, 149, 149, 64, 144, 75, 33, 118, 238, 35], rfl⟩
  sha256 _ := zeroHash
  blake2b _ := zeroHash
  parseAll _ := []

def carrierCoinbase : Transaction where
  version := txVersion
  inputs := []
  outputs := []
  lockTime := 0
  subnetworkId := subnetworkIdCoinbase
  gas := 0
  payload := carrierPayload
  mass := 0

def carrierBlock : Block where
  header := {
    hash := FixedBytes.replicate 32 1
    directParents := [zeroHash]
    hashMerkleRoot := calcHashMerkleRoot carrierExternal.toHashers [carrierCoinbase]
    daaScore := 1
    blueScore := 1
  }
  transactions := [carrierCoinbase]

def carrierContext : BodyContext where
  hasBlockBody _ := true
  pastMedianTime := .ok 0

theorem carrierBlock_accepted :
    BodyAccepted carrierExternal mainnetParams carrierContext carrierBlock := by
  refine ⟨⟨(0, 0, 0), ?_⟩, ?_⟩
  · decide +kernel
  · decide +kernel

/-- A block on top of the carrier block, with an ordinary payload. -/
def carrierMerging : MergingBlock carrierExternal mainnetParams where
  ghostdag := {
    blueScore := 2
    selectedParent := carrierBlock.header.hash
    mergesetBlues := [carrierBlock.header.hash]
    mergesetReds := []
  }
  daaScore := 2
  nonDaa := []
  body _ := carrierBlock
  fees _ := 0
  payload := [2, 0, 0, 0, 0, 0, 0, 0, 33, 158, 52, 2, 0, 0, 0, 0, 0, 0, 0]
  ownData := {
    blueScore := 2
    subsidy := 37002785
    minerData := {
      scriptPublicKey := { version := 0, script := [] }
      extraData := []
    }
  }
  bluesBounded := by decide
  bodiesAccepted _ _ := ⟨carrierContext, carrierBlock_accepted⟩
  ownDataParsed := by decide +kernel
  scriptLimit := by decide

/-- The coinbase forced on top of the carrier block is rejected. -/
theorem carrierMerging_not_coinbaseClosed : ¬ carrierMerging.CoinbaseClosed := by
  rintro ⟨template, built, accepted⟩
  have forced : carrierMerging.forcedCoinbase.map
        (fun template => validateTxInIsolation carrierExternal
          mainnetParams.transactionValidator template.tx) =
      .ok (.error (.carrierInCoinbase 0)) := by
    decide +kernel
  rw [built] at forced
  simp [Except.map, accepted] at forced

end Sophis
