import Sophis.ChainLedger

namespace Sophis

open ByteCodec ExceptLoop FiniteLedger Judgement List MachineWord Option OracleProgram TokenTotals

/-!
# The supply of a token

The amount of a token in the unspent outputs, and how a chain block changes it.
A validated transaction changes it only with the approval of the minting
policy. The coinbase of a chain block is applied without any of the
transaction checks, so whatever token its outputs hold is added to the supply
by the next chain block.
-/

def ScriptPublicKey.tokenAmount (tokenId : TokenId) (spk : ScriptPublicKey) : Nat :=
  if spk.version ≠ scriptVersionToken then
    0
  else
    match NativeTokenUtxoData.tryFromSlice spk.script with
    | .error _ => 0
    | .ok data =>
      if data.tokenId = tokenId then data.tokenAmount.toNat else 0

def UtxoEntry.tokenAmount (tokenId : TokenId) (entry : UtxoEntry) : Nat :=
  entry.scriptPublicKey.tokenAmount tokenId

def UtxoSet.tokenSupply (utxo : UtxoSet) (tokenId : TokenId) : Nat :=
  total (UtxoEntry.tokenAmount tokenId) utxo

def Transaction.tokenOutputs (tokenId : TokenId) (tx : Transaction) : Nat :=
  (tx.outputs.map fun output => output.scriptPublicKey.tokenAmount tokenId).sum

def PopulatedTransaction.tokenInputs (tokenId : TokenId) (populated : PopulatedTransaction) : Nat :=
  (populated.entries.map (UtxoEntry.tokenAmount tokenId)).sum

def Block.coinbaseTokens (tokenId : TokenId) (block : Block) : Nat :=
  (block.coinbase?.map (Transaction.tokenOutputs tokenId)).getD 0

variable {totals : TokenTotals}

theorem TokenTotals.amount_of_notMem {tokenId : TokenId} (absent : tokenId ∉ totals.keys) :
    totals.amount tokenId = 0 := by
  have missing : totals.lookup tokenId = none :=
    AList.lookup_eq_none.mpr fun mem => absent (AList.mem_keys.mp mem)
  rw [amount, missing, getD_none]

variable {side : String} {overflow : TxRuleError}

theorem addTokenAmount_eq_ok {index : Nat} {next : TokenTotals} {spk : ScriptPublicKey}
    (added : addTokenAmount side overflow index totals spk = .ok next) (tokenId : TokenId) :
    (next.amount tokenId).toNat = (totals.amount tokenId).toNat + spk.tokenAmount tokenId := by
  rw [addTokenAmount] at added
  by_cases other : spk.version ≠ scriptVersionToken
  · rw [if_pos other] at added
    cases added
    rw [ScriptPublicKey.tokenAmount, if_pos other, Nat.add_zero]
  · rw [if_neg other, bind_eq_ok] at added
    obtain ⟨data, read, kept⟩ := added
    rw [mapError_eq_ok] at read
    rw [ScriptPublicKey.tokenAmount, if_neg other, read]
    cases sum : checkedAdd (totals.amount data.tokenId) data.tokenAmount with
    | none =>
      rw [sum] at kept
      cases kept
    | some total =>
      rw [sum] at kept
      cases kept
      by_cases same : data.tokenId = tokenId
      · subst same
        simp [amount, checkedAdd_eq_some_iff.mp sum]
      · have apart : tokenId ≠ data.tokenId := fun eq => same eq.symm
        simp [amount, same, AList.lookup_insert_ne apart]

theorem amount_of_foldEach {spks : List ScriptPublicKey}
    (folded : foldEach (addTokenAmount side overflow) ∅ spks = .ok totals) (tokenId : TokenId) :
    (totals.amount tokenId).toNat = (spks.map (ScriptPublicKey.tokenAmount tokenId)).sum := by
  refine foldEach_invariant (fun ran current =>
      (current.amount tokenId).toNat = (ran.map (ScriptPublicKey.tokenAmount tokenId)).sum)
    ?_ rfl folded
  intro index ran current spk next before added
  rw [addTokenAmount_eq_ok added tokenId, before]
  simp

variable {hashers : Hashers} {params : Params}

/-- The minting policy of a token was deployed where the transaction was
judged, and approved it. -/
def Judgement.mintApproved (hashers : Hashers) (tokenId : TokenId) (judgement : Judgement) : Bool :=
  match judgement.environment.svm with
  | none => false
  | some svm =>
    match svm.store tokenId with
    | none => false
    | some wasm =>
      match svm.runContract hashers judgement.populated
        judgement.daaScore (policyManifest tokenId) tokenId wasm with
      | .ok approved => approved
      | .error _ => false

def Judgement.tokenDelta (tokenId : TokenId) (judgement : Judgement) : Int :=
  judgement.populated.tx.tokenOutputs tokenId - judgement.populated.tokenInputs tokenId

/-- The change of a token by a transaction, if its minting policy approved. -/
def Judgement.approvedDelta (hashers : Hashers) (tokenId : TokenId) (judgement : Judgement) : Int :=
  if judgement.mintApproved hashers tokenId then
    judgement.tokenDelta tokenId
  else
    0

variable {judgement : Judgement}

theorem mintApproved_of_checkTokenDelta {inputs outputs : TokenTotals} {tokenId : TokenId}
    (differ : inputs.amount tokenId ≠ outputs.amount tokenId)
    (checked : checkTokenDelta hashers judgement.environment.svm judgement.populated
      judgement.daaScore inputs outputs tokenId = .ok ()) :
    judgement.mintApproved hashers tokenId = true := by
  unfold checkTokenDelta at checked
  rw [if_neg differ] at checked
  rw [mintApproved]
  cases present : judgement.environment.svm with
  | none =>
    rw [present] at checked
    cases checked
  | some svm =>
    rw [present] at checked
    obtain ⟨wasm, deployed, approved⟩ := requireApproval_eq_ok_iff.mp checked
    simp only [deployed, approved]

theorem Judgement.Passed.checkTokenConservation (passed : judgement.Passed hashers params) :
    checkTokenConservation hashers judgement.environment.scheduling
        judgement.environment.svm judgement.populated judgement.daaScore =
      .ok () := by
  obtain ⟨fee, validated⟩ := passed
  simp only [validatePopulatedTransactionAndGetFee, checkScriptsAndTokens, evaluate_bind_eq_ok,
    evaluate_mapFailure_eq_ok, evaluate_ofResult] at validated
  obtain ⟨-, -, ⟨⟩, ⟨⟨⟩, -, tokens⟩, -⟩ := validated
  exact raising_eq_ok.mp tokens

theorem Judgement.Passed.tokenDelta_eq (passed : judgement.Passed hashers params)
    (tokenId : TokenId) :
    judgement.tokenDelta tokenId = judgement.approvedDelta hashers tokenId := by
  have conserved := passed.checkTokenConservation
  simp only [Sophis.checkTokenConservation, bind_eq_ok] at conserved
  obtain ⟨inputs, inputsRead, outputs, outputsRead, deltas⟩ := conserved
  have inputSum := amount_of_foldEach inputsRead tokenId
  have outputSum := amount_of_foldEach outputsRead tokenId
  rw [List.map_map] at inputSum outputSum
  by_cases differ : inputs.amount tokenId ≠ outputs.amount tokenId
  · have mentioned : tokenId ∈ (inputs.keys ++ outputs.keys).dedup := by
      by_contra absent
      rw [mem_dedup, mem_append, not_or] at absent
      refine differ ?_
      rw [amount_of_notMem absent.1, amount_of_notMem absent.2]
    have ordered := (judgement.environment.scheduling.tokenOrder_perm _).mem_iff.mpr mentioned
    have checkedAll : ∀ id ∈ judgement.environment.scheduling.tokenOrder
          (inputs.keys ++ outputs.keys).dedup,
        checkTokenDelta hashers judgement.environment.svm
          judgement.populated judgement.daaScore inputs outputs id = .ok () := by
      refine (forEach_eq_ok_iff_forall ?_ _).mp deltas
      exact fun _ _ => Iff.rfl
    have checked := checkedAll tokenId ordered
    rw [approvedDelta, if_pos (mintApproved_of_checkTokenDelta differ checked)]
  · have balanced : judgement.tokenDelta tokenId = 0 := by
      rw [ne_eq, not_not] at differ
      rw [tokenDelta, Transaction.tokenOutputs, PopulatedTransaction.tokenInputs]
      rw [differ] at inputSum
      have eq := inputSum.symm.trans outputSum
      exact Int.sub_eq_zero.mpr (congrArg Nat.cast eq.symm)
    simp [approvedDelta, balanced]

theorem PopulatedTransaction.spentWeight_tokenAmount (populated : PopulatedTransaction)
    (tokenId : TokenId) :
    populated.spentWeight (UtxoEntry.tokenAmount tokenId) = populated.tokenInputs tokenId := by
  rw [spentWeight, tokenInputs, ← populated.spentEntries_map_snd, List.map_map]
  rfl

theorem Transaction.createdWeight_tokenAmount (tx : Transaction) (tokenId : TokenId)
    (daaScore : UInt64) :
    tx.createdWeight hashers (UtxoEntry.tokenAmount tokenId) daaScore =
      tx.tokenOutputs tokenId := by
  rw [createdWeight, tokenOutputs, createdEntries, List.map_map]
  nth_rewrite 2 [← zipIdx_map_fst 0 tx.outputs]
  rw [List.map_map]
  rfl

theorem sum_tokenDelta (judgements : List Judgement) (tokenId : TokenId) :
    (judgements.map (tokenDelta tokenId)).sum = (((judgements.map fun judgement =>
        judgement.populated.tx.tokenOutputs tokenId).sum : Nat) : Int) -
      ((judgements.map fun judgement => judgement.populated.tokenInputs tokenId).sum : Nat) := by
  induction judgements with
  | nil => rfl
  | cons judgement rest ih =>
    simp only [map_cons, sum_cons, ih, tokenDelta, Int.natCast_add]
    omega

theorem StepAccounted.tokenSupply_eq {povDaaScore : UInt64} {state next : ChainState}
    {context : UtxoProcessingContext} {coinbase : Transaction}
    (accounted : StepAccounted hashers params povDaaScore state next context coinbase)
    (tokenId : TokenId) :
    (next.utxo.tokenSupply tokenId : Int) =
      state.utxo.tokenSupply tokenId + coinbase.tokenOutputs tokenId +
        ((state.judgements povDaaScore context).map
          (approvedDelta hashers tokenId)).sum := by
  have approved : (state.judgements povDaaScore context).map (approvedDelta hashers tokenId) =
      (state.judgements povDaaScore context).map (tokenDelta tokenId) :=
    map_congr_left fun judgement mem =>
      ((accounted.judged judgement mem).tokenDelta_eq tokenId).symm
  have moved := accounted.moved (UtxoEntry.tokenAmount tokenId)
  simp only [PopulatedTransaction.spentWeight_tokenAmount,
    Transaction.createdWeight_tokenAmount] at moved
  rw [approved, sum_tokenDelta, UtxoSet.tokenSupply, UtxoSet.tokenSupply]
  omega

/-- When a block joins the chain, the supply of a token changes by exactly the
approved changes of the accepted transactions if and only if the coinbase of
the old tip holds nothing of it. -/
theorem tokenSupply_conserved_iff (external : External) (params : Params)
    (fits : params.CountsFitWords) (blocks : List Block) (state next : ChainState)
    (candidate : ChainCandidate) (context : UtxoProcessingContext)
    (run : ChainRun external params blocks state)
    (joins : JoinsChain external params state candidate context next)
    (collisionFree : external.toHashers.CollisionFree
      ((candidate.mergeset ++ blocks).flatMap Block.transactions)) (tokenId : TokenId) :
    (next.utxo.tokenSupply tokenId : Int) = state.utxo.tokenSupply tokenId +
        ((state.judgements candidate.block.header.daaScore context).map
          (Judgement.approvedDelta external.toHashers tokenId)).sum ↔
      state.tip.coinbaseTokens tokenId = 0 := by
  have prior : external.toHashers.CollisionFree (blocks.flatMap Block.transactions) := by
    refine collisionFree.mono ?_
    rw [flatMap_append]
    exact subset_append_right _ _
  obtain ⟨history, invariant⟩ := run.invariant fits prior
  obtain ⟨coinbase, later, first, accounted, -⟩ := invariant.join fits collisionFree joins
  have change := accounted.tokenSupply_eq tokenId
  rw [Block.coinbaseTokens, first, map_some, getD_some]
  omega

/-! A miner declares a token script in an otherwise ordinary payload. The next
chain block pays the reward to it, and the one after that adds the coinbase
with its tokens to the unspent outputs. -/

def mainnetGenesisPayload : List UInt8 :=
  [0, 0, 0, 0, 0, 0, 0, 0, 0, 225, 245, 5, 0, 0, 0, 0, 0, 0, 1, 0, 215, 149, 215, 158, 215, 148, 32,
  215, 147, 215, 153, 32, 215, 162, 215, 156, 215, 153, 215, 154, 32, 215, 149, 215, 162, 215, 156,
  32, 215, 144, 215, 151, 215, 153, 215, 154, 32, 215, 153, 215, 153, 215, 152, 215, 145, 32, 215,
  145, 215, 169, 215, 144, 215, 168, 32, 215, 155, 215, 161, 215, 164, 215, 144, 32, 215, 149, 215,
  147, 215, 148, 215, 145, 215, 148, 32, 215, 156, 215, 158, 215, 162, 215, 145, 215, 147, 32, 215,
  155, 215, 168, 215, 162, 215, 149, 215, 170, 32, 215, 144, 215, 156, 215, 148, 215, 155, 215, 157,
  32, 215, 170, 215, 162, 215, 145, 215, 147, 215, 149, 215, 159, 0, 0, 0, 0, 0, 0, 0, 0, 0, 11, 31,
  142, 28, 23, 176, 19, 61, 67, 145, 116, 229, 46, 251, 176, 196, 28, 53, 131, 168, 170, 102, 176,
  15, 202, 55, 202, 102, 124, 45, 85, 10, 108, 68, 22, 218, 217, 113, 126, 80, 146, 113, 40, 196,
  36, 250, 78, 219, 235, 196, 54, 171, 19, 174, 239]

def rewardedToken : TokenId := FixedBytes.replicate 32 9

/-- A thousand units of the token under a lock that anyone can open. -/
def tokenReward : ScriptPublicKey where
  version := scriptVersionToken
  script := rewardedToken.bytes ++ leBytes 8 1000 ++ leBytes 4 1 ++ [0x51, 0]

/-- The hash functions with the values they take on the coinbases of the
chain, whose encodings differ in length. -/
def rewardExternal : External where
  toHashers := { Hashers.zero with
    transactionIdHash := fun bytes =>
      match bytes.length with
      | 266 => ⟨[138, 123, 155, 130, 7, 118, 132, 217, 145, 155, 45, 67, 124, 84, 40, 183, 65, 66,
        52, 38, 100, 98, 251, 50, 90, 204, 64, 179, 192, 245, 167, 213], rfl⟩
      | 146 => ⟨[105, 36, 90, 72, 214, 205, 165, 173, 216, 120, 134, 229, 194, 114, 146, 106, 236,
        207, 5, 154, 51, 51, 211, 247, 101, 199, 219, 83, 122, 128, 108, 137], rfl⟩
      | 145 => ⟨[72, 236, 121, 3, 39, 171, 246, 192, 48, 152, 225, 99, 124, 80, 149, 94, 65, 168,
        57, 62, 17, 128, 102, 12, 180, 160, 76, 144, 60, 51, 216, 82], rfl⟩
      | _ => ⟨[140, 180, 79, 155, 206, 200, 67, 147, 7, 146, 50, 154, 192, 127, 195, 25, 123, 147,
        17, 106, 206, 72, 212, 175, 133, 247, 47, 66, 218, 96, 97, 63], rfl⟩
    transactionHash := fun bytes =>
      match bytes.length with
      | 146 => ⟨[94, 18, 70, 253, 124, 212, 63, 231, 214, 165, 191, 109, 75, 202, 39, 184, 5, 135,
        165, 35, 117, 127, 141, 254, 222, 9, 241, 115, 145, 114, 155, 167], rfl⟩
      | 145 => ⟨[245, 227, 244, 234, 149, 17, 237, 40, 12, 109, 116, 74, 207, 80, 123, 141, 167, 85,
        68, 225, 186, 171, 3, 56, 44, 6, 151, 71, 90, 129, 38, 240], rfl⟩
      | _ => ⟨[61, 77, 177, 13, 135, 138, 108, 230, 76, 120, 169, 140, 171, 132, 227, 32, 118, 178,
        230, 176, 121, 176, 51, 86, 4, 99, 116, 250, 145, 218, 135, 77], rfl⟩
    merkleBranchHash := fun bytes =>
      match bytes.head? with
      | some 94 => ⟨[76, 8, 101, 71, 236, 90, 109, 205, 196, 132, 174, 105, 41, 206, 177, 53, 112,
        59, 54, 47, 24, 47, 4, 98, 181, 162, 84, 120, 186, 238, 151, 143, 79, 111, 189, 88, 19,
        63, 133, 167, 22, 119, 142, 6, 210, 50, 243, 31], rfl⟩
      | some 245 => ⟨[118, 233, 86, 118, 201, 220, 96, 114, 83, 224, 194, 207, 95, 53, 231, 35, 130,
        66, 61, 81, 140, 44, 125, 70, 245, 218, 136, 33, 110, 5, 126, 168, 12, 144, 209, 228, 249,
        158, 144, 121, 36, 96, 20, 66, 243, 115, 251, 7], rfl⟩
      | _ => ⟨[64, 227, 148, 202, 210, 139, 216, 197, 58, 136, 38, 248, 118, 239, 244, 213, 72, 53,
        255, 211, 18, 167, 156, 188, 228, 153, 191, 32, 94, 8, 56, 26, 244, 97, 39, 118, 87, 110,
        42, 158, 69, 220, 162, 36, 137, 38, 157, 192], rfl⟩ }
  parseAll _ := []

/-- A coinbase that pays some outputs and declares a script for its own
reward. -/
def minedCoinbase (blueScore : Nat) (declared : ScriptPublicKey)
    (paid : List TransactionOutput) : Transaction where
  version := txVersion
  inputs := []
  outputs := paid
  lockTime := 0
  subnetworkId := subnetworkIdCoinbase
  gas := 0
  payload := leBytes 8 blueScore ++ leBytes 8 37002785 ++ leBytes 2 declared.version.toNat ++
    UInt8.ofNat declared.script.length :: declared.script
  mass := 0

/-- A block with nothing but a coinbase, that many blocks after the genesis. The
genesis is in no difficulty window, so the first block has its score. -/
def minedBlock (blueScore : Nat) (parent : Hash) (coinbase : Transaction) : Block where
  header := {
    hash := FixedBytes.replicate 32 (UInt8.ofNat blueScore)
    directParents := [parent]
    hashMerkleRoot := calcHashMerkleRoot rewardExternal.toHashers [coinbase]
    daaScore := UInt64.ofNat (1312859 + blueScore)
    blueScore := UInt64.ofNat blueScore
  }
  transactions := [coinbase]

def genesisHeader : Header where
  hash := ⟨[90, 232, 185, 39, 251, 38, 21, 206, 210, 240, 73, 203, 186, 31, 205, 84, 2, 88, 128,
    160, 68, 247, 198, 108, 69, 167, 110, 216, 213, 139, 169, 242], rfl⟩
  directParents := []
  hashMerkleRoot := ⟨[77, 0, 53, 178, 42, 122, 177, 230, 35, 85, 34, 97, 53, 23, 231, 235, 50, 39,
    15, 95, 208, 130, 179, 77, 202, 157, 212, 39, 160, 100, 129, 12, 41, 89, 249, 215, 173, 181,
    199, 174, 86, 243, 49, 141, 195, 133, 151, 64], rfl⟩
  daaScore := 1312860
  blueScore := 0

/-- Pays nobody and declares the token script. -/
def declaringBlock : Block := minedBlock 1 genesisHeader.hash (minedCoinbase 1 tokenReward [])

def rewardingBlock : Block := minedBlock 2 declaringBlock.header.hash
    (minedCoinbase 2 ⟨0, []⟩ [⟨37002785, tokenReward⟩])

def followingBlock : Block := minedBlock 3 rewardingBlock.header.hash
    (minedCoinbase 3 ⟨0, []⟩ [⟨37002785, ⟨0, []⟩⟩])

/-- The node has no contract side, and no signature is ever checked. -/
def plainEnvironment : ValidationEnvironment := ⟨none, .inOrder, fun _ => false⟩

/-- A block is outside the difficulty window of its child only if it is the
genesis. -/
def outsideWindow (parent : Hash) : List Hash := if parent = genesisHeader.hash then [parent] else
    []

def onTop (parent : Hash) (block : Block) : ChainCandidate where
  block
  ghostdag := ⟨block.header.blueScore, parent, [parent], []⟩
  mergeset := []
  nonDaa := outsideWindow parent
  environment := plainEnvironment

def genesisState : ChainState := ⟨⟨genesisHeader, [genesisCoinbase mainnetGenesisPayload]⟩, ∅,
    plainEnvironment⟩

def rewardStep (state : ChainState) (block : Block) : Option (UtxoProcessingContext × ChainState) :=
  state.extend rewardExternal.toHashers mainnetParams (onTop state.tip.header.hash block)

/-- A block that can be put on top of a state: its body is accepted, its blue
score follows and the step to it succeeds. -/
structure Joining (external : External) (params : Params)
    (step : ChainState → Block → Option (UtxoProcessingContext × ChainState))
    (state : ChainState) where
  block : Block
  accepted : BodyAccepted external params ⟨fun _ => true, .ok 0⟩ block
  higher : block.header.blueScore.toNat = state.tip.header.blueScore.toNat + 1
  stepped : (step state block).isSome = true

theorem joinsChain_of_rewardStep {state : ChainState}
    (joining : Joining rewardExternal mainnetParams rewardStep state) :
    JoinsChain rewardExternal mainnetParams state (onTop state.tip.header.hash joining.block)
      ((rewardStep state joining.block).get joining.stepped).1
      ((rewardStep state joining.block).get joining.stepped).2 where
  bodies := by
    exact forall_mem_singleton.mpr ⟨_, joining.accepted⟩
  selectedParent_blue := mem_singleton_self _
  blueScore_eq := joining.higher
  extended := (some_get joining.stepped).symm

def declaringJoining : Joining rewardExternal mainnetParams rewardStep genesisState where
  block := declaringBlock
  accepted := ⟨⟨(0, 0, 0), by decide +kernel⟩, by decide +kernel⟩
  higher := by decide +kernel
  stepped := by decide +kernel

theorem declaringBlock_steps : (rewardStep genesisState declaringBlock).isSome = true :=
  declaringJoining.stepped

def declaredState : ChainState :=
  ((rewardStep genesisState declaringBlock).get declaringBlock_steps).2

def rewardingJoining : Joining rewardExternal mainnetParams rewardStep declaredState where
  block := rewardingBlock
  accepted := ⟨⟨(0, 0, 0), by decide +kernel⟩, by decide +kernel⟩
  higher := by decide +kernel
  stepped := by decide +kernel

theorem rewardingBlock_steps : (rewardStep declaredState rewardingBlock).isSome = true :=
  rewardingJoining.stepped

def rewardedState : ChainState :=
  ((rewardStep declaredState rewardingBlock).get rewardingBlock_steps).2

def followingJoining : Joining rewardExternal mainnetParams rewardStep rewardedState where
  block := followingBlock
  accepted := ⟨⟨(0, 0, 0), by decide +kernel⟩, by decide +kernel⟩
  higher := by decide +kernel
  stepped := by decide +kernel

theorem followingBlock_steps : (rewardStep rewardedState followingBlock).isSome = true :=
  followingJoining.stepped

theorem genesisState_run : ChainRun rewardExternal mainnetParams [genesisState.tip] genesisState :=
  .genesis genesisHeader mainnetGenesisPayload plainEnvironment (by decide +kernel)

theorem rewardedState_run : ChainRun rewardExternal mainnetParams
    [rewardingBlock, declaringBlock, genesisState.tip] rewardedState :=
  .join (.join genesisState_run (joinsChain_of_rewardStep declaringJoining))
    (joinsChain_of_rewardStep rewardingJoining)

/-- The step from the genesis adds a coinbase without tokens. -/
theorem declaringBlock_conserves : (declaredState.utxo.tokenSupply rewardedToken : Int) =
    genesisState.utxo.tokenSupply rewardedToken +
      ((genesisState.judgements declaringBlock.header.daaScore
        ((rewardStep genesisState declaringBlock).get declaringBlock_steps).1).map
        (Judgement.approvedDelta rewardExternal.toHashers rewardedToken)).sum :=
  (tokenSupply_conserved_iff rewardExternal mainnetParams mainnetParams_countsFitWords
    [genesisState.tip] genesisState declaredState
    (onTop genesisState.tip.header.hash declaringBlock) _ genesisState_run
    (joinsChain_of_rewardStep declaringJoining) (by unfold Hashers.CollisionFree; decide +kernel)
    rewardedToken).mpr (by decide +kernel)

/-- The step after the rewarding block creates a thousand units of a token that
no transaction minted. -/
theorem followingBlock_inflates : ChainRun rewardExternal mainnetParams
      [rewardingBlock, declaringBlock, genesisState.tip] rewardedState ∧
    JoinsChain rewardExternal mainnetParams rewardedState
      (onTop rewardedState.tip.header.hash followingBlock)
      ((rewardStep rewardedState followingBlock).get followingBlock_steps).1
      ((rewardStep rewardedState followingBlock).get followingBlock_steps).2 ∧
    (((rewardStep rewardedState followingBlock).get
        followingBlock_steps).2.utxo.tokenSupply rewardedToken : Int) ≠
      rewardedState.utxo.tokenSupply rewardedToken +
        ((rewardedState.judgements followingBlock.header.daaScore
          ((rewardStep rewardedState followingBlock).get followingBlock_steps).1).map
          (Judgement.approvedDelta rewardExternal.toHashers rewardedToken)).sum :=
  ⟨rewardedState_run, joinsChain_of_rewardStep followingJoining, by decide +kernel⟩

end Sophis
