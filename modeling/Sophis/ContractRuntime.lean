import Sophis.ConsensusStores

namespace Sophis

open ByteCodec MachineWord

/-!
# Running contracts

The execution context that the validator hands to the contract runtime, with
the data availability, lookup-table and randomness backends a contract can
query (`consensus/src/svm_da.rs`, `svm_alt.rs`, `svm_vrf.rs`). The WASM
engine itself is third-party code and stays a parameter.
-/

/-- Answers `sophis_verify_da`. -/
structure HostDa where
  verifyPayload : PayloadId → UInt64 → Bool
  verifyBundle : PayloadId → UInt64 → Bool

/-- Answers `sophis_alt_lookup` with a script version and a script. -/
structure HostAlt where
  resolveReference : AltHandle → UInt8 → Option (UInt16 × List UInt8)

/-- Answers `sophis_vrf_random_at`. -/
structure HostVrf where
  vrfRandomAt : UInt64 → Option (FixedBytes 32)
  currentTipIndex : UInt64

def stubDa : HostDa := ⟨fun _ _ => false, fun _ _ => false⟩

def stubAlt : HostAlt := ⟨fun _ _ => none⟩

def stubVrf : HostVrf := ⟨fun _ => none, 0⟩

namespace SophisDaBackend

variable (store : DaStore) (currentBlueScore : UInt64)

/-- How far the live virtual state is above the block that accepted a
payload. -/
def confirmations (acceptingBlueScore : UInt64) : UInt64 :=
  saturatingSub currentBlueScore acceptingBlueScore

def verifyPayload (payload : PayloadId) (minConfirmations : UInt64) : Bool :=
  match store.payloads payload with
  | some fragment => confirmations currentBlueScore fragment.blueScore ≥ minConfirmations
  | none => false

/-- A bundle is available when it is complete and each of its fragments is.
The number of fragments is compared as a byte. -/
def verifyBundle (bundle : PayloadId) (minConfirmations : UInt64) : Bool :=
  match store.bundles bundle with
  | none => false
  | some index =>
    UInt8.ofNat index.payloadIds.length = index.fragmentCount && index.payloadIds.all fun payload =>
      verifyPayload store currentBlueScore payload minConfirmations

def new : HostDa where
  verifyPayload := verifyPayload store currentBlueScore
  verifyBundle := verifyBundle store currentBlueScore

end SophisDaBackend

/-- Reads an entry of a table, whichever block created it. -/
def SophisAltBackend.new (store : AltStore) : HostAlt where
  resolveReference := fun handle index => do
    let entry ← store handle
    let record ← entry.entries[index.toNat]?
    return (record.spkVersion, record.spkScript)

/-- The text `sophis-vrf-v1` and a null byte. -/
def vrfDomainSeparator : List UInt8 :=
  [0x73, 0x6f, 0x70, 0x68, 0x69, 0x73, 0x2d, 0x76, 0x72, 0x66, 0x2d, 0x76, 0x31, 0]

namespace SophisVrfBackend

variable (hashers : Hashers) (chain : SelectedChainStore)

/-- The randomness of a chain block is the first 32 bytes of the digest of
its index and hash. -/
def vrfRandomAt (index : UInt64) : Option (FixedBytes 32) := do
  let block ← chain.getByIndex index
  let digest := hashers.sha3 (vrfDomainSeparator ++ leBytes 8 index.toNat ++ block.bytes)
  return FixedBytes.ofPrefix 32 digest.bytes

def new : HostVrf where
  vrfRandomAt := vrfRandomAt hashers chain
  currentTipIndex := (chain.getTip.map Prod.fst).getD 0

end SophisVrfBackend

/-- What a contract sees of its transaction and block. -/
structure ExecutionContext where
  inputUtxos : List (List UInt8)
  outputUtxos : List (List UInt8)
  blockHeight : UInt64
  manifest : ContractManifest
  contractId : ContractId
  da : HostDa
  alt : HostAlt
  vrf : HostVrf

/-- Runs WASM code under a fuel budget and returns whether the contract
approved, or the text of a runtime error. -/
structure ContractExecutor where
  execute : ContractId → List UInt8 → ExecutionContext → UInt64 → Except String Bool

def defaultFuelBudget : UInt64 := 10000000

def ScriptPublicKey.toBorsh (spk : ScriptPublicKey) : List UInt8 :=
  leBytes 2 spk.version.toNat ++ leBytes 4 spk.script.length ++ spk.script

def UtxoEntry.toBorsh (entry : UtxoEntry) : List UInt8 :=
  leBytes 8 entry.amount.toNat ++ entry.scriptPublicKey.toBorsh ++
    leBytes 8 entry.blockDaaScore.toNat ++
    [if entry.isCoinbase then 1 else 0]

def TransactionOutput.toBorsh (output : TransactionOutput) : List UInt8 :=
  leBytes 8 output.value.toNat ++ output.scriptPublicKey.toBorsh

/-- The contract side of the validator: the WASM engine, the code store and
the stores that the host backends read. -/
structure SvmContext where
  executor : ContractExecutor
  store : ContractStore
  daStore : Option DaStore
  lkgBlueScore : Option UInt64
  altStore : Option AltStore
  selectedChainStore : Option SelectedChainStore
  headersDaaScore : Option (Hash → Option UInt64)
  pruningPoint : Option (Option Hash)
  pendingChainBlocks : List Hash

namespace SvmContext

variable (hashers : Hashers) (svm : SvmContext)

/-- The availability backend reads the live virtual state when it is known,
and counts no confirmations otherwise. -/
def buildDaBackend : HostDa := match svm.daStore, svm.lkgBlueScore with
  | some store, some blueScore => SophisDaBackend.new store blueScore
  | some store, none => SophisDaBackend.new store 0
  | none, _ => stubDa

def buildAltBackend : HostAlt := match svm.altStore with
  | some store => SophisAltBackend.new store
  | none => stubAlt

def buildVrfBackend : HostVrf := match svm.selectedChainStore with
  | some chain => SophisVrfBackend.new hashers chain
  | none => stubVrf

def executionContext (populated : PopulatedTransaction)
    (povDaaScore : UInt64) (manifest : ContractManifest)
    (contractId : ContractId) : ExecutionContext where
  inputUtxos := populated.entries.map UtxoEntry.toBorsh
  outputUtxos := populated.tx.outputs.map TransactionOutput.toBorsh
  blockHeight := povDaaScore
  manifest := manifest
  contractId := contractId
  da := svm.buildDaBackend
  alt := svm.buildAltBackend
  vrf := svm.buildVrfBackend hashers

def runContract (populated : PopulatedTransaction) (povDaaScore : UInt64)
    (manifest : ContractManifest) (contractId : ContractId)
    (wasm : List UInt8) : Except String Bool :=
  svm.executor.execute contractId wasm
    (svm.executionContext hashers populated povDaaScore manifest contractId) defaultFuelBudget

end SvmContext

/-- The manifest that transfer and minting policies run under. -/
def policyManifest (policy : ContractId) : ContractManifest where
  scriptHash := policy
  upgradePolicy := .immutable
  requiredCapabilities := [.readUtxo, .readBlockHeight, .verifyDilithium, .hashSha3]

end Sophis
