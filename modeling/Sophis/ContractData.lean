import Sophis.Transaction

namespace Sophis

open ByteCodec

/-!
# Contract and token data carried by scripts and payloads

The borsh-encoded records of `svm/core`: the data a contract or token output
stores in its script, and the payloads that deploy contract code and minting
policies.
-/

/-- Identifies deployed code by the hash of its bytes. -/
abbrev ContractId := Hash

/-- Identifies a token by the hash of its minting policy. -/
abbrev TokenId := Hash

/-- An ML-DSA-44 verification key. -/
abbrev DilithiumPublicKey := FixedBytes 1312

def upgradeMinBlocks : UInt64 := 10000

def maxMultisigKeys : Nat := 16

def maxTokenLockScriptLen : Nat := 200

def maxBytecodeSize : Nat := 1024 * 1024

/-- What a contract may ask of its host. -/
inductive Capability where
  | readUtxo
  | produceOutput
  | verifyDilithium
  | readBlockHeight
  | hashSha3
  | verifyRisc0Proof
  | verifyPlonky3Proof
  | verifyDataAvailability
  | resolveAlt
  | emitEvent
  | vrfRandomness
  deriving Repr, DecidableEq

/-- Who may change a contract, and when. -/
inductive UpgradePolicy where
  | immutable
  | ownerTimelock (ownerPk : DilithiumPublicKey) (minBlocks : UInt64)
  | multisigTimelock
    (threshold : UInt8) (keys : List DilithiumPublicKey)
    (minBlocks : UInt64)
  deriving Repr, DecidableEq

/-- Timelocks are long enough and thresholds are reachable. -/
def UpgradePolicy.isValid : UpgradePolicy → Bool
  | .immutable => true
  | .ownerTimelock _ minBlocks => minBlocks ≥ upgradeMinBlocks
  | .multisigTimelock threshold keys minBlocks =>
    minBlocks ≥ upgradeMinBlocks && threshold > 0 &&
      keys.length > 0 && keys.length ≤ maxMultisigKeys &&
      threshold.toNat ≤ keys.length

/-- What a contract declares once and for all when it is deployed. -/
structure ContractManifest where
  scriptHash : Hash
  upgradePolicy : UpgradePolicy
  requiredCapabilities : List Capability
  deriving Repr, DecidableEq

/-- The script of a contract output. -/
structure ContractUtxoData where
  contractId : ContractId
  datum : List UInt8
  manifest : ContractManifest
  deriving Repr, DecidableEq

/-- The script of a token output. -/
structure NativeTokenUtxoData where
  tokenId : TokenId
  tokenAmount : UInt64
  lockScript : List UInt8
  transferPolicyId : Option ContractId
  deriving Repr, DecidableEq

/-- The payload that deploys a contract. -/
structure ContractDeployPayload where
  wasm : List UInt8
  deriving Repr, DecidableEq

/-- The payload that sets up a token. -/
structure MintingPolicyPayload where
  wasm : List UInt8
  deriving Repr, DecidableEq

section

open Decoder

def Capability.decoder : Decoder Capability := do
  match ← u8 with
  | 0 => return .readUtxo
  | 1 => return .produceOutput
  | 2 => return .verifyDilithium
  | 3 => return .readBlockHeight
  | 4 => return .hashSha3
  | 5 => return .verifyRisc0Proof
  | 6 => return .verifyPlonky3Proof
  | 7 => return .verifyDataAvailability
  | 8 => return .resolveAlt
  | 9 => return .emitEvent
  | 10 => return .vrfRandomness
  | tag => throw (.unexpectedVariantTag tag)

/-- A key is read in one piece, with the reader's own error when the input is
short. -/
def dilithiumPublicKeyDecoder : Decoder DilithiumPublicKey := bytesOr .failedToFillWholeBuffer 1312

def UpgradePolicy.decoder : Decoder UpgradePolicy := do
  match ← u8 with
  | 0 => return .immutable
  | 1 =>
    let ownerPk ← dilithiumPublicKeyDecoder
    let minBlocks ← u64
    return .ownerTimelock ownerPk minBlocks
  | 2 =>
    let threshold ← u8
    let keys ← vector dilithiumPublicKeyDecoder
    let minBlocks ← u64
    return .multisigTimelock threshold keys minBlocks
  | tag => throw (.unexpectedVariantTag tag)

def ContractManifest.decoder : Decoder ContractManifest := do
  let scriptHash ← fixedBytes 32
  let upgradePolicy ← UpgradePolicy.decoder
  let requiredCapabilities ← vector Capability.decoder
  return { scriptHash, upgradePolicy, requiredCapabilities }

def ContractUtxoData.decoder : Decoder ContractUtxoData := do
  let contractId ← fixedBytes 32
  let datum ← byteVector
  let manifest ← ContractManifest.decoder
  return { contractId, datum, manifest }

def NativeTokenUtxoData.decoder : Decoder NativeTokenUtxoData := do
  let tokenId ← fixedBytes 32
  let tokenAmount ← u64
  let lockScript ← byteVector
  let transferPolicyId ← option (fixedBytes 32)
  return { tokenId, tokenAmount, lockScript, transferPolicyId }

end

def ContractUtxoData.tryFromSlice (bytes : List UInt8) : Except DecodeError ContractUtxoData :=
  decodeAll ContractUtxoData.decoder bytes

def NativeTokenUtxoData.tryFromSlice (bytes : List UInt8) :
    Except DecodeError NativeTokenUtxoData :=
  decodeAll NativeTokenUtxoData.decoder bytes

def ContractDeployPayload.tryFromSlice (bytes : List UInt8) :
    Except DecodeError ContractDeployPayload :=
  ContractDeployPayload.mk <$> decodeAll Decoder.byteVector bytes

def MintingPolicyPayload.tryFromSlice (bytes : List UInt8) :
    Except DecodeError MintingPolicyPayload :=
  MintingPolicyPayload.mk <$> decodeAll Decoder.byteVector bytes

end Sophis
