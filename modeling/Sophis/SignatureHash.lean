import Sophis.TransactionHashing

namespace Sophis

open ByteCodec

/-!
# The message a signature signs

`consensus/core/src/hashing/sighash.rs`. The values the source keeps between
the inputs of one transaction depend only on that transaction, so they are
computed afresh here.
-/

/-- Which parts of a transaction a signature covers. -/
structure SigHashType where
  value : UInt8
  deriving Repr, DecidableEq

namespace SigHashType

def all : SigHashType := ⟨0b00000001⟩

def none : SigHashType := ⟨0b00000010⟩

def single : SigHashType := ⟨0b00000100⟩

def anyOneCanPay : SigHashType := ⟨0b10000000⟩

def mask : UInt8 := 0b00000111

def allowedValues : List UInt8 := [all.value, none.value, single.value,
    all.value ||| anyOneCanPay.value, none.value ||| anyOneCanPay.value,
    single.value ||| anyOneCanPay.value]

def fromU8 (value : UInt8) : Option SigHashType :=
  if value ∈ allowedValues then some ⟨value⟩ else Option.none

def isSighashNone (hashType : SigHashType) : Bool := hashType.value &&& mask == none.value

def isSighashSingle (hashType : SigHashType) : Bool := hashType.value &&& mask == single.value

def isSighashAnyoneCanPay (hashType : SigHashType) : Bool :=
  hashType.value &&& anyOneCanPay.value == anyOneCanPay.value

end SigHashType

variable (hashers : Hashers)

def previousOutputsHash (tx : Transaction) (hashType : SigHashType) : Hash :=
  if hashType.isSighashAnyoneCanPay then
    zeroHash
  else
    hashers.transactionSigningHash
      (tx.inputs.flatMap fun input => writeOutpoint input.previousOutpoint)

def sequencesHash (tx : Transaction) (hashType : SigHashType) : Hash :=
  if hashType.isSighashSingle || hashType.isSighashAnyoneCanPay || hashType.isSighashNone then
    zeroHash
  else
    hashers.transactionSigningHash (tx.inputs.flatMap fun input => leBytes 8 input.sequence.toNat)

def sigOpCountsHash (tx : Transaction) (hashType : SigHashType) : Hash :=
  if hashType.isSighashAnyoneCanPay then
    zeroHash
  else
    hashers.transactionSigningHash (tx.inputs.map TransactionInput.sigOpCount)

def payloadHash (tx : Transaction) : Hash :=
  if tx.isNative && tx.payload.isEmpty then
    zeroHash
  else
    hashers.transactionSigningHash (writeVarBytes tx.payload)

/-- A signature over one output covers the output at the position of the
input, if there is one. -/
def outputsHash (tx : Transaction) (hashType : SigHashType) (inputIndex : Nat) : Hash :=
  if hashType.isSighashNone then
    zeroHash
  else if hashType.isSighashSingle then
    match tx.outputs[inputIndex]? with
    | Option.none => zeroHash
    | some output => hashers.transactionSigningHash (writeOutput output)
  else
    hashers.transactionSigningHash (tx.outputs.flatMap writeOutput)

def hashScriptPublicKey (spk : ScriptPublicKey) : List UInt8 :=
  leBytes 2 spk.version.toNat ++ writeVarBytes spk.script

/-- The message signed for one input. It commits to the entry the input
really spends. -/
def calcSignatureHash (populated : PopulatedTransaction)
    (index : Fin populated.tx.inputs.length) (hashType : SigHashType) :
    Hash :=
  let tx := populated.tx
  let (input, entry) := populated.populatedInput index
  hashers.transactionSigningHash (leBytes 2 tx.version.toNat ++
    (previousOutputsHash hashers tx hashType).bytes ++
    (sequencesHash hashers tx hashType).bytes ++
    (sigOpCountsHash hashers tx hashType).bytes ++
    writeOutpoint input.previousOutpoint ++
    hashScriptPublicKey entry.scriptPublicKey ++
    leBytes 8 entry.amount.toNat ++
    leBytes 8 input.sequence.toNat ++
    [input.sigOpCount] ++
    (outputsHash hashers tx hashType index).bytes ++
    leBytes 8 tx.lockTime.toNat ++
    tx.subnetworkId.bytes ++
    leBytes 8 tx.gas.toNat ++
    (payloadHash hashers tx).bytes ++
    [hashType.value])

end Sophis
