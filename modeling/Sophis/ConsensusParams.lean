import Sophis.IsolationValidation
import Sophis.TransactionMass

namespace Sophis

/-!
# Consensus parameters

The fields of `Params` that the modelled rules read, and their mainnet values.
-/

/-- A parameter that changes at an activation score. -/
structure ForkedParam where
  pre : UInt64
  post : UInt64
  activation : UInt64
  deriving Repr, DecidableEq

namespace ForkedParam

def isActive (param : ForkedParam) (daaScore : UInt64) : Bool := daaScore ≥ param.activation

/-- The value before activation; a fork that was always active has none. -/
def before (param : ForkedParam) : UInt64 := if param.activation = 0 then param.post else param.pre

/-- The value after activation; a fork that never activates keeps the old
one. -/
def after (param : ForkedParam) : UInt64 :=
  if param.activation = 0xFFFFFFFFFFFFFFFF then param.pre else param.post

end ForkedParam

/-- The rules of a network. -/
structure Params where
  coinbasePayloadScriptPublicKeyMaxLen : UInt8
  maxCoinbasePayloadLen : Nat
  maxTxInputs : Nat
  maxTxOutputs : Nat
  maxSignatureScriptLen : Nat
  maxScriptPublicKeyLen : Nat
  massPerTxByte : Nat
  massPerScriptPubKeyByte : Nat
  massPerSigOp : Nat
  maxBlockMass : Nat
  storageMassParameter : UInt64
  deflationaryPhaseDaaScore : UInt64
  preDeflationaryPhaseBaseSubsidy : UInt64
  preCrescendoTargetTimePerBlock : UInt64
  targetTimePerBlock : UInt64
  crescendoActivation : UInt64
  ghostdagK : UInt16
  coinbaseMaturity : UInt64
  deriving Repr, DecidableEq

namespace Params

def bpsHistory (params : Params) : ForkedParam where
  pre := 1000 / params.preCrescendoTargetTimePerBlock
  post := 1000 / params.targetTimePerBlock
  activation := params.crescendoActivation

def transactionValidator (params : Params) : TransactionValidator where
  maxTxInputs := params.maxTxInputs
  maxTxOutputs := params.maxTxOutputs
  maxSignatureScriptLen := params.maxSignatureScriptLen
  maxScriptPublicKeyLen := params.maxScriptPublicKeyLen
  coinbasePayloadScriptPublicKeyMaxLen := params.coinbasePayloadScriptPublicKeyMaxLen
  coinbaseMaturity := params.coinbaseMaturity
  ghostdagK := params.ghostdagK

def massCalculator (params : Params) : MassCalculator where
  massPerTxByte := params.massPerTxByte
  massPerScriptPubKeyByte := params.massPerScriptPubKeyByte
  massPerSigOp := params.massPerSigOp
  storageMassParameter := params.storageMassParameter

end Params

def tenBps : UInt64 := 10

/-- The mainnet parameters: ten blocks per second from genesis on. -/
def mainnetParams : Params where
  coinbasePayloadScriptPublicKeyMaxLen := 150
  maxCoinbasePayloadLen := 204
  maxTxInputs := 1000
  maxTxOutputs := 1000
  maxSignatureScriptLen := 10000
  maxScriptPublicKeyLen := 10000
  massPerTxByte := 1
  massPerScriptPubKeyByte := 10
  massPerSigOp := 1000
  maxBlockMass := 500000
  storageMassParameter := sompiPerSophis * 10000
  deflationaryPhaseDaaScore := tenBps * (15778800 - 259200)
  preDeflationaryPhaseBaseSubsidy := 370027857 / tenBps
  preCrescendoTargetTimePerBlock := 1000 / tenBps
  targetTimePerBlock := 1000 / tenBps
  crescendoActivation := 0
  ghostdagK := 124
  coinbaseMaturity := tenBps * 100

end Sophis
