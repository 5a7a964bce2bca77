import Sophis.Transaction

namespace Sophis

open ByteCodec

/-!
# Transaction identifiers and Merkle roots

The byte encoding of `consensus/core/src/hashing/tx.rs`, the identifier and
hash derived from it, and the Merkle root of `crypto/merkle`.
-/

/-- Which transaction fields the encoding leaves out. -/
structure TxEncodingFlags where
  excludeSignatureScript : Bool
  excludeMassCommit : Bool
  deriving Repr, DecidableEq

namespace TxEncodingFlags

def full : TxEncodingFlags := ⟨false, false⟩

def identifier : TxEncodingFlags := ⟨true, true⟩

end TxEncodingFlags

/-- A length as eight little-endian bytes. -/
def writeLen (length : Nat) : List UInt8 := leBytes 8 length

/-- A length followed by the bytes. -/
def writeVarBytes (bytes : List UInt8) : List UInt8 := writeLen bytes.length ++ bytes

def writeOutpoint (outpoint : TransactionOutpoint) : List UInt8 :=
  outpoint.transactionId.bytes ++ leBytes 4 outpoint.index.toNat

def writeInput (flags : TxEncodingFlags) (input : TransactionInput) : List UInt8 :=
  writeOutpoint input.previousOutpoint ++ (if flags.excludeSignatureScript then
      writeVarBytes []
    else
      writeVarBytes input.signatureScript ++ [input.sigOpCount]) ++
    leBytes 8 input.sequence.toNat

def writeOutput (output : TransactionOutput) : List UInt8 := leBytes 8 output.value.toNat ++
    leBytes 2 output.scriptPublicKey.version.toNat ++
    writeVarBytes output.scriptPublicKey.script

/-- The mass commitment is written only when it is positive. -/
def writeMassCommit (flags : TxEncodingFlags) (mass : UInt64) : List UInt8 :=
  if flags.excludeMassCommit = false ∧ mass > 0 then
    leBytes 8 mass.toNat
  else
    []

def writeTransaction (flags : TxEncodingFlags) (tx : Transaction) : List UInt8 :=
  leBytes 2 tx.version.toNat ++
    (writeLen tx.inputs.length ++ tx.inputs.flatMap (writeInput flags)) ++
    (writeLen tx.outputs.length ++ tx.outputs.flatMap writeOutput) ++
    leBytes 8 tx.lockTime.toNat ++
    tx.subnetworkId.bytes ++
    leBytes 8 tx.gas.toNat ++
    writeVarBytes tx.payload ++
    writeMassCommit flags tx.mass

namespace Transaction

/-- A coinbase is identified by all of its fields, any other transaction by
those that are not filled in when it is signed. -/
def encodingFlags (tx : Transaction) : TxEncodingFlags :=
  if tx.isCoinbase then .full else .identifier

def id (hashers : Hashers) (tx : Transaction) : TransactionId :=
  hashers.transactionIdHash (writeTransaction tx.encodingFlags tx)

def hash (hashers : Hashers) (tx : Transaction) : Hash :=
  hashers.transactionHash (writeTransaction .full tx)

end Transaction

def zeroHash : Hash := FixedBytes.replicate 32 0

def zeroMerkleHash : MerkleHash := FixedBytes.replicate 48 0

/-- Hash functions to start a concrete choice from; each example replaces the
ones it calls. -/
def Hashers.zero : Hashers where
  sha3 _ := FixedBytes.replicate 48 0
  wasmHash _ := zeroHash
  mintPolicyHash _ := zeroHash
  transactionIdHash _ := zeroHash
  transactionHash _ := zeroHash
  transactionSigningHash _ := zeroHash
  merkleBranchHash _ := zeroMerkleHash
  sha256 _ := zeroHash
  blake2b _ := zeroHash

/-- A stand-in for the hashes of transactions: the encoding as a number, up to
a large prime. -/
def fingerprint (bytes : List UInt8) : Hash :=
  FixedBytes.ofPrefix 32 (leBytes 8 (leValue bytes % 2305843009213693951))

variable (hashers : Hashers)

def merkleHashFromTx (left right : Hash) : MerkleHash :=
  hashers.merkleBranchHash (left.bytes ++ right.bytes)

def merkleHashFromNode (left right : MerkleHash) : MerkleHash :=
  hashers.merkleBranchHash (left.bytes ++ right.bytes)

/-- Hashes leaves pairwise; a missing right leaf is the zero hash. -/
def merkleLeafLevel : List Hash → List (Option MerkleHash)
  | left :: right :: rest => some (merkleHashFromTx hashers left right) :: merkleLeafLevel rest
  | [left] => [some (merkleHashFromTx hashers left zeroHash)]
  | [] => []

/-- Hashes nodes pairwise; a missing right node is the zero node. -/
def merkleNodeLevel : List (Option MerkleHash) → List (Option MerkleHash)
  | left :: right :: rest =>
    left.map (merkleHashFromNode hashers · (right.getD zeroMerkleHash)) :: merkleNodeLevel rest
  | [left] => [left.map (merkleHashFromNode hashers · zeroMerkleHash)]
  | [] => []

/-- Repeats the node level until one node is left. The fuel bounds the number
of levels. -/
def merkleFold : Nat → List (Option MerkleHash) → MerkleHash
  | 0, nodes => (nodes.head?.join).getD zeroMerkleHash
  | levels + 1, nodes =>
    if nodes.length > 1 then
      merkleFold levels (merkleNodeLevel hashers nodes)
    else
      (nodes.head?.join).getD zeroMerkleHash

/-- The smallest power of two that is not below a number. -/
def nextPowerOfTwo (number : Nat) : Nat := if number ≤ 1 then 1 else 2 ^ (Nat.log2 (number - 1) + 1)

def calcMerkleRoot (leaves : List Hash) : MerkleHash := match leaves with
  | [] => zeroMerkleHash
  | [leaf] => merkleHashFromTx hashers leaf zeroHash
  | _ =>
    let pairs := merkleLeafLevel hashers leaves
    let width := nextPowerOfTwo leaves.length / 2
    merkleFold hashers leaves.length (pairs ++ List.replicate (width - pairs.length) none)

/-- The root a header commits its transactions with. -/
def calcHashMerkleRoot (txs : List Transaction) : MerkleHash :=
  calcMerkleRoot hashers (txs.map (Transaction.hash hashers))

end Sophis
