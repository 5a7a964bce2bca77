import Mathlib.Data.List.Lex
import Mathlib.Data.List.Sort
import Mathlib.Data.Prod.Lex
import Sophis.ByteCodec

namespace Sophis

open ByteCodec List Option

/-!
# The state of the rollup

The types of `rollup/core/src/types.rs` with their borsh encoding, and the Merkle
root of `rollup/core/src/merkle.rs`. The hash functions and the signature check
are arbitrary.
-/

/-- The hash of a verification key. -/
abbrev L2Address := FixedBytes 48

/-- The commitment to a set of outputs. -/
abbrev StateRoot := FixedBytes 48

/-- The transaction and the position of an output. -/
structure L2UtxoId where
  txid : FixedBytes 32
  index : UInt32
  deriving DecidableEq

/-- An unspent output of the rollup. -/
structure L2Utxo where
  id : L2UtxoId
  address : L2Address
  amount : UInt64
  deriving DecidableEq

/-- An address and an amount. -/
structure L2TxOutput where
  address : L2Address
  amount : UInt64
  deriving DecidableEq

/-- What the inputs of a transaction sign. -/
structure L2TxBody where
  inputUtxoIds : List L2UtxoId
  outputs : List L2TxOutput
  fee : UInt64
  deriving DecidableEq

/-- A spent output with key and signature. -/
structure L2TxInput where
  utxoId : L2UtxoId
  verificationKey : FixedBytes 1312
  signature : FixedBytes 2420
  deriving DecidableEq

/-- A transaction of the rollup. -/
structure L2Tx where
  body : L2TxBody
  inputs : List L2TxInput
  deriving DecidableEq

/-- Value that enters from L1. -/
structure Deposit where
  l1TxId : FixedBytes 32
  l1OutputIndex : UInt32
  l2Address : L2Address
  amount : UInt64

/-- Value that leaves to L1. -/
structure Withdrawal where
  l2TxId : FixedBytes 32
  l1Address : FixedBytes 48
  amount : UInt64

/-- What the sequencer submits at once. -/
structure Batch where
  sequence : UInt64
  l1AnchorBlock : UInt64
  prevStateRoot : StateRoot
  txs : List L2Tx
  deposits : List Deposit
  withdrawals : List Withdrawal

/-- What a proof says about a batch. -/
structure BatchJournal where
  sequence : UInt64
  prevStateRoot : StateRoot
  newStateRoot : StateRoot
  batchHash : FixedBytes 32
  depositCount : UInt32
  withdrawalCount : UInt32
  withdrawalsHash : FixedBytes 48
  l1AnchorBlock : UInt64
  daBundleId : FixedBytes 48

/-- A vector: its length, which must fit four bytes, and its items. -/
def borshVec {α : Type} (encode : α → Option (List UInt8))
    (items : List α) : Option (List UInt8) := do
  guard (items.length < 256 ^ 4)
  let encoded ← items.mapM encode
  return leBytes 4 items.length ++ encoded.flatten

def L2UtxoId.toBorsh (id : L2UtxoId) : List UInt8 :=
  id.txid.bytes ++ leBytes 4 id.index.toNat

def L2Utxo.toBorsh (utxo : L2Utxo) : List UInt8 :=
  utxo.id.toBorsh ++ utxo.address.bytes ++ leBytes 8 utxo.amount.toNat

def L2TxOutput.toBorsh (output : L2TxOutput) : List UInt8 :=
  output.address.bytes ++ leBytes 8 output.amount.toNat

def L2TxBody.toBorsh (body : L2TxBody) : Option (List UInt8) := do
  let ids ← borshVec (fun id => some id.toBorsh) body.inputUtxoIds
  let outputs ← borshVec (fun output => some output.toBorsh) body.outputs
  return ids ++ outputs ++ leBytes 8 body.fee.toNat

def L2TxInput.toBorsh (input : L2TxInput) : List UInt8 :=
  input.utxoId.toBorsh ++ input.verificationKey.bytes ++ input.signature.bytes

def L2Tx.toBorsh (tx : L2Tx) : Option (List UInt8) := do
  let body ← tx.body.toBorsh
  let inputs ← borshVec (fun input => some input.toBorsh) tx.inputs
  return body ++ inputs

def Deposit.toBorsh (deposit : Deposit) : List UInt8 :=
  deposit.l1TxId.bytes ++ leBytes 4 deposit.l1OutputIndex.toNat ++
    deposit.l2Address.bytes ++ leBytes 8 deposit.amount.toNat

def Withdrawal.toBorsh (withdrawal : Withdrawal) : List UInt8 :=
  withdrawal.l2TxId.bytes ++ withdrawal.l1Address.bytes ++ leBytes 8 withdrawal.amount.toNat

def Batch.toBorsh (batch : Batch) : Option (List UInt8) := do
  let txs ← borshVec L2Tx.toBorsh batch.txs
  let deposits ← borshVec (fun deposit => some deposit.toBorsh) batch.deposits
  let withdrawals ← borshVec (fun withdrawal => some withdrawal.toBorsh) batch.withdrawals
  return leBytes 8 batch.sequence.toNat ++
    leBytes 8 batch.l1AnchorBlock.toNat ++ batch.prevStateRoot.bytes ++
    txs ++ deposits ++ withdrawals

variable {rest otherRest : List UInt8}

theorem L2UtxoId.toBorsh_append_inj {id other : L2UtxoId}
    (eq : id.toBorsh ++ rest = other.toBorsh ++ otherRest) : id = other ∧ rest = otherRest := by
  simp only [toBorsh, append_assoc] at eq
  obtain ⟨sameTxid, afterTxid⟩ := FixedBytes.append_inj eq
  obtain ⟨sameIndex, sameRest⟩ := leBytes_uint32_append_inj afterTxid
  refine ⟨?_, sameRest⟩
  cases id
  cases other
  rw [L2UtxoId.mk.injEq]
  exact ⟨sameTxid, sameIndex⟩

theorem L2TxOutput.toBorsh_append_inj {output other : L2TxOutput}
    (eq : output.toBorsh ++ rest = other.toBorsh ++ otherRest) :
    output = other ∧ rest = otherRest := by
  simp only [toBorsh, append_assoc] at eq
  obtain ⟨sameAddress, afterAddress⟩ := FixedBytes.append_inj eq
  obtain ⟨sameAmount, sameRest⟩ := leBytes_uint64_append_inj afterAddress
  refine ⟨?_, sameRest⟩
  cases output
  cases other
  rw [L2TxOutput.mk.injEq]
  exact ⟨sameAddress, sameAmount⟩

variable {α : Type} {encode : α → List UInt8} {items : List α} {encoded : List UInt8}

theorem borshVec_eq_some_iff : borshVec (fun item => some (encode item)) items = some encoded ↔
    items.length < 256 ^ 4 ∧ leBytes 4 items.length ++ items.flatMap encode = encoded := by
  have all : items.mapM (fun item => some (encode item)) = some (items.map encode) := mapM_pure
  simp only [borshVec, all, bind_eq_bind, bind_eq_some_iff, guard_eq_some', Option.pure_def,
    Option.some.injEq, exists_eq_left', flatMap_def]
  exact exists_const _

theorem borshVec_append_inj (split : ∀ {first second : α} {rest otherRest : List UInt8},
      encode first ++ rest = encode second ++ otherRest →
        first = second ∧ rest = otherRest) {others : List α} {other : List UInt8}
    (isEncoded : borshVec (fun item => some (encode item)) items = some encoded)
    (isOther : borshVec (fun item => some (encode item)) others = some other)
    (eq : encoded ++ rest = other ++ otherRest) : items = others ∧ rest = otherRest := by
  obtain ⟨fits, rfl⟩ := borshVec_eq_some_iff.mp isEncoded
  obtain ⟨othersFit, rfl⟩ := borshVec_eq_some_iff.mp isOther
  rw [append_assoc, append_assoc] at eq
  obtain ⟨sameLength, afterLength⟩ := leBytes_append_inj fits othersFit eq
  exact flatMap_append_inj (fun _ _ equal => split equal) sameLength
    (fun _ _ => trivial) (fun _ _ => trivial) afterLength

/-- Bodies that can be encoded are known from their encoding. -/
theorem L2TxBody.eq_of_toBorsh_eq {body other : L2TxBody} (isEncoded : body.toBorsh = some encoded)
    (isOther : other.toBorsh = some encoded) : body = other := by
  simp only [toBorsh, bind_eq_bind, bind_eq_some_iff,
    Option.pure_def, Option.some.injEq] at isEncoded isOther
  obtain ⟨ids, idsEncoded, outputs, outputsEncoded, rfl⟩ := isEncoded
  obtain ⟨otherIds, otherIdsEncoded, otherOutputs, otherOutputsEncoded, eq⟩ := isOther
  rw [append_assoc, append_assoc] at eq
  obtain ⟨sameIds, afterIds⟩ := borshVec_append_inj
    L2UtxoId.toBorsh_append_inj otherIdsEncoded idsEncoded eq
  obtain ⟨sameOutputs, sameFee⟩ := borshVec_append_inj
    L2TxOutput.toBorsh_append_inj otherOutputsEncoded outputsEncoded afterIds
  have fee := (leBytes_uint64_append_inj (congrArg (· ++ []) sameFee)).1
  cases body
  cases other
  rw [L2TxBody.mk.injEq]
  exact ⟨sameIds.symm, sameOutputs.symm, fee.symm⟩

/-- The hash functions and the signature check of the rollup. -/
structure RollupCrypto where
  sha3_256 : List UInt8 → FixedBytes 32
  sha3_384 : List UInt8 → FixedBytes 48
  verify : FixedBytes 1312 → FixedBytes 32 → FixedBytes 2420 → Bool

def domain (text : String) : List UInt8 :=
  text.toUTF8.data.toList

variable (crypto : RollupCrypto)

def L2TxBody.sigHash (body : L2TxBody) : FixedBytes 32 :=
  crypto.sha3_256 (domain "sophis-l2-sighash:" ++ body.toBorsh.getD [])

def L2Tx.txid (tx : L2Tx) : FixedBytes 32 :=
  crypto.sha3_256 (domain "sophis-l2-txid:" ++ tx.toBorsh.getD [])

def Batch.hash (batch : Batch) : FixedBytes 32 :=
  crypto.sha3_256 (domain "sophis-l2-batch:" ++ batch.toBorsh.getD [])

def hashWithdrawals (withdrawals : List Withdrawal) : FixedBytes 48 :=
  crypto.sha3_384 (domain "sophis-l2-withdrawals:" ++
    (borshVec (fun withdrawal => some withdrawal.toBorsh) withdrawals).getD [])

def hashLeaf (utxo : L2Utxo) : FixedBytes 48 :=
  crypto.sha3_384 (domain "sophis-l2-leaf:" ++ utxo.toBorsh)

def hashPair (left right : FixedBytes 48) : FixedBytes 48 :=
  crypto.sha3_384 (domain "sophis-l2-node:" ++ left.bytes ++ right.bytes)

/-- Hashes the nodes of a layer pairwise, the last one with itself when it is
alone. -/
def nextLayer : List (FixedBytes 48) → List (FixedBytes 48)
  | [] => []
  | [left] => [hashPair crypto left left]
  | left :: right :: rest => hashPair crypto left right :: nextLayer rest

theorem length_nextLayer (layer : List (FixedBytes 48)) :
    (nextLayer crypto layer).length = (layer.length + 1) / 2 := by
  induction layer using nextLayer.induct with
  | case1 => rfl
  | case2 left => simp [nextLayer]
  | case3 left right rest ih =>
    rw [nextLayer, length_cons, ih, length_cons, length_cons]
    omega

def merkleRoot : List (FixedBytes 48) → StateRoot
  | [] => FixedBytes.replicate 48 0
  | [root] => root
  | left :: right :: rest => merkleRoot (nextLayer crypto (left :: right :: rest))
  termination_by layer => layer.length
  decreasing_by
    rw [length_nextLayer]
    simp only [length_cons]
    omega

/-- The root of a sorted list of outputs. -/
def computeStateRoot (utxos : List L2Utxo) : StateRoot :=
  merkleRoot crypto (utxos.map (hashLeaf crypto))

/-- Identifiers are ordered by the bytes of the transaction, then by the
index. -/
def L2UtxoId.key (id : L2UtxoId) : List Nat ×ₗ Nat :=
  toLex (id.txid.bytes.map UInt8.toNat, id.index.toNat)

theorem L2UtxoId.key_injective : Function.Injective L2UtxoId.key := by
  rintro ⟨⟨bytes, length⟩, index⟩ ⟨⟨otherBytes, otherLength⟩, otherIndex⟩ eq
  obtain ⟨sameBytes, sameIndex⟩ := Prod.mk.inj (toLex.injective eq)
  cases map_injective_iff.mpr (fun _ _ => UInt8.toNat.inj) sameBytes
  cases UInt32.toNat.inj sameIndex
  rfl

def L2Utxo.notAfter (first second : L2Utxo) : Prop :=
  first.id.key ≤ second.id.key

instance : DecidableRel L2Utxo.notAfter :=
  fun first second => inferInstanceAs (Decidable (first.id.key ≤ second.id.key))

instance : Std.Total L2Utxo.notAfter :=
  ⟨fun first second => le_total first.id.key second.id.key⟩

instance : IsTrans L2Utxo L2Utxo.notAfter :=
  ⟨fun _ _ _ below above => le_trans below above⟩

def sortUtxos (utxos : List L2Utxo) : List L2Utxo :=
  utxos.insertionSort L2Utxo.notAfter

/-- Sorting outputs with distinct identifiers forgets the order they came
in. -/
theorem sortUtxos_eq_of_perm {utxos others : List L2Utxo} (nodup : (utxos.map L2Utxo.id).Nodup)
    (eq : utxos.Perm others) : sortUtxos utxos = sortUtxos others := by
  have sorted := perm_insertionSort L2Utxo.notAfter utxos
  have otherSorted := perm_insertionSort L2Utxo.notAfter others
  refine List.Perm.eq_of_pairwise ?_ (pairwise_insertionSort L2Utxo.notAfter utxos)
    (pairwise_insertionSort L2Utxo.notAfter others) ((sorted.trans eq).trans otherSorted.symm)
  intro first second isFirst isSecond below above
  have sameId : first.id = second.id := L2UtxoId.key_injective (le_antisymm below above)
  have mem := eq.mem_iff.mpr (otherSorted.mem_iff.mp isSecond)
  exact inj_on_of_nodup_map nodup (sorted.mem_iff.mp isFirst) mem sameId

/-- A hash map from identifiers to outputs, as the list of its values. -/
structure UtxoMap where
  values : List L2Utxo
  distinct : (values.map L2Utxo.id).Nodup
  deriving DecidableEq

namespace UtxoMap

def empty : UtxoMap := ⟨[], nodup_nil⟩

def get (map : UtxoMap) (id : L2UtxoId) : Option L2Utxo :=
  map.values.find? fun utxo => utxo.id = id

def remove (map : UtxoMap) (id : L2UtxoId) : UtxoMap where
  values := map.values.filter fun utxo => utxo.id ≠ id
  distinct := map.distinct.sublist (filter_sublist.map _)

def insert (map : UtxoMap) (utxo : L2Utxo) : UtxoMap where
  values := utxo :: (map.remove utxo.id).values
  distinct := by
    rw [map_cons, List.nodup_cons]
    refine ⟨?_, (map.remove utxo.id).distinct⟩
    simp [remove]

/-- The map of a list, in which later outputs replace earlier ones. -/
def ofList (utxos : List L2Utxo) : UtxoMap :=
  utxos.foldl insert empty

end UtxoMap

end Sophis
