import Sophis.IsolationValidation
import Sophis.TransactionHashing

namespace Sophis

open ByteCodec List

/-!
# What a transaction identifier determines

The identifier is a hash of an encoding. Where that hash has no collision,
two transactions with one identifier have the same encoding, and the encoding
tells a coinbase from an ordinary transaction, determines the first outpoint an
ordinary transaction spends, the outputs, and what follows the outputs of a
coinbase.
-/

/-- The identifier hash does not collide on a set of transactions. -/
def Hashers.CollisionFree (hashers : Hashers) (txs : List Transaction) : Prop :=
  ∀ first ∈ txs, ∀ second ∈ txs, first.id hashers = second.id hashers →
    writeTransaction first.encodingFlags first = writeTransaction second.encodingFlags second

theorem Hashers.CollisionFree.mono {hashers : Hashers} {txs fewer : List Transaction}
    (free : hashers.CollisionFree txs) (subset : fewer ⊆ txs) :
    hashers.CollisionFree fewer :=
  fun first inFirst second inSecond => free first (subset inFirst) second (subset inSecond)

private theorem writeTransaction_eq (flags : TxEncodingFlags) (tx : Transaction) :
    writeTransaction flags tx = leBytes 2 tx.version.toNat ++ (leBytes 8 tx.inputs.length ++
      (tx.inputs.flatMap (writeInput flags) ++ (leBytes 8 tx.outputs.length ++
        (tx.outputs.flatMap writeOutput ++ (leBytes 8 tx.lockTime.toNat ++
          (tx.subnetworkId.bytes ++ (leBytes 8 tx.gas.toNat ++
            (leBytes 8 tx.payload.length ++ (tx.payload ++
              writeMassCommit flags tx.mass))))))))) := by
  simp only [writeTransaction, writeLen, writeVarBytes, append_assoc]

variable {first second : Transaction} {flags otherFlags : TxEncodingFlags}

theorem inputs_of_writeTransaction (firstFits : first.inputs.length < 2 ^ 64)
    (secondFits : second.inputs.length < 2 ^ 64)
    (eq : writeTransaction flags first = writeTransaction otherFlags second) :
    first.inputs.length = second.inputs.length ∧ ∃ rest otherRest,
      first.inputs.flatMap (writeInput flags) ++ rest =
        second.inputs.flatMap (writeInput otherFlags) ++ otherRest := by
  rw [writeTransaction_eq, writeTransaction_eq] at eq
  obtain ⟨-, afterVersion⟩ := List.append_inj eq (by simp)
  obtain ⟨sameCount, afterCount⟩ := leBytes_append_inj firstFits secondFits afterVersion
  exact ⟨sameCount, _, _, afterCount⟩

theorem writeOutpoint_append_inj {key other : TransactionOutpoint}
    {rest otherRest : List UInt8}
    (eq : writeOutpoint key ++ rest = writeOutpoint other ++ otherRest) :
    key = other ∧ rest = otherRest := by
  rw [writeOutpoint, writeOutpoint, append_assoc, append_assoc] at eq
  obtain ⟨sameId, afterId⟩ := FixedBytes.append_inj eq
  obtain ⟨sameIndex, sameRest⟩ := leBytes_uint32_append_inj afterId
  refine ⟨?_, sameRest⟩
  cases key
  cases other
  rw [TransactionOutpoint.mk.injEq]
  exact ⟨sameId, sameIndex⟩

/-- Transactions with inputs and one encoding spend the same first outpoint. -/
theorem firstOutpoint_of_writeTransaction {input other : TransactionInput}
    {inputs others : List TransactionInput} (firstInputs : first.inputs = input :: inputs)
    (secondInputs : second.inputs = other :: others) (firstFits : first.inputs.length < 2 ^ 64)
    (secondFits : second.inputs.length < 2 ^ 64)
    (eq : writeTransaction flags first = writeTransaction otherFlags second) :
    input.previousOutpoint = other.previousOutpoint := by
  obtain ⟨-, rest, otherRest, sameInputs⟩ := inputs_of_writeTransaction firstFits secondFits eq
  rw [firstInputs, secondInputs, flatMap_cons, flatMap_cons, writeInput, writeInput] at sameInputs
  simp only [append_assoc] at sameInputs
  exact (writeOutpoint_append_inj sameInputs).1

/-- A transaction without inputs has no encoding in common with one that has
some. -/
theorem writeTransaction_ne_of_noInputs (firstInputs : first.inputs = [])
    (secondInputs : second.inputs ≠ []) (secondFits : second.inputs.length < 2 ^ 64) :
    writeTransaction flags first ≠ writeTransaction otherFlags second := by
  intro eq
  obtain ⟨sameCount, -⟩ := inputs_of_writeTransaction (by simp [firstInputs]) secondFits eq
  rw [firstInputs, length_nil] at sameCount
  exact secondInputs (eq_nil_of_length_eq_zero sameCount.symm)

theorem writeOutput_append_inj {output other : TransactionOutput} {rest otherRest : List UInt8}
    (outputFits : output.script.length < 2 ^ 64) (otherFits : other.script.length < 2 ^ 64)
    (eq : writeOutput output ++ rest = writeOutput other ++ otherRest) :
    output = other ∧ rest = otherRest := by
  simp only [writeOutput, writeVarBytes, writeLen, append_assoc] at eq
  obtain ⟨sameValue, afterValue⟩ := leBytes_uint64_append_inj eq
  obtain ⟨sameVersion, afterVersion⟩ := leBytes_uint16_append_inj afterValue
  obtain ⟨sameLength, afterLength⟩ := leBytes_append_inj outputFits otherFits afterVersion
  obtain ⟨sameScript, sameRest⟩ := List.append_inj afterLength sameLength
  refine ⟨?_, sameRest⟩
  obtain ⟨value, version, script⟩ := output
  obtain ⟨otherValue, otherVersion, otherScript⟩ := other
  cases sameValue
  cases sameVersion
  cases sameScript
  rfl

variable {first second : Transaction} {flags otherFlags : TxEncodingFlags}

/-- Transactions whose inputs take the same space, with short scripts and one
encoding, have the same outputs. -/
theorem outputs_of_writeTransaction (sameSpace : (first.inputs.flatMap (writeInput flags)).length =
      (second.inputs.flatMap (writeInput otherFlags)).length)
    (firstCount : first.outputs.length < 2 ^ 64) (secondCount : second.outputs.length < 2 ^ 64)
    (firstScripts : ∀ output ∈ first.outputs, output.script.length < 2 ^ 64)
    (secondScripts : ∀ output ∈ second.outputs, output.script.length < 2 ^ 64)
    (eq : writeTransaction flags first = writeTransaction otherFlags second) :
    first.outputs = second.outputs := by
  rw [writeTransaction_eq, writeTransaction_eq] at eq
  obtain ⟨-, afterVersion⟩ := List.append_inj eq (by simp)
  obtain ⟨-, afterCount⟩ := List.append_inj afterVersion (by simp)
  obtain ⟨-, afterInputs⟩ := List.append_inj afterCount sameSpace
  obtain ⟨sameCount, afterLength⟩ := leBytes_append_inj firstCount secondCount afterInputs
  exact (flatMap_append_inj writeOutput_append_inj sameCount firstScripts
    secondScripts afterLength).1

/-- Without signature scripts all inputs take the same space. -/
theorem length_flatMap_writeInput (inputs : List TransactionInput) :
    (inputs.flatMap (writeInput .identifier)).length = 52 * inputs.length := by
  induction inputs with
  | nil => rfl
  | cons input rest ih =>
    have one : (writeInput .identifier input).length = 52 := by
      simp [writeInput, TxEncodingFlags.identifier, writeOutpoint, writeVarBytes, writeLen,
        input.previousOutpoint.transactionId.length_bytes]
    rw [flatMap_cons, length_append, one, ih, length_cons]
    omega

/-- Transactions without inputs, with short scripts and one encoding declare
the same first eight bytes of payload. -/
theorem payload_take_of_writeTransaction (firstInputs : first.inputs = [])
    (secondInputs : second.inputs = []) (firstCount : first.outputs.length < 2 ^ 64)
    (secondCount : second.outputs.length < 2 ^ 64)
    (firstScripts : ∀ output ∈ first.outputs, output.script.length < 2 ^ 64)
    (secondScripts : ∀ output ∈ second.outputs, output.script.length < 2 ^ 64)
    (firstPayload : 8 ≤ first.payload.length) (secondPayload : 8 ≤ second.payload.length)
    (eq : writeTransaction flags first = writeTransaction otherFlags second) :
    first.payload.take 8 = second.payload.take 8 := by
  rw [writeTransaction_eq, writeTransaction_eq, firstInputs, secondInputs] at eq
  obtain ⟨-, afterVersion⟩ := List.append_inj eq (by simp)
  obtain ⟨-, afterInputs⟩ := List.append_inj afterVersion (by simp)
  simp only [flatMap_nil, nil_append] at afterInputs
  obtain ⟨sameCount, afterCount⟩ := leBytes_append_inj firstCount secondCount afterInputs
  obtain ⟨-, afterOutputs⟩ := flatMap_append_inj writeOutput_append_inj sameCount firstScripts
      secondScripts afterCount
  obtain ⟨-, afterLockTime⟩ := List.append_inj afterOutputs (by simp)
  obtain ⟨-, afterSubnetwork⟩ := FixedBytes.append_inj afterLockTime
  obtain ⟨-, afterGas⟩ := List.append_inj afterSubnetwork (by simp)
  obtain ⟨-, payloads⟩ := List.append_inj afterGas (by simp)
  have prefixes := congrArg (List.take 8) payloads
  rwa [take_append_of_le_length firstPayload, take_append_of_le_length secondPayload] at prefixes

end Sophis
