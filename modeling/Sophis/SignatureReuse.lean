import Sophis.SignatureHash
import Sophis.TransactionIdentity

namespace Sophis

open ByteCodec Function List TransactionInput

/-!
# Reused parts of signature hashes

`calc_signature_hash` of `consensus/core/src/hashing/sighash.rs` with the values
that it keeps between the inputs of one transaction. Both implementations of
`SigHashReusedValues` return what is stored and otherwise store what they
compute.
-/

/-- The hashes that inputs share. -/
inductive ReusedField where
  | previousOutputs
  | sequences
  | sigOpCounts
  | outputs
  | payload
  deriving DecidableEq

/-- The shared hashes computed so far. -/
abbrev SigHashReusedValues := ReusedField → Option Hash

def SigHashReusedValues.new : SigHashReusedValues := fun _ => none

/-- Returns a kept value, or computes and keeps it. -/
def reuse (field : ReusedField) (set : Hash) : StateM SigHashReusedValues Hash := fun values =>
    match values field with
    | some stored => (stored, values)
    | none => (set, update values field (some set))

/-- The part of a transaction that belongs to a field. -/
def fieldBytes (tx : Transaction) : ReusedField → List UInt8
  | .previousOutputs => tx.inputs.flatMap fun input => writeOutpoint input.previousOutpoint
  | .sequences => tx.inputs.flatMap fun input => leBytes 8 input.sequence.toNat
  | .sigOpCounts => tx.inputs.map TransactionInput.sigOpCount
  | .outputs => tx.outputs.flatMap writeOutput
  | .payload => writeVarBytes tx.payload

variable (hashers : Hashers)

def fieldHash (tx : Transaction) (field : ReusedField) : Hash :=
  hashers.transactionSigningHash (fieldBytes tx field)

namespace Reusing

def previousOutputsHash (tx : Transaction) (hashType : SigHashType) :
    StateM SigHashReusedValues Hash :=
  if hashType.isSighashAnyoneCanPay then
    pure zeroHash
  else
    reuse .previousOutputs (fieldHash hashers tx .previousOutputs)

def sequencesHash (tx : Transaction) (hashType : SigHashType) : StateM SigHashReusedValues Hash :=
  if hashType.isSighashSingle || hashType.isSighashAnyoneCanPay || hashType.isSighashNone then
    pure zeroHash
  else
    reuse .sequences (fieldHash hashers tx .sequences)

def sigOpCountsHash (tx : Transaction) (hashType : SigHashType) : StateM SigHashReusedValues Hash :=
  if hashType.isSighashAnyoneCanPay then
    pure zeroHash
  else
    reuse .sigOpCounts (fieldHash hashers tx .sigOpCounts)

def payloadHash (tx : Transaction) : StateM SigHashReusedValues Hash :=
  if tx.isNative && tx.payload.isEmpty then
    pure zeroHash
  else
    reuse .payload (fieldHash hashers tx .payload)

def outputsHash (tx : Transaction) (hashType : SigHashType)
    (inputIndex : Nat) : StateM SigHashReusedValues Hash :=
  if hashType.isSighashNone then
    pure zeroHash
  else if hashType.isSighashSingle then
    match tx.outputs[inputIndex]? with
    | none => pure zeroHash
    | some output => pure (hashers.transactionSigningHash (writeOutput output))
  else
    reuse .outputs (fieldHash hashers tx .outputs)

end Reusing

/-- The bytes that are hashed for one input, from the hashes of the parts. -/
def signatureBytes (tx : Transaction) (input : TransactionInput)
    (entry : UtxoEntry) (hashType : SigHashType) (parts : ReusedField → Hash) :
    List UInt8 :=
  leBytes 2 tx.version.toNat ++ (parts .previousOutputs).bytes ++ (parts .sequences).bytes ++
    (parts .sigOpCounts).bytes ++
    writeOutpoint input.previousOutpoint ++
    hashScriptPublicKey entry.scriptPublicKey ++
    leBytes 8 entry.amount.toNat ++
    leBytes 8 input.sequence.toNat ++
    [input.sigOpCount] ++
    (parts .outputs).bytes ++
    leBytes 8 tx.lockTime.toNat ++
    tx.subnetworkId.bytes ++
    leBytes 8 tx.gas.toNat ++
    (parts .payload).bytes ++
    [hashType.value]

/-- The message signed for one input, with values kept from other inputs. -/
def Reusing.calcSignatureHash (populated : PopulatedTransaction)
    (index : Fin populated.tx.inputs.length) (hashType : SigHashType) :
    StateM SigHashReusedValues Hash := do
  let tx := populated.tx
  let (input, entry) := populated.populatedInput index
  let previousOutputs ← Reusing.previousOutputsHash hashers tx hashType
  let sequences ← Reusing.sequencesHash hashers tx hashType
  let sigOpCounts ← Reusing.sigOpCountsHash hashers tx hashType
  let outputs ← Reusing.outputsHash hashers tx hashType index
  let payload ← Reusing.payloadHash hashers tx
  return hashers.transactionSigningHash (signatureBytes tx input entry hashType fun
    | .previousOutputs => previousOutputs
    | .sequences => sequences
    | .sigOpCounts => sigOpCounts
    | .outputs => outputs
    | .payload => payload)

section

variable {hashers : Hashers} {tx : Transaction}

/-- Every kept value is the one that would be computed. -/
def SigHashReusedValues.Right (hashers : Hashers) (tx : Transaction)
    (values : SigHashReusedValues) : Prop :=
  ∀ field stored, values field = some stored → stored = fieldHash hashers tx field

theorem SigHashReusedValues.right_new : SigHashReusedValues.new.Right hashers tx :=
  fun _ _ kept => nomatch kept

/-- A computation with kept values that returns what it would return without, and
keeps them right. -/
def Transparent (hashers : Hashers) (tx : Transaction)
    (computation : StateM SigHashReusedValues Hash) (value : Hash) : Prop :=
  ∀ values, SigHashReusedValues.Right hashers tx values → (computation values).1 = value ∧
    SigHashReusedValues.Right hashers tx (computation values).2

theorem transparent_pure (value : Hash) : Transparent hashers tx (pure value) value :=
  fun _ right => ⟨rfl, right⟩

theorem transparent_reuse (field : ReusedField) :
    Transparent hashers tx (reuse field (fieldHash hashers tx field))
      (fieldHash hashers tx field) := by
  intro values right
  rw [reuse]
  cases kept : values field with
  | some value => exact ⟨right field value kept, right⟩
  | none =>
    refine ⟨rfl, fun other value got => ?_⟩
    change update values field (some (fieldHash hashers tx field)) other = some value at got
    by_cases eq : other = field
    · subst eq
      rw [update_self, Option.some.injEq] at got
      exact got.symm
    · rw [update_of_ne eq] at got
      exact right other value got

theorem Transparent.bind {first : StateM SigHashReusedValues Hash} {value result : Hash}
    {next : Hash → StateM SigHashReusedValues Hash} (isFirst : Transparent hashers tx first value)
    (isNext : Transparent hashers tx (next value) result) :
    Transparent hashers tx (first >>= next) result := by
  intro values right
  obtain ⟨ran, stillRight⟩ := isFirst values right
  change (next (first values).1 (first values).2).1 = result ∧ SigHashReusedValues.Right hashers tx
    (next (first values).1 (first values).2).2
  rw [ran]
  exact isNext _ stillRight

theorem transparent_previousOutputsHash (hashType : SigHashType) :
    Transparent hashers tx (Reusing.previousOutputsHash hashers tx hashType)
      (previousOutputsHash hashers tx hashType) := by
  rw [Reusing.previousOutputsHash, previousOutputsHash]
  split
  · exact transparent_pure _
  · exact transparent_reuse .previousOutputs

theorem transparent_sequencesHash (hashType : SigHashType) :
    Transparent hashers tx (Reusing.sequencesHash hashers tx hashType)
      (sequencesHash hashers tx hashType) := by
  rw [Reusing.sequencesHash, sequencesHash]
  split
  · exact transparent_pure _
  · exact transparent_reuse .sequences

theorem transparent_sigOpCountsHash (hashType : SigHashType) :
    Transparent hashers tx (Reusing.sigOpCountsHash hashers tx hashType)
      (sigOpCountsHash hashers tx hashType) := by
  rw [Reusing.sigOpCountsHash, sigOpCountsHash]
  split
  · exact transparent_pure _
  · exact transparent_reuse .sigOpCounts

theorem transparent_payloadHash :
    Transparent hashers tx (Reusing.payloadHash hashers tx) (payloadHash hashers tx) := by
  rw [Reusing.payloadHash, payloadHash]
  split
  · exact transparent_pure _
  · exact transparent_reuse .payload

theorem transparent_outputsHash (hashType : SigHashType) (inputIndex : Nat) :
    Transparent hashers tx (Reusing.outputsHash hashers tx hashType inputIndex)
      (outputsHash hashers tx hashType inputIndex) := by
  rw [Reusing.outputsHash, outputsHash]
  split
  · exact transparent_pure _
  · split
    · cases tx.outputs[inputIndex]? with
      | none | some => exact transparent_pure _
    · exact transparent_reuse .outputs

theorem transparent_calcSignatureHash (populated : PopulatedTransaction)
    (index : Fin populated.tx.inputs.length) (hashType : SigHashType) :
    Transparent hashers populated.tx (Reusing.calcSignatureHash hashers populated index hashType)
      (calcSignatureHash hashers populated index hashType) := by
  refine (transparent_previousOutputsHash hashType).bind ?_
  refine (transparent_sequencesHash hashType).bind ?_
  refine (transparent_sigOpCountsHash hashType).bind ?_
  refine (transparent_outputsHash hashType index).bind ?_
  refine transparent_payloadHash.bind ?_
  exact transparent_pure _

theorem reused_calls_eq (populated : PopulatedTransaction)
    (calls : List (Fin populated.tx.inputs.length × SigHashType)) {values : SigHashReusedValues}
    (right : values.Right hashers populated.tx) :
    ((calls.mapM fun call => Reusing.calcSignatureHash hashers populated
        call.1 call.2).run values).1 =
      calls.map fun call =>
        calcSignatureHash hashers populated call.1 call.2 := by
  induction calls generalizing values with
  | nil => rfl
  | cons call rest ih =>
    obtain ⟨ran, stillRight⟩ := transparent_calcSignatureHash populated call.1 call.2 values right
    have later := ih stillRight
    rw [mapM_cons, map_cons, ← ran, ← later]
    rfl

end

/-- What a signature hash is computed from. -/
structure SigningContext where
  populated : PopulatedTransaction
  index : Fin populated.tx.inputs.length

namespace SigningContext

variable (hashers : Hashers) (context : SigningContext)

def tx : Transaction := context.populated.tx

def input : TransactionInput := (context.populated.populatedInput context.index).1

def entry : UtxoEntry := (context.populated.populatedInput context.index).2

/-- The hashes of the parts when everything is signed. -/
def parts : ReusedField → Hash
  | .payload => payloadHash hashers context.tx
  | field => fieldHash hashers context.tx field

def signedBytes : List UInt8 := signatureBytes context.tx context.input context.entry .all
    (context.parts hashers)

theorem calcSignatureHash_all : calcSignatureHash hashers context.populated context.index .all =
    hashers.transactionSigningHash (context.signedBytes hashers) :=
  rfl

/-- Lengths as they are in memory. -/
structure Fits : Prop where
  script : context.entry.scriptPublicKey.script.length < 2 ^ 64
  outputs : ∀ output ∈ context.tx.outputs, output.script.length < 2 ^ 64
  payload : context.tx.payload.length < 2 ^ 64

/-- The signing hash does not collide on what is hashed for two inputs. -/
structure CollisionFree (other : SigningContext) : Prop where
  fields : ∀ field, fieldHash hashers context.tx field = fieldHash hashers other.tx field →
    fieldBytes context.tx field = fieldBytes other.tx field
  whole : hashers.transactionSigningHash (context.signedBytes hashers) =
      hashers.transactionSigningHash (other.signedBytes hashers) →
    context.signedBytes hashers = other.signedBytes hashers

/-- The contexts have everything in common that a signature is meant to
cover. -/
structure Agrees (other : SigningContext) : Prop where
  version : context.tx.version = other.tx.version
  outpoints : context.tx.inputs.map TransactionInput.previousOutpoint =
    other.tx.inputs.map TransactionInput.previousOutpoint
  sequences : context.tx.inputs.map TransactionInput.sequence =
    other.tx.inputs.map TransactionInput.sequence
  sigOpCounts : context.tx.inputs.map TransactionInput.sigOpCount =
    other.tx.inputs.map TransactionInput.sigOpCount
  outputs : context.tx.outputs = other.tx.outputs
  lockTime : context.tx.lockTime = other.tx.lockTime
  subnetworkId : context.tx.subnetworkId = other.tx.subnetworkId
  gas : context.tx.gas = other.tx.gas
  payload : context.tx.payload = other.tx.payload
  outpoint : context.input.previousOutpoint = other.input.previousOutpoint
  amount : context.entry.amount = other.entry.amount
  scriptPublicKey : context.entry.scriptPublicKey = other.entry.scriptPublicKey

end SigningContext

variable {hashers : Hashers} {context other : SigningContext}

/-- What the bytes of two contexts share when they are the same. -/
structure SharedBytes (hashers : Hashers) (context other : SigningContext) : Prop where
  version : context.tx.version = other.tx.version
  parts : ∀ field, context.parts hashers field = other.parts hashers field
  outpoint : context.input.previousOutpoint = other.input.previousOutpoint
  scriptPublicKey : context.entry.scriptPublicKey = other.entry.scriptPublicKey
  amount : context.entry.amount = other.entry.amount
  lockTime : context.tx.lockTime = other.tx.lockTime
  subnetworkId : context.tx.subnetworkId = other.tx.subnetworkId
  gas : context.tx.gas = other.tx.gas

theorem sharedBytes_of_eq (fits : context.Fits) (otherFits : other.Fits)
    (eq : context.signedBytes hashers = other.signedBytes hashers) :
    SharedBytes hashers context other := by
  simp only [SigningContext.signedBytes, signatureBytes, hashScriptPublicKey,
    writeVarBytes, writeLen, append_assoc] at eq
  obtain ⟨version, eq⟩ := leBytes_uint16_append_inj eq
  obtain ⟨previousOutputs, eq⟩ := FixedBytes.append_inj eq
  obtain ⟨sequences, eq⟩ := FixedBytes.append_inj eq
  obtain ⟨sigOpCounts, eq⟩ := FixedBytes.append_inj eq
  obtain ⟨outpoint, eq⟩ := writeOutpoint_append_inj eq
  obtain ⟨scriptVersion, eq⟩ := leBytes_uint16_append_inj eq
  obtain ⟨scriptLength, eq⟩ := leBytes_append_inj fits.script otherFits.script eq
  obtain ⟨script, eq⟩ := List.append_inj eq scriptLength
  obtain ⟨amount, eq⟩ := leBytes_uint64_append_inj eq
  obtain ⟨-, eq⟩ := leBytes_uint64_append_inj eq
  obtain ⟨-, eq⟩ := List.append_inj eq rfl
  obtain ⟨outputs, eq⟩ := FixedBytes.append_inj eq
  obtain ⟨lockTime, eq⟩ := leBytes_uint64_append_inj eq
  obtain ⟨subnetworkId, eq⟩ := FixedBytes.append_inj eq
  obtain ⟨gas, eq⟩ := leBytes_uint64_append_inj eq
  obtain ⟨payload, -⟩ := FixedBytes.append_inj eq
  exact {
    version
    parts := fun field => by
      cases field with
      | previousOutputs => exact previousOutputs
      | sequences => exact sequences
      | sigOpCounts => exact sigOpCounts
      | outputs => exact outputs
      | payload => exact payload
    outpoint
    scriptPublicKey := by
      change ScriptPublicKey.mk _ _ = ScriptPublicKey.mk _ _
      rw [ScriptPublicKey.mk.injEq]
      exact ⟨scriptVersion, script⟩
    amount
    lockTime
    subnetworkId
    gas }

variable {tx otherTx : Transaction}

theorem outpoints_of_fieldBytes_eq
    (eq : fieldBytes tx .previousOutputs = fieldBytes otherTx .previousOutputs) :
    tx.inputs.map previousOutpoint =
      otherTx.inputs.map previousOutpoint := by
  have nonempty (key : TransactionOutpoint) : writeOutpoint key ≠ [] := by
    intro empty
    have length := congrArg List.length empty
    simp [writeOutpoint, key.transactionId.length_bytes] at length
  refine flatMap_inj (fun _ _ => writeOutpoint_append_inj) nonempty
    (fun _ _ => trivial) (fun _ _ => trivial) ?_
  rw [flatMap_map, flatMap_map]
  exact eq

theorem sequences_of_fieldBytes_eq (eq : fieldBytes tx .sequences = fieldBytes otherTx .sequences) :
    tx.inputs.map sequence = otherTx.inputs.map sequence := by
  have joined (tx : Transaction) : fieldBytes tx .sequences =
      (tx.inputs.map sequence).flatMap fun sequence =>
        leBytes 8 sequence.toNat := by
    rw [flatMap_map]
    rfl
  rw [joined, joined] at eq
  exact flatMap_inj (fun _ _ => leBytes_uint64_append_inj) (fun _ => nofun) (fun _ _ => trivial)
    (fun _ _ => trivial) eq

theorem payload_of_payloadHash_eq (fits : context.Fits) (otherFits : other.Fits)
    (free : context.CollisionFree hashers other)
    (nonzero : fieldHash hashers context.tx .payload ≠ zeroHash)
    (otherNonzero : fieldHash hashers other.tx .payload ≠ zeroHash)
    (eq : payloadHash hashers context.tx = payloadHash hashers other.tx) :
    context.tx.payload = other.tx.payload := by
  have isField {tx : Transaction} (some : (tx.isNative && tx.payload.isEmpty) = false) :
      payloadHash hashers tx = fieldHash hashers tx .payload := by
    rw [payloadHash, some]
    rfl
  have isZero {tx : Transaction} (none : (tx.isNative && tx.payload.isEmpty) = true) :
      payloadHash hashers tx = zeroHash ∧ tx.payload = [] := by
    rw [payloadHash, none]
    rw [Bool.and_eq_true, List.isEmpty_iff] at none
    exact ⟨rfl, none.2⟩
  cases first : context.tx.isNative && context.tx.payload.isEmpty with
  | true =>
    cases second : other.tx.isNative && other.tx.payload.isEmpty with
    | true => rw [(isZero first).2, (isZero second).2]
    | false =>
      rw [(isZero first).1, isField second] at eq
      exact absurd eq.symm otherNonzero
  | false =>
    cases second : other.tx.isNative && other.tx.payload.isEmpty with
    | true =>
      rw [isField first, (isZero second).1] at eq
      exact absurd eq nonzero
    | false =>
      rw [isField first, isField second] at eq
      have bytes : writeVarBytes context.tx.payload = writeVarBytes other.tx.payload :=
        free.fields .payload eq
      obtain ⟨-, payload⟩ := leBytes_append_inj fits.payload otherFits.payload bytes
      exact payload

/-- Signature hashes do not depend on kept values, and they bind what they sign.
Calls that share their values return what they return with fresh ones. When the
hash collides neither on what two contexts hash nor with the zero hash on their
payloads, equal hashes mean that the contexts agree. -/
theorem signatureHash_transparent_and_binding (hashers : Hashers) :
    (∀ (populated : PopulatedTransaction)
        (calls : List (Fin populated.tx.inputs.length × SigHashType)),
      ((calls.mapM fun call => Reusing.calcSignatureHash hashers populated
          call.1 call.2).run .new).1 =
        calls.map fun call => ((Reusing.calcSignatureHash hashers populated
          call.1 call.2).run .new).1) ∧
      ∀ context other : SigningContext, context.Fits → other.Fits →
        context.CollisionFree hashers other →
        fieldHash hashers context.tx .payload ≠ zeroHash →
        fieldHash hashers other.tx .payload ≠ zeroHash →
        ((Reusing.calcSignatureHash hashers context.populated context.index .all).run .new).1 =
          ((Reusing.calcSignatureHash hashers other.populated other.index .all).run .new).1 →
          context.Agrees other := by
  have fresh (populated : PopulatedTransaction)
      (index : Fin populated.tx.inputs.length) (hashType : SigHashType) :
      ((Reusing.calcSignatureHash hashers populated index hashType).run .new).1 =
        calcSignatureHash hashers populated index hashType :=
    (transparent_calcSignatureHash populated index hashType _ SigHashReusedValues.right_new).1
  constructor
  · intro populated calls
    rw [reused_calls_eq populated calls SigHashReusedValues.right_new]
    exact map_congr_left fun call _ => (fresh populated _ _).symm
  · intro context other fits otherFits free nonzero otherNonzero eq
    rw [fresh, fresh, SigningContext.calcSignatureHash_all,
      SigningContext.calcSignatureHash_all] at eq
    have shared := sharedBytes_of_eq fits otherFits (free.whole eq)
    exact {
      version := shared.version
      outpoints := outpoints_of_fieldBytes_eq (free.fields _ (shared.parts .previousOutputs))
      sequences := sequences_of_fieldBytes_eq (free.fields _ (shared.parts .sequences))
      sigOpCounts := free.fields _ (shared.parts .sigOpCounts)
      outputs := flatMap_inj writeOutput_append_inj (fun _ => nofun) fits.outputs otherFits.outputs
        (free.fields _ (shared.parts .outputs))
      lockTime := shared.lockTime
      subnetworkId := shared.subnetworkId
      gas := shared.gas
      payload := payload_of_payloadHash_eq fits otherFits free
        nonzero otherNonzero (shared.parts .payload)
      outpoint := shared.outpoint
      amount := shared.amount
      scriptPublicKey := shared.scriptPublicKey }

/-- A native transaction with one input, of which the signature script and the
payload are given. -/
def paymentContext (signatureScript payload : List UInt8) : SigningContext where
  populated := {
    tx := {
      version := txVersion
      inputs := [⟨⟨.replicate 32 3, 0⟩, signatureScript, 5, 1⟩]
      outputs := [⟨7, ⟨0, [0x51]⟩⟩]
      lockTime := 0
      subnetworkId := subnetworkIdNative
      gas := 0
      payload
      mass := 0 }
    entries := [⟨9, ⟨0, [0x51]⟩, 1, false⟩]
    length_entries := rfl }
  index := ⟨0, Nat.one_pos⟩

theorem paymentContext_fits {signatureScript payload : List UInt8}
    (short : payload.length < 2 ^ 64) :
    (paymentContext signatureScript payload).Fits where
  script := by
    change 1 < 2 ^ 64
    decide
  outputs := by
    intro output mem
    cases mem_singleton.mp mem
    decide
  payload := short

/-- Signature scripts are not signed. -/
theorem paymentContext_agrees : (paymentContext [] [1]).Agrees (paymentContext [2] [1]) := by
  refine (signatureHash_transparent_and_binding
    { Hashers.zero with transactionSigningHash := fingerprint }).2
    (paymentContext [] [1]) (paymentContext [2] [1])
    (paymentContext_fits (by decide)) (paymentContext_fits (by decide))
    ⟨fun field _ => ?_, fun _ => rfl⟩ (by decide +kernel) (by decide +kernel)
    rfl
  cases field <;> rfl

/-- A hash under which one payload has the zero hash. -/
def zeroingHashers : Hashers := { Hashers.zero with
    transactionSigningHash := fun bytes =>
      if bytes = writeVarBytes [1] then zeroHash
      else fingerprint (1 :: bytes) }

/-- The empty payload of a native transaction is hashed to zeros, which may also be
the hash of another payload: although the hash collides on no two of the hashed
strings, the payload is not bound. -/
theorem paymentContext_payload_unbound :
    (∀ first ∈ [paymentContext [] [], paymentContext [] [1]].flatMap
          fun context => context.signedBytes zeroingHashers ::
            [ReusedField.previousOutputs, .sequences, .sigOpCounts, .outputs,
              .payload].map (fieldBytes context.tx),
        ∀ second ∈ [paymentContext [] [], paymentContext [] [1]].flatMap
          fun context => context.signedBytes zeroingHashers ::
            [ReusedField.previousOutputs, .sequences, .sigOpCounts, .outputs,
              .payload].map (fieldBytes context.tx),
          zeroingHashers.transactionSigningHash first =
            zeroingHashers.transactionSigningHash second → first = second) ∧
      ((Reusing.calcSignatureHash zeroingHashers (paymentContext [] []).populated
          (paymentContext [] []).index .all).run .new).1 =
        ((Reusing.calcSignatureHash zeroingHashers (paymentContext [] [1]).populated
          (paymentContext [] [1]).index .all).run .new).1 ∧
      ¬ (paymentContext [] []).Agrees (paymentContext [] [1]) := by
  refine ⟨by decide +kernel, by decide +kernel, fun agrees => ?_⟩
  exact absurd agrees.payload (by decide)

end Sophis
