import Sophis.ContractExecutions
import Sophis.HostQueries
import Sophis.MeteredProgram

namespace Sophis

open ByteCodec MachineWord MeteredProgram

/-!
# The machine that contracts run on

The host functions of `svm/runtime/src/host.rs` with their gas charges, and
`ContractExecutor::execute`. A compiled contract is an arbitrary program that
burns fuel and calls these functions on a memory of its own.
-/

/-- The memory that a contract exports, if it exports one. -/
abbrev GuestMemory := Option (List UInt8)

namespace SvmHost

/-- The cast `as usize`, which extends the sign. -/
def asUsize (value : Int32) : Nat := value.toInt64.toUInt64.toNat

/-- A range of the memory given by addresses of the guest. -/
def bounded (data : List UInt8) (ptr : Int32) (length : Nat) : Option (List UInt8) :=
  let start := asUsize ptr
  if 2 ^ 64 ≤ start + length then none
  else if data.length < start + length then none
  else some (slice data start length)

def readOne (memory : GuestMemory) (ptr len : Int32) : Option (List UInt8) := do
  bounded (← memory) ptr (asUsize len)

def readTwo (memory : GuestMemory) (ptr₁ len₁ ptr₂ len₂ : Int32) :
    Option (List UInt8 × List UInt8) := do
  return (← readOne memory ptr₁ len₁, ← readOne memory ptr₂ len₂)

def readThree (memory : GuestMemory) (ptr₁ len₁ ptr₂ len₂ ptr₃ len₃ : Int32) :
    Option (List UInt8 × List UInt8 × List UInt8) := do
  return (← readOne memory ptr₁ len₁, ← readOne memory ptr₂ len₂, ← readOne memory ptr₃ len₃)

def readFixed (size : Nat) (memory : GuestMemory) (ptr : Int32) : Option (FixedBytes size) := do
  return FixedBytes.ofPrefix size (← bounded (← memory) ptr size)

/-- Replaces the bytes of a range the caller has checked. -/
def overwrite (data : List UInt8) (start : Nat) (bytes : List UInt8) : List UInt8 :=
  data.take start ++ bytes ++ data.drop (start + bytes.length)

/-- Writes a buffer, and its length as a 32-bit number where the guest asks
for it and the memory has room. -/
def writeToMemory (memory : GuestMemory) (bytes : List UInt8)
    (outPtr outLenPtr : Int32) : Option GuestMemory := do
  let data ← memory
  let _ ← bounded data outPtr bytes.length
  let written := overwrite data (asUsize outPtr) bytes
  if 0 ≤ outLenPtr ∧ (bounded data outLenPtr 4).isSome then
    return some (overwrite written (asUsize outLenPtr) (leBytes 4 bytes.length))
  else
    return some written

end SvmHost

def maxTopicsPerEvent : UInt8 := 4

def topicLen : Nat := 32

def maxEventDataBytes : UInt32 := 4096

def maxEventsPerTx : Nat := 32

/-- A topic under which events are indexed. -/
abbrev EventTopic := FixedBytes topicLen

/-- An event as a running contract leaves it, without its place on the
chain. -/
structure BufferedEvent where
  contractId : ContractId
  topics : List EventTopic
  data : List UInt8
  deriving Repr, DecidableEq

/-- The event of one call, decoded. -/
structure EventEmissionPayload where
  topicCount : UInt8
  topics : List EventTopic
  data : List UInt8
  deriving Repr, DecidableEq

/-- Why an emission is refused. -/
inductive EventError where
  | topicCountOutOfRange (count : UInt8)
  | dataTooLarge (dataLen : UInt32)
  | truncated (actual expected : Nat)
  | lengthMismatch (actual expected : Nat)
  deriving Repr, DecidableEq

def payloadExactLen (topicCount : UInt8) (dataLen : UInt32) : Nat :=
  1 + topicCount.toNat * topicLen + 4 + dataLen.toNat

def parseEmissionPayload (payload : List UInt8) : Except EventError EventEmissionPayload :=
  if payload.length < 5 then
    throw (.truncated payload.length 5)
  else
    let topicCount := byteAt payload 0
    if topicCount > maxTopicsPerEvent then
      throw (.topicCountOutOfRange topicCount)
    else
      let topicsEnd := 1 + topicCount.toNat * topicLen
      let dataLenFieldEnd := topicsEnd + 4
      if payload.length < dataLenFieldEnd then
        throw (.truncated payload.length dataLenFieldEnd)
      else
        let topics := (List.range topicCount.toNat).map fun index =>
          FixedBytes.ofPrefix topicLen (slice payload (1 + index * topicLen) topicLen)
        let dataLen := u32At payload topicsEnd
        if dataLen > maxEventDataBytes then
          throw (.dataTooLarge dataLen)
        else
          let expected := payloadExactLen topicCount dataLen
          if payload.length ≠ expected then
            throw (.lengthMismatch payload.length expected)
          else
            return ⟨topicCount, topics, slice payload dataLenFieldEnd dataLen.toNat⟩

/-- The prices of host calls. -/
structure GasConfig where
  maxGasPerTx : UInt64
  wasmFuelRatio : UInt64
  dilithiumVerifyCost : UInt64
  sha3Cost : UInt64
  risc0VerifyCost : UInt64
  plonky3VerifyCost : UInt64
  daVerifyCost : UInt64
  altResolveCost : UInt64
  eventEmitBaseCost : UInt64
  eventEmitPerByteCost : UInt64
  vrfRandomCost : UInt64
  deriving Repr, DecidableEq

def GasConfig.default : GasConfig where
  maxGasPerTx := 10000000
  wasmFuelRatio := 1
  dilithiumVerifyCost := 10000
  sha3Cost := 100
  risc0VerifyCost := 10000000
  plonky3VerifyCost := 1000000
  daVerifyCost := 2000
  altResolveCost := 1500
  eventEmitBaseCost := 1000
  eventEmitPerByteCost := 8
  vrfRandomCost := 500

/-- The cryptography of the host. -/
structure HostCrypto where
  verifyDilithium : List UInt8 → List UInt8 → List UInt8 → Bool
  sha3384 : List UInt8 → FixedBytes 48
  verifyRisc0Proof : List UInt8 → List UInt8 → FixedBytes 32 → Bool
  verifyPlonky3Proof : List UInt8 → List UInt8 → FixedBytes 32 → Bool

/-- The calls a contract can make, with the arguments of the guest. -/
inductive HostCall where
  | getInputUtxo (index outPtr outLenPtr : Int32)
  | getOutputUtxo (index outPtr outLenPtr : Int32)
  | getBlockHeight
  | verifyDilithium (pkPtr pkLen msgPtr msgLen sigPtr sigLen : Int32)
  | sha3384 (inPtr inLen outPtr : Int32)
  | verifyRisc0Proof (sealPtr sealLen journalPtr journalLen
    imageIdPtr : Int32)
  | verifyPlonky3Proof (proofPtr proofLen pubvalsPtr pubvalsLen
    airIdPtr : Int32)
  | sophisAltLookup (ptrHandle index outPtr outLenPtr : Int32)
  | sophisEmitEvent (payloadPtr payloadLen : Int32)
  | sophisVrfRandomAt (chainIndex : Int64) (outPtr : Int32)
  | sophisVerifyDa (ptrPayloadId padding : Int32)
    (minConfirmations : Int64) (queryKind : Int32)
  deriving Repr, DecidableEq

/-- A value that a host function returns. -/
inductive HostValue where
  | i32 (value : Int32)
  | i64 (value : Int64)
  deriving Repr, DecidableEq

/-- What the guest gets back: a value and its memory. -/
abbrev HostReply := HostValue × GuestMemory

/-- What a host function makes of the events buffered so far. -/
abbrev HostResponse := Response (List BufferedEvent) HostReply

namespace SvmHost

variable (config : GasConfig) (crypto : HostCrypto)
  (context : ExecutionContext) (events : List BufferedEvent)
  (memory : GuestMemory)

/-- Returns a code and leaves the memory alone. -/
def code (value : Int32) : HostReply := (.i32 value, memory)

def truth (holds : Bool) : HostReply := code memory (if holds then 1 else 0)

/-- Writes a buffer and returns one, or zero when it does not fit. -/
def written (bytes : List UInt8) (outPtr outLenPtr : Int32) : HostReply :=
  match writeToMemory memory bytes outPtr outLenPtr with
  | some updated => code updated 1
  | none => code memory 0

/-- A charged host function: without the capability it returns a code, and
when its price is refused another one. -/
def charged (capability : Capability) (missing : Int32) (price : UInt64)
    (refused : Int32) (reply : HostReply) : HostResponse :=
  if !context.hasCapability capability then
    .free events (code memory missing)
  else
    .priced price (code memory refused) events reply

def getUtxo (utxos : List (List UInt8)) (index outPtr outLenPtr : Int32) : HostResponse :=
  if !context.hasCapability .readUtxo then .free events (code memory 0)
  else
    match utxos[asUsize index]? with
    | none => .free events (code memory 0)
    | some bytes => .free events (written memory bytes outPtr outLenPtr)

def getInputUtxo (index outPtr outLenPtr : Int32) : HostResponse :=
  getUtxo context events memory context.inputUtxos index outPtr outLenPtr

def getOutputUtxo (index outPtr outLenPtr : Int32) : HostResponse :=
  getUtxo context events memory context.outputUtxos index outPtr outLenPtr

def getBlockHeight : HostResponse :=
  if !context.hasCapability .readBlockHeight then
    .free events (.i64 (-1), memory)
  else
    .free events (.i64 context.blockHeight.toInt64, memory)

def verifyDilithium (pkPtr pkLen msgPtr msgLen sigPtr sigLen : Int32) : HostResponse :=
  charged context events memory .verifyDilithium 0 config.dilithiumVerifyCost 0 <|
    match readThree memory pkPtr pkLen msgPtr msgLen sigPtr sigLen with
    | none => code memory 0
    | some (pk, msg, sig) => truth memory (crypto.verifyDilithium pk msg sig)

def sha3384 (inPtr inLen outPtr : Int32) : HostResponse :=
  charged context events memory .hashSha3 0 config.sha3Cost 0 <|
    match readOne memory inPtr inLen with
    | none => code memory 0
    | some input => written memory (crypto.sha3384 input).bytes outPtr (-1)

/-- The check of a proof against the values it is about and the identifier of
its program. -/
def proofReply (verify : List UInt8 → List UInt8 → FixedBytes 32 → Bool)
    (proofPtr proofLen valuesPtr valuesLen programPtr : Int32) : HostReply :=
  match readTwo memory proofPtr proofLen valuesPtr valuesLen with
  | none => code memory 0
  | some (proof, values) =>
    match readFixed 32 memory programPtr with
    | none => code memory 0
    | some program => truth memory (verify proof values program)

def verifyRisc0Proof (sealPtr sealLen journalPtr journalLen imageIdPtr : Int32) : HostResponse :=
  charged context events memory .verifyRisc0Proof 0 config.risc0VerifyCost 0
    (proofReply memory crypto.verifyRisc0Proof sealPtr sealLen journalPtr journalLen imageIdPtr)

def verifyPlonky3Proof (proofPtr proofLen pubvalsPtr pubvalsLen airIdPtr : Int32) : HostResponse :=
  charged context events memory .verifyPlonky3Proof 0 config.plonky3VerifyCost 0
    (proofReply memory crypto.verifyPlonky3Proof proofPtr proofLen pubvalsPtr pubvalsLen airIdPtr)

def sophisAltLookup (ptrHandle index outPtr outLenPtr : Int32) : HostResponse :=
  charged context events memory .resolveAlt (-1) config.altResolveCost (-2) <|
    match readFixed altHandleLen memory ptrHandle with
    | none => code memory (-3)
    | some handle =>
      if index < 0 ∨ 255 < index then code memory (-5)
      else
        match context.alt.resolveReference handle (UInt8.ofNat (asUsize index)) with
        | none => code memory (-4)
        | some (spkVersion, script) =>
          match writeToMemory memory script outPtr outLenPtr with
          | none => code memory (-6)
          | some updated => code updated (Int32.ofNat spkVersion.toNat)

/-- The event cap and the sign of the length are looked at before the gas is
charged. The price counts the declared length of the whole payload. -/
def sophisEmitEvent (payloadPtr payloadLen : Int32) : HostResponse :=
  if !context.hasCapability .emitEvent then .free events (code memory (-1))
  else if events.length ≥ maxEventsPerTx then
    .free events (code memory (-6))
  else if payloadLen < 0 then .free events (code memory (-5))
  else
    let price := saturatingAdd config.eventEmitBaseCost (saturatingMul config.eventEmitPerByteCost
        (UInt64.ofNat (asUsize payloadLen)))
    let rejected (value : Int32) : HostResponse :=
      .priced price (code memory (-2)) events (code memory value)
    match readOne memory payloadPtr payloadLen with
    | none => rejected (-5)
    | some payload =>
      match parseEmissionPayload payload with
      | .error (.topicCountOutOfRange _) => rejected (-3)
      | .error (.dataTooLarge _) => rejected (-4)
      | .error (.truncated _ _) => rejected (-5)
      | .error (.lengthMismatch _ _) => rejected (-5)
      | .ok parsed =>
        .priced price (code memory (-2))
          (events ++ [⟨context.contractId, parsed.topics, parsed.data⟩]) (code memory 0)

/-- The randomness query on the memory of a guest. -/
def sophisVrfRandomAt (chainIndex : Int64) (outPtr : Int32) : HostResponse :=
  charged context events memory .vrfRandomness (-1) config.vrfRandomCost (-2) <|
    let writable := (memory.bind fun data => bounded data outPtr 32).isSome
    match Sophis.sophisVrfRandomAt context true chainIndex writable with
    | (status, none) => code memory status
    | (status, some bytes) =>
      code ((writeToMemory memory bytes.bytes outPtr (-1)).getD memory) status

/-- The availability query on the memory of a guest. -/
def sophisVerifyDa (ptrPayloadId padding : Int32)
    (minConfirmations : Int64) (queryKind : Int32) : HostResponse :=
  charged context events memory .verifyDataAvailability (-2) config.daVerifyCost (-3) (code memory
    (Sophis.sophisVerifyDa context true (readFixed 48 memory ptrPayloadId) padding
      minConfirmations queryKind).1)

/-- The host functions, each behind its capability and its price. -/
def hostFunctions : HostCall → HostResponse
  | .getInputUtxo index outPtr outLenPtr =>
    getInputUtxo context events memory index outPtr outLenPtr
  | .getOutputUtxo index outPtr outLenPtr =>
    getOutputUtxo context events memory index outPtr outLenPtr
  | .getBlockHeight => getBlockHeight context events memory
  | .verifyDilithium pkPtr pkLen msgPtr msgLen sigPtr sigLen =>
    verifyDilithium config crypto context events memory pkPtr pkLen msgPtr msgLen sigPtr sigLen
  | .sha3384 inPtr inLen outPtr => sha3384 config crypto context events memory inPtr inLen outPtr
  | .verifyRisc0Proof sealPtr sealLen journalPtr journalLen imageIdPtr =>
    verifyRisc0Proof config crypto context events memory sealPtr sealLen
      journalPtr journalLen imageIdPtr
  | .verifyPlonky3Proof proofPtr proofLen pubvalsPtr pubvalsLen airIdPtr =>
    verifyPlonky3Proof config crypto context events memory proofPtr proofLen
      pubvalsPtr pubvalsLen airIdPtr
  | .sophisAltLookup ptrHandle index outPtr outLenPtr =>
    sophisAltLookup config context events memory ptrHandle index outPtr outLenPtr
  | .sophisEmitEvent payloadPtr payloadLen =>
    sophisEmitEvent config context events memory payloadPtr payloadLen
  | .sophisVrfRandomAt chainIndex outPtr =>
    sophisVrfRandomAt config context events memory chainIndex outPtr
  | .sophisVerifyDa ptrPayloadId padding minConfirmations queryKind =>
    sophisVerifyDa config context events memory ptrPayloadId padding minConfirmations queryKind

end SvmHost

section

open List

namespace SvmHost

variable {data bytes : List UInt8} {outPtr outLenPtr : Int32} {memory updated : GuestMemory}

theorem of_bounded {ptr : Int32} {length : Nat} (isSome : (bounded data ptr length).isSome = true) :
    asUsize ptr + length ≤ data.length := by
  by_contra outside
  rw [bounded, if_pos (Nat.lt_of_not_le outside), ite_self] at isSome
  cases isSome

section

variable {start : Nat} (inside : start + bytes.length ≤ data.length)
include inside

theorem length_overwrite : (overwrite data start bytes).length = data.length := by
  simp only [overwrite, length_append, length_take, length_drop]
  omega

theorem slice_overwrite : slice (overwrite data start bytes) start bytes.length = bytes := by
  have size : (data.take start).length = start := length_take_of_le (by omega)
  rw [slice, overwrite, append_assoc, drop_left' size, take_left]

theorem getElem?_overwrite {address : Nat}
    (outside : address ∉ Set.Ico start (start + bytes.length)) :
    (overwrite data start bytes)[address]? = data[address]? := by
  have size : (data.take start).length = start := length_take_of_le (by omega)
  rw [Set.mem_Ico] at outside
  rw [overwrite, append_assoc, getElem?_append, size]
  split
  · exact getElem?_take_of_lt ‹_›
  · rw [getElem?_append_right (by omega), getElem?_drop]
    congr 1
    omega

end

theorem asUsize_lt {ptr : Int32} (nonneg : 0 ≤ ptr) : asUsize ptr < 2 ^ 31 := by
  have extended : (0 : Int64) ≤ ptr.toInt64 := by
    rw [Int64.le_iff_toInt_le, Int32.toInt_toInt64]
    exact Int32.le_iff_toInt_le.mp nonneg
  have small := ptr.toInt_lt
  rw [← Int32.toInt_toInt64] at small
  rw [asUsize, Int64.toNat_toUInt64_of_le extended]
  exact (Int.toNat_lt' (by decide)).mpr small

/-- A number of bytes stands at an address of the guest. -/
def StoredAt (after : List UInt8) (ptr : Int32) (count : Nat) : Prop :=
  0 ≤ ptr ∧ slice after (asUsize ptr) 4 = leBytes 4 count

/-- A write of some bytes and of their length into the memory of a guest. It
changes nothing else. The length is stored exactly where the memory has room. -/
structure Writes (data bytes after : List UInt8) (outPtr outLenPtr : Int32) : Prop where
  inside : asUsize outPtr + bytes.length ≤ data.length
  length_eq : after.length = data.length
  frame : ∀ address, after[address]? ≠ data[address]? →
    address ∈ Set.Ico (asUsize outPtr) (asUsize outPtr + bytes.length) ∨
      address ∈ Set.Ico (asUsize outLenPtr) (asUsize outLenPtr + 4)
  stored_iff : StoredAt after outLenPtr bytes.length ↔
    0 ≤ outLenPtr ∧ asUsize outLenPtr + 4 ≤ data.length

theorem writes_of_writeToMemory
    (written : writeToMemory memory bytes outPtr outLenPtr = some updated) :
    ∃ data after, memory = some data ∧ (bounded data outPtr bytes.length).isSome = true ∧
      updated = some after ∧ Writes data bytes after outPtr outLenPtr := by
  simp only [writeToMemory, bind, Option.bind_eq_some_iff] at written
  obtain ⟨data, isData, _, isBounded, written⟩ := written
  have inside := of_bounded (Option.isSome_of_eq_some isBounded)
  have size := length_overwrite inside
  refine ⟨data, ?_⟩
  split at written
  · next asked =>
    cases written
    have width : (leBytes 4 bytes.length).length = 4 := length_leBytes 4 _
    have room : asUsize outLenPtr + (leBytes 4 bytes.length).length ≤
        (overwrite data (asUsize outPtr) bytes).length := by
      rw [size, width]
      exact of_bounded asked.2
    refine ⟨_, isData, Option.isSome_of_eq_some isBounded, rfl, inside,
      (length_overwrite room).trans size, ?_, ?_⟩
    · intro address ne
      by_contra outside
      rw [not_or, ← width] at outside
      exact ne ((getElem?_overwrite room outside.2).trans (getElem?_overwrite inside outside.1))
    · exact iff_of_true ⟨asked.1, slice_overwrite room⟩ ⟨asked.1, of_bounded asked.2⟩
  · next silent =>
    cases written
    refine ⟨_, isData, Option.isSome_of_eq_some isBounded, rfl, inside, size, ?_, ?_⟩
    · intro address ne
      by_contra outside
      exact ne (getElem?_overwrite inside (not_or.mp outside).1)
    · have noRoom : 0 ≤ outLenPtr → ¬ asUsize outLenPtr + 4 ≤ data.length := by
        intro nonneg room
        have small := asUsize_lt nonneg
        refine silent ⟨nonneg, ?_⟩
        rw [bounded, if_neg (by omega), if_neg (by omega)]
        rfl
      refine iff_of_false (fun isStored => noRoom isStored.1 ?_) fun room => noRoom room.1 room.2
      have width := congrArg List.length isStored.2
      rw [slice, length_take, length_drop, length_leBytes, size] at width
      omega

theorem exists_writeToMemory (isBounded : (bounded data outPtr bytes.length).isSome = true) :
    ∃ updated, writeToMemory (some data) bytes outPtr outLenPtr = some updated := by
  obtain ⟨range, isRange⟩ := Option.isSome_iff_exists.mp isBounded
  simp only [writeToMemory, bind, Option.bind_some, isRange]
  split
  · exact ⟨_, rfl⟩
  · exact ⟨_, rfl⟩

end SvmHost

open SvmHost

variable (config : GasConfig) (crypto : HostCrypto) (context : ExecutionContext)
  {memory : GuestMemory}

/-- Where the guest wants the data that a call returns, and its length. -/
def HostCall.buffer : HostCall → Option (Int32 × Option Int32)
  | .getInputUtxo _ outPtr outLenPtr => some (outPtr, some outLenPtr)
  | .getOutputUtxo _ outPtr outLenPtr => some (outPtr, some outLenPtr)
  | .sha3384 _ _ outPtr => some (outPtr, none)
  | .sophisAltLookup _ _ outPtr outLenPtr => some (outPtr, some outLenPtr)
  | _ => none

/-- The lookup of a table returns the version of the script, any other call for
data returns one. -/
def HostCall.succeeds : HostCall → HostValue → Bool
  | .sophisAltLookup .., .i32 value => 0 ≤ value
  | _, .i32 value => value = 1
  | _, .i64 _ => false

variable (meter : Meter) (account : Account (List BufferedEvent)) (memory)

/-- The data that a call has to return: the contract may ask for it, the price is
paid and the arguments name it. -/
def HostCall.data : HostCall → Option (List UInt8)
  | .getInputUtxo index _ _ =>
    if context.hasCapability .readUtxo then context.inputUtxos[asUsize index]? else none
  | .getOutputUtxo index _ _ =>
    if context.hasCapability .readUtxo then context.outputUtxos[asUsize index]? else none
  | .sha3384 inPtr inLen _ =>
    if context.hasCapability .hashSha3 ∧ (meter account.used config.sha3Cost).isSome then
      (readOne memory inPtr inLen).map fun input => (crypto.sha3384 input).bytes
    else
      none
  | .sophisAltLookup ptrHandle index _ _ =>
    if context.hasCapability .resolveAlt ∧ (meter account.used config.altResolveCost).isSome then
      (readFixed altHandleLen memory ptrHandle).bind fun handle =>
        if index < 0 ∨ 255 < index then none
        else (context.alt.resolveReference handle (UInt8.ofNat (asUsize index))).map Prod.snd
    else
      none
  | _ => none

/-- The interface of the lookup has the capacity of the buffer at the address of
the length. -/
def HostCall.WithinCapacity (before bytes : List UInt8) : HostCall → Prop
  | .sophisAltLookup _ _ _ outLenPtr =>
    bytes.length ≤ leValue (slice before (asUsize outLenPtr) 4)
  | _ => True

/-- What the guest may rely on: a call that fails leaves the memory alone, one
that succeeds writes the data and its length and nothing else, within the
capacity. -/
def HostCall.Answers (call : HostCall) (outPtr : Int32) (lengthPtr : Option Int32)
    (reply : HostReply) : Prop :=
  if call.succeeds reply.1 then
    ∃ before bytes after, memory = some before ∧
      call.data config crypto context memory meter account = some bytes ∧ reply.2 = some after ∧
      Writes before bytes after outPtr (lengthPtr.getD (-1)) ∧
      (∀ ptr ∈ lengthPtr, StoredAt after ptr bytes.length) ∧ call.WithinCapacity before bytes
  else
    reply.2 = memory

/-- The buffer fits what there is to write: the length has its place in the
memory, and for the lookup the script is within the capacity. -/
def HostCall.Roomy (call : HostCall) (outPtr : Int32) (lengthPtr : Option Int32) : Prop :=
  ∀ before bytes, memory = some before →
    call.data config crypto context memory meter account = some bytes →
    (bounded before outPtr bytes.length).isSome = true →
    (∀ ptr ∈ lengthPtr, 0 ≤ ptr ∧ asUsize ptr + 4 ≤ before.length) ∧
      call.WithinCapacity before bytes

variable {config crypto context meter account memory}

/-- What a call for data replies when there is data to write, and otherwise. -/
def DeliveredBy (call : HostCall) (memory : GuestMemory) (delivered : Option GuestMemory)
    (reply : HostReply) : Prop :=
  match delivered with
  | some updated => call.succeeds reply.1 = true ∧ reply.2 = updated
  | none => call.succeeds reply.1 = false ∧ reply.2 = memory

theorem deliveredBy_written {call : HostCall} {bytes : List UInt8} {outPtr outLenPtr : Int32}
    (succeeds : ∀ value, call.succeeds (.i32 value) = decide (value = 1)) :
    DeliveredBy call memory (writeToMemory memory bytes outPtr outLenPtr)
      (written memory bytes outPtr outLenPtr) := by
  rw [written]
  cases writeToMemory memory bytes outPtr outLenPtr with
  | none => exact ⟨succeeds 0, rfl⟩
  | some => exact ⟨succeeds 1, rfl⟩

theorem deliveredBy_getUtxo {call : HostCall} {utxos : List (List UInt8)}
    {index outPtr outLenPtr : Int32}
    (succeeds : ∀ value, call.succeeds (.i32 value) = decide (value = 1)) :
    DeliveredBy call memory
      ((if context.hasCapability .readUtxo then utxos[asUsize index]? else none).bind
        fun bytes => writeToMemory memory bytes outPtr outLenPtr)
      (account.settle meter
        (getUtxo context account.world memory utxos index outPtr outLenPtr)).2 := by
  rw [getUtxo]
  cases context.hasCapability .readUtxo with
  | false => exact ⟨succeeds 0, rfl⟩
  | true =>
    cases utxos[asUsize index]? with
    | none => exact ⟨succeeds 0, rfl⟩
    | some => exact deliveredBy_written succeeds

theorem deliveredBy_charged {call : HostCall} {capability : Capability} {missing refused : Int32}
    {price : UInt64} {reply : HostReply} {delivered : Option GuestMemory}
    (noCapability : call.succeeds (.i32 missing) = false)
    (noGas : call.succeeds (.i32 refused) = false)
    (paid : DeliveredBy call memory delivered reply) :
    DeliveredBy call memory
      (if context.hasCapability capability ∧ (meter account.used price).isSome then delivered
        else none)
      (account.settle meter (charged context account.world memory capability missing price
        refused reply)).2 := by
  rw [charged]
  cases context.hasCapability capability with
  | false => exact ⟨noCapability, rfl⟩
  | true =>
    cases gas : meter account.used price with
    | none =>
      simpa [Account.settle, gas] using show DeliveredBy call memory none _ from ⟨noGas, rfl⟩
    | some => simpa [Account.settle, gas] using paid

theorem nonneg_ofNat_toNat (version : UInt16) : (0 : Int32) ≤ Int32.ofNat version.toNat := by
  rw [Int32.le_iff_toInt_le, Int32.toInt_ofNat_of_lt (by have := version.toNat_lt; omega)]
  simp

/-- Every call for data writes the data through `write_to_memory` or fails. -/
theorem hostFunctions_delivered {call : HostCall} {outPtr : Int32} {lengthPtr : Option Int32}
    (wants : call.buffer = some (outPtr, lengthPtr)) :
    DeliveredBy call memory ((call.data config crypto context memory meter account).bind
        fun bytes => writeToMemory memory bytes outPtr (lengthPtr.getD (-1)))
      (account.settle meter (hostFunctions config crypto context account.world memory call)).2 := by
  cases call with
  | getInputUtxo | getOutputUtxo =>
    cases wants
    exact deliveredBy_getUtxo fun _ => rfl
  | sha3384 inPtr inLen outPtr =>
    cases wants
    rw [HostCall.data, apply_ite (Option.bind · _), Option.bind_none]
    refine deliveredBy_charged rfl rfl ?_
    cases readOne memory inPtr inLen with
    | none => exact ⟨rfl, rfl⟩
    | some => exact deliveredBy_written fun _ => rfl
  | sophisAltLookup ptrHandle index outPtr outLenPtr =>
    cases wants
    rw [HostCall.data, apply_ite (Option.bind · _), Option.bind_none]
    refine deliveredBy_charged rfl rfl ?_
    cases readFixed altHandleLen memory ptrHandle with
    | none => exact ⟨rfl, rfl⟩
    | some handle =>
      dsimp only [Option.bind_some]
      split
      · exact ⟨rfl, rfl⟩
      · cases context.alt.resolveReference handle (UInt8.ofNat (asUsize index)) with
        | none => exact ⟨rfl, rfl⟩
        | some entry =>
          dsimp only [Option.map_some, Option.bind_some, Option.getD_some]
          cases writeToMemory memory entry.2 outPtr outLenPtr with
          | none => exact ⟨rfl, rfl⟩
          | some => exact ⟨decide_eq_true (nonneg_ofNat_toNat _), rfl⟩
  | _ => cases wants

/-- A contract that may look up tables, where each entry is a script of three
bytes. -/
def lookupContext : ExecutionContext :=
  ⟨[], [], 0, ⟨zeroHash, .immutable, [.resolveAlt]⟩, zeroHash, stubDa,
    ⟨fun _ _ => some (0, [1, 2, 3])⟩, stubVrf⟩

def lookupCrypto : HostCrypto :=
  ⟨fun _ _ _ => false, fun _ => .replicate 48 0, fun _ _ _ => false, fun _ _ _ => false⟩

/-- A lookup with a buffer at address 12 of a memory. -/
def lookupReply (memory : List UInt8) (outLenPtr : Int32) : HostReply :=
  (Account.settle unlimited (⟨0, 0, [], []⟩ : Account (List BufferedEvent)) (hostFunctions .default
    lookupCrypto lookupContext [] (some memory) (.sophisAltLookup 0 0 12 outLenPtr))).2

end

/-- The exported function `validate` of a compiled contract. A call carries
the memory as it stands at the call. -/
abbrev Guest := Program (GuestMemory × HostCall) HostReply Int32

/-- The contract runtime: its gas model and cryptography, and the engine that
compiles and instantiates deployed code. -/
structure SvmMachine where
  gasConfig : GasConfig
  crypto : HostCrypto
  load : ContractId → List UInt8 → Except String Guest

/-- What an execution reports. -/
structure ExecutionResult where
  valid : Bool
  gasUsed : UInt64
  events : List BufferedEvent
  deriving Repr, DecidableEq

namespace SvmMachine

variable (machine : SvmMachine)

def freshAccount (fuelBudget : UInt64) : Account (List BufferedEvent) := ⟨fuelBudget, 0, [], []⟩

/-- Runs a loaded contract with a meter for its host calls. -/
def runGuest (meter : Meter) (context : ExecutionContext) (fuelBudget : UInt64) (guest : Guest) :
    Except String Int32 × Account (List BufferedEvent) :=
  guest.run (fun events request =>
      SvmHost.hostFunctions machine.gasConfig machine.crypto context events request.1 request.2)
    meter (freshAccount fuelBudget)

variable {machine} {context : ExecutionContext} {fuelBudget : UInt64}
  {guest : Guest}

variable (machine)

def fuelGas (fuelBudget : UInt64) (account : Account (List BufferedEvent)) : UInt64 :=
  saturatingMul (saturatingSub fuelBudget account.fuel) machine.gasConfig.wasmFuelRatio

/-- Each execution starts with meters of its own. The gas it reports counts
the fuel and not the charges of the host functions. -/
def execute (contractId : ContractId) (wasm : List UInt8)
    (context : ExecutionContext) (fuelBudget : UInt64) :
    Except String ExecutionResult := do
  let guest ← machine.load contractId wasm
  let (returned, account) := machine.runGuest (limited machine.gasConfig.maxGasPerTx) context
      fuelBudget guest
  let result ← returned
  return {
    valid := result = 1
    gasUsed := machine.fuelGas fuelBudget account
    events := account.world }

/-- What the validator looks at in an execution. -/
def executor : ContractExecutor where
  execute := fun contractId wasm context fuelBudget =>
    (machine.execute contractId wasm context fuelBudget).map ExecutionResult.valid

end SvmMachine

def SvmContext.drivenBy (context : SvmContext) (machine : SvmMachine) : SvmContext :=
  { context with executor := machine.executor }

end Sophis
