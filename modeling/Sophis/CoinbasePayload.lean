import Sophis.Coinbase

namespace Sophis

open ByteCodec ExceptLoop List MachineWord

/-!
# The coinbase payload codec

The parser of `coinbase.rs` with the places where it could abort, and what
reading, writing and replacing the miner data have to do with each other.
-/

namespace CoinbaseManager

variable (manager : CoinbaseManager)

/-- Splits bytes off the rest of a payload, or aborts when there are too few. -/
def PayloadParser.take (count : Nat) (remaining : List UInt8) :
    Except (Failure CoinbaseError) (List UInt8 × List UInt8) :=
  orPanic (if count ≤ remaining.length then some (remaining.splitAt count) else none)

/-- `deserializeCoinbasePayload` with the places where the parser could abort. -/
def parseCoinbasePayload (payload : List UInt8) :
    Except (Failure CoinbaseError) CoinbaseData := do
  raising (reject (payload.length < minPayloadLength)
    (.payloadLenBelowMin payload.length minPayloadLength))
  raising (reject (payload.length > manager.maxCoinbasePayloadLen)
    (.payloadLenAboveMax payload.length manager.maxCoinbasePayloadLen))
  let (blueScore, remaining) ← PayloadParser.take 8 payload
  let (subsidy, remaining) ← PayloadParser.take 8 remaining
  let (version, remaining) ← PayloadParser.take 2 remaining
  let (lengthByte, remaining) ← PayloadParser.take 1 remaining
  let scriptPubKeyLen := UInt8.ofNat (leValue lengthByte)
  raising (reject (scriptPubKeyLen > manager.coinbasePayloadScriptPublicKeyMaxLen)
    (.payloadScriptPublicKeyLenAboveMax scriptPubKeyLen.toNat
      manager.coinbasePayloadScriptPublicKeyMaxLen))
  raising (reject (remaining.length < scriptPubKeyLen.toNat)
    (.payloadCantContainScriptPublicKey payload.length (minPayloadLength + scriptPubKeyLen.toNat)))
  let (script, extraData) ← PayloadParser.take scriptPubKeyLen.toNat remaining
  return {
    blueScore := UInt64.ofNat (leValue blueScore)
    subsidy := UInt64.ofNat (leValue subsidy)
    minerData := ⟨⟨UInt16.ofNat (leValue version), script⟩, extraData⟩ }

def modifyCoinbasePayload (payload : List UInt8) (minerData : MinerData) :
    Except CoinbaseError (List UInt8) := do
  let spk := minerData.scriptPublicKey
  reject (spk.script.length > manager.coinbasePayloadScriptPublicKeyMaxLen.toNat)
    (.payloadScriptPublicKeyLenAboveMax spk.script.length
      manager.coinbasePayloadScriptPublicKeyMaxLen)
  return payload.take 16 ++ (leBytes 2 spk.version.toNat ++ leBytes 1 spk.script.length ++
    spk.script ++ minerData.extraData)

variable {manager} {payload : List UInt8} {data : CoinbaseData}

theorem parseCoinbasePayload_eq (payload : List UInt8) :
    manager.parseCoinbasePayload payload =
      raising (manager.deserializeCoinbasePayload payload) := by
  have taken {count : Nat} {remaining : List UInt8} (fits : count ≤ remaining.length) :
      PayloadParser.take count remaining = .ok (remaining.take count, remaining.drop count) := by
    rw [PayloadParser.take, if_pos fits, splitAt_eq]
    rfl
  have lengthByte (inside : 18 < payload.length) :
      UInt8.ofNat (leValue (((payload.drop 16).drop 2).take 1)) = byteAt payload 18 := by
    rw [drop_drop, ← slice, slice_one inside]
    simp [leValue]
  rw [parseCoinbasePayload, deserializeCoinbasePayload, raising_bind]
  refine bind_congr_ok fun _ longEnough => ?_
  have inside : 19 ≤ payload.length := Nat.not_lt.mp (reject_eq_ok.mp (raising_eq_ok.mp longEnough))
  rw [raising_bind]
  refine bind_congr_ok fun _ _ => ?_
  simp only [raising_bind]
  rw [taken (by omega), ok_bind, taken (by simp; omega), ok_bind, drop_drop,
    taken (by simp; omega), ok_bind, taken (by simp; omega), ok_bind, lengthByte inside]
  rw [drop_drop, drop_drop]
  refine bind_congr_ok fun _ _ => ?_
  refine bind_congr_ok fun _ contained => ?_
  rw [taken (Nat.not_lt.mp (reject_eq_ok.mp (raising_eq_ok.mp contained))), ok_bind]
  rfl

theorem serialize_of_deserialized (parsed : manager.deserializeCoinbasePayload payload = .ok data) :
    manager.serializeCoinbasePayload data = .ok payload := by
  simp only [deserializeCoinbasePayload, bind_eq_ok, check_eq_ok, reject_eq_ok] at parsed
  obtain ⟨longEnough, -, declared, contained, ran⟩ := parsed
  cases ran
  have inside : 19 ≤ payload.length := Nat.not_lt.mp longEnough
  have scriptLen : ((payload.drop minPayloadLength).take (byteAt payload 18).toNat).length =
      (byteAt payload 18).toNat :=
    length_take_of_le (Nat.not_lt.mp contained)
  have lengthByte : leBytes 1 (byteAt payload 18).toNat = slice payload 18 1 := by
    rw [slice_one inside]
    simp [leBytes]
  simp only [serializeCoinbasePayload, reject, scriptLen, lengthByte,
    leBytes_u64At (show 0 + 8 ≤ payload.length by omega),
    leBytes_u64At (show 8 + 8 ≤ payload.length by omega),
    leBytes_u16At (show 16 + 2 ≤ payload.length by omega), append_assoc, take_append_drop]
  rw [if_neg (Nat.not_lt.mpr (UInt8.le_iff_toNat_le.mp (UInt8.not_lt.mp declared))), ok_bind]
  rw [show payload.drop minPayloadLength = payload.drop (18 + 1) from rfl, slice_append_drop,
    slice_append_drop payload 16 2, slice_append_drop payload 8 8, slice_append_drop payload 0 8]
  rfl

theorem deserialize_of_serialized (written : manager.serializeCoinbasePayload data = .ok payload)
    (bounded : payload.length ≤ manager.maxCoinbasePayloadLen) :
    manager.deserializeCoinbasePayload payload = .ok data := by
  simp only [serializeCoinbasePayload, bind_eq_ok, check_eq_ok, reject_eq_ok] at written
  obtain ⟨short, eq⟩ := written
  obtain ⟨blueScore, subsidy, ⟨⟨version, script⟩, extraData⟩⟩ := data
  dsimp only at short
  have byte : script.length < 256 := Nat.lt_of_le_of_lt (Nat.not_lt.mp short) (UInt8.toNat_lt _)
  have written : slice payload 0 8 = leBytes 8 blueScore.toNat ∧
      slice payload 8 8 = leBytes 8 subsidy.toNat ∧ slice payload 16 2 = leBytes 2 version.toNat ∧
      byteAt payload 18 = UInt8.ofNat (script.length % 256) ∧
      payload.drop minPayloadLength = script ++ extraData ∧
      payload.length = minPayloadLength + (script ++ extraData).length := by
    cases eq
    refine ⟨rfl, rfl, rfl, rfl, rfl, ?_⟩
    simp only [length_append, length_leBytes, minPayloadLength]
    omega
  obtain ⟨scoreBytes, subsidyBytes, versionBytes, lengthByte, rest, size⟩ := written
  have scriptLen : (byteAt payload 18).toNat = script.length := by
    rw [lengthByte, Nat.mod_eq_of_lt byte, UInt8.toNat_ofNat_of_lt' byte]
  have allowed : ¬ byteAt payload 18 > manager.coinbasePayloadScriptPublicKeyMaxLen := by
    rwa [gt_iff_lt, UInt8.lt_iff_toNat_lt, scriptLen]
  have score : u64At payload 0 = blueScore := by
    rw [u64At, scoreBytes, leValue_leBytes blueScore.toNat_lt, UInt64.ofNat_toNat]
  have reward : u64At payload 8 = subsidy := by
    rw [u64At, subsidyBytes, leValue_leBytes subsidy.toNat_lt, UInt64.ofNat_toNat]
  have spkVersion : u16At payload 16 = version := by
    rw [u16At, versionBytes, leValue_leBytes version.toNat_lt, UInt16.ofNat_toNat]
  simp only [deserializeCoinbasePayload, reject, rest, scriptLen, score, reward, spkVersion,
    take_left, drop_left, if_neg allowed, ok_bind, size, length_append,
    Nat.not_lt.mpr (Nat.le_add_right _ _), if_false]
  rw [size, length_append] at bounded
  rw [if_neg (Nat.not_lt.mpr bounded)]
  rfl

/-- Payloads are read back as they were written, written back as they were
read, and keep their scores when the miner data is replaced; the parser never
aborts. -/
theorem coinbasePayload_exact (manager : CoinbaseManager) :
    (∀ data payload, manager.serializeCoinbasePayload data = .ok payload →
        payload.length ≤ manager.maxCoinbasePayloadLen →
        manager.parseCoinbasePayload payload = .ok data) ∧
      (∀ data payload minerData, manager.serializeCoinbasePayload data = .ok payload →
        manager.modifyCoinbasePayload payload minerData =
          manager.serializeCoinbasePayload { data with minerData }) ∧
      (∀ payload, manager.parseCoinbasePayload payload ≠ .error .panicked) ∧
      ∀ payload data, manager.parseCoinbasePayload payload = .ok data →
        manager.serializeCoinbasePayload data = .ok payload := by
  refine ⟨fun data payload written bounded => ?_, fun data payload minerData written => ?_,
    fun payload => ?_, fun payload data parsed => ?_⟩
  · rw [parseCoinbasePayload_eq, raising_eq_ok]
    exact deserialize_of_serialized written bounded
  · simp only [serializeCoinbasePayload, bind_eq_ok, check_eq_ok, reject_eq_ok] at written
    obtain ⟨-, eq⟩ := written
    cases eq
    rw [modifyCoinbasePayload, serializeCoinbasePayload]
    simp only [append_assoc]
    rfl
  · rw [parseCoinbasePayload_eq]
    exact raising_ne_panicked
  · rw [parseCoinbasePayload_eq, raising_eq_ok] at parsed
    exact serialize_of_deserialized parsed

end CoinbaseManager

end Sophis
