import Sophis.BitRegroup
import Sophis.StandardPayment

namespace Sophis

open Address BitRegroup ByteCodec ExceptLoop List MachineWord Option

/-!
# Address strings

`crypto/addresses/src/bech32.rs` and `crypto/addresses/src/lib.rs`: an address
is written as the prefix of its network, a colon and symbols of five bits for the
version byte, the payload and a checksum. Strings are their UTF-8 bytes. A
result `none` or `.panicked` stands for an abort.
-/

/-- The characters `qpzry9x8gf2tvdw0s3jn54khce6mua7l`. -/
def charset : List UInt8 :=
  [113, 112, 122, 114, 121, 57, 120, 56, 103, 102, 50, 116, 118, 100, 119, 48,
    115, 51, 106, 110, 53, 52, 107, 104, 99, 101, 54, 109, 117, 97, 55, 108]

/-- The position of each character, 100 for those that are not used. -/
def revCharset : List UInt8 :=
  [100, 100, 100, 100, 100, 100, 100, 100, 100, 100, 100, 100, 100, 100, 100, 100, 100, 100, 100,
    100, 100, 100, 100, 100, 100, 100, 100, 100, 100, 100, 100, 100, 100, 100, 100, 100, 100, 100,
    100, 100, 100, 100, 100, 100, 100, 100, 100, 100, 15, 100, 10, 17, 21, 20, 26, 30, 7, 5, 100,
    100, 100, 100, 100, 100, 100, 100, 100, 100, 100, 100, 100, 100, 100, 100, 100, 100, 100, 100,
    100, 100, 100, 100, 100, 100, 100, 100, 100, 100, 100, 100, 100, 100, 100, 100, 100, 100, 100,
    29, 100, 24, 13, 25, 9, 8, 23, 100, 18, 22, 31, 27, 19, 100, 1, 0, 3, 16, 11, 28, 12, 14, 6, 4,
    2]

def symbolOf (char : UInt8) : UInt8 := revCharset[char.toNat]?.getD 100

theorem forall_byte {property : UInt8 → Prop}
    (all : ∀ number < 256, property (UInt8.ofNat number)) :
    ∀ byte, property byte := by
  intro byte
  have ofNumber := all byte.toNat byte.toNat_lt
  rwa [UInt8.ofNat_toNat] at ofNumber

theorem charset_symbolOf : ∀ char : UInt8, symbolOf char ≠ 100 → (symbolOf char).toNat < 2 ^ 5 ∧
    charset[(symbolOf char).toNat]? = some char :=
  forall_byte (by decide +kernel)

theorem symbolOf_charset :
    ∀ symbol : UInt8, symbol.toNat < 2 ^ 5 → (charset[symbol.toNat]?).map symbolOf = some symbol :=
  forall_byte (by decide +kernel)

def polymodStep (state : Nat) (value : UInt8) : Nat :=
  let top := state >>> 35
  let shifted := ((state &&& 0x07ffffffff) <<< 5) ^^^ value.toNat
  let shifted := if top &&& 0x01 ≠ 0 then shifted ^^^ 0x98f2bc8e61 else shifted
  let shifted := if top &&& 0x02 ≠ 0 then shifted ^^^ 0x79b76d99e2 else shifted
  let shifted := if top &&& 0x04 ≠ 0 then shifted ^^^ 0xf33e5fb3c4 else shifted
  let shifted := if top &&& 0x08 ≠ 0 then shifted ^^^ 0xae2eabe2a8 else shifted
  if top &&& 0x10 ≠ 0 then shifted ^^^ 0x1e4f43e470 else shifted

def polymod (values : List UInt8) : Nat := values.foldl polymodStep 1 ^^^ 1

def checksum (payload fivebitPrefix : List UInt8) : Nat :=
  polymod (fivebitPrefix ++ [0] ++ payload ++ List.replicate 8 0)

theorem ite_xor_lt {condition : Prop} [Decidable condition] {value constant : Nat}
    (valueFits : value < 2 ^ 40) (constantFits : constant < 2 ^ 40) :
    (if condition then value ^^^ constant else value) < 2 ^ 40 := by
  split_ifs
  · exact Nat.xor_lt_two_pow valueFits constantFits
  · exact valueFits

theorem polymodStep_lt (state : Nat) (value : UInt8) : polymodStep state value < 2 ^ 40 := by
  have low : state &&& 0x07ffffffff < 2 ^ 35 := Nat.and_lt_two_pow _ (by decide)
  have shifted : (state &&& 0x07ffffffff) <<< 5 < 2 ^ 40 := by
    rw [Nat.shiftLeft_eq]
    omega
  have mixed : ((state &&& 0x07ffffffff) <<< 5) ^^^ value.toNat < 2 ^ 40 :=
    Nat.xor_lt_two_pow shifted (lt_trans value.toNat_lt (by decide))
  unfold polymodStep
  refine ite_xor_lt (ite_xor_lt (ite_xor_lt (ite_xor_lt (ite_xor_lt mixed ?_) ?_) ?_) ?_) ?_
  all_goals decide

theorem polymod_lt (values : List UInt8) : polymod values < 2 ^ 40 := by
  have folded : ∀ state, state < 2 ^ 40 → values.foldl polymodStep state < 2 ^ 40 := by
    induction values with
    | nil => exact fun _ fits => fits
    | cons value values ih =>
      intro state _
      exact ih _ (polymodStep_lt state value)
  exact Nat.xor_lt_two_pow (folded 1 (by decide)) (by decide)

/-- Writes symbols one after the other into a vector of zeros, `none` when it is
too short. -/
def fillZeros (size : Nat) (symbols : List Nat) : Option (List UInt8) :=
  if symbols.length ≤ size then
    some (symbols.map UInt8.ofNat ++ List.replicate (size - symbols.length) 0)
  else
    none

/-- Eight-bit values to five-bit values with padding on the right. -/
def conv8to5 (payload : List UInt8) : Option (List UInt8) :=
  let pad := if payload.length % 5 = 0 then 0 else 1
  fillZeros (payload.length * 8 / 5 + pad) ((regroup 8 5 0 0 (payload.map UInt8.toNat)).padded 5)

/-- Five-bit values to eight-bit values, without what is left on the right. -/
def conv5to8 (payload : List UInt8) : Option (List UInt8) := fillZeros (payload.length * 5 / 8)
    (regroup 5 8 0 0 (payload.map UInt8.toNat)).symbols

/-- The bytes of five-bit values. -/
def IsFiveBit (symbols : List UInt8) : Prop := ∀ symbol ∈ symbols, symbol.toNat < 2 ^ 5

variable {symbols : List Nat}

theorem fillZeros_of_length {size : Nat} (exact_size : symbols.length = size) :
    fillZeros size symbols = some (symbols.map UInt8.ofNat) := by
  unfold fillZeros
  rw [if_pos exact_size.le, exact_size, Nat.sub_self, replicate_zero, append_nil]

theorem bytes_lt (payload : List UInt8) : ∀ symbol ∈ payload.map UInt8.toNat, symbol < 2 ^ 8 := by
  intro symbol mem
  obtain ⟨byte, -, rfl⟩ := List.mem_map.mp mem
  exact byte.toNat_lt

theorem map_toNat_map_ofNat (fits : ∀ symbol ∈ symbols, symbol < 2 ^ 8) :
    (symbols.map UInt8.ofNat).map UInt8.toNat = symbols := by
  rw [List.map_map]
  conv_rhs => rw [← List.map_id symbols]
  refine map_congr_left fun symbol mem => ?_
  exact UInt8.toNat_ofNat_of_lt' (fits symbol mem)

theorem map_ofNat_map_toNat (payload : List UInt8) :
    (payload.map UInt8.toNat).map UInt8.ofNat = payload := by
  rw [List.map_map]
  conv_rhs => rw [← List.map_id payload]
  exact map_congr_left fun byte _ => UInt8.ofNat_toNat

theorem length_padded {target : Nat} {bits : List Bool} {cut : Cut}
    (holds : cut.Holds target bits) :
    (cut.padded target).length =
      bits.length / target + if bits.length % target = 0 then 0 else 1 := by
  obtain ⟨whole, left⟩ := holds.length
  unfold Cut.padded
  rw [← whole, ← left]
  split_ifs with some none
  · omega
  · rw [length_append, length_singleton]
  · rfl
  · omega

theorem conv8to5_eq (payload : List UInt8) :
    ∃ symbols, conv8to5 payload = some symbols ∧ IsFiveBit symbols ∧ symbols.length =
        payload.length * 8 / 5 + (if payload.length % 5 = 0 then 0 else 1) ∧
      symbols.map UInt8.toNat = (regroup 8 5 0 0 (payload.map UInt8.toNat)).padded 5 := by
  have holds := regroup_holds_stream (show 0 < 5 by decide) (bytes_lt payload)
  have size : ((regroup 8 5 0 0 (payload.map UInt8.toNat)).padded 5).length =
      payload.length * 8 / 5 + if payload.length % 5 = 0 then 0 else 1 := by
    rw [length_padded holds, length_stream, length_map]
    split_ifs
    all_goals omega
  have back := map_toNat_map_ofNat fun symbol mem =>
    lt_trans (holds.padded_lt symbol mem) (by decide)
  refine ⟨_, fillZeros_of_length size, ?_, by rw [length_map, size], back⟩
  intro symbol mem
  refine holds.padded_lt symbol.toNat ?_
  rw [← back]
  exact List.mem_map_of_mem mem

variable {payload : List UInt8}

theorem IsFiveBit.symbols_lt (fiveBit : IsFiveBit payload) :
    ∀ symbol ∈ payload.map UInt8.toNat, symbol < 2 ^ 5 :=
  forall_mem_map.mpr fiveBit

theorem conv5to8_eq (fiveBit : IsFiveBit payload) :
    ∃ bytes, conv5to8 payload = some bytes ∧ bytes.length = payload.length * 5 / 8 ∧
      bytes.map UInt8.toNat = (regroup 5 8 0 0 (payload.map UInt8.toNat)).symbols := by
  have holds := regroup_holds_stream (show 0 < 8 by decide) fiveBit.symbols_lt
  have size : (regroup 5 8 0 0 (payload.map UInt8.toNat)).symbols.length =
      payload.length * 5 / 8 := by
    rw [holds.length.1, length_stream, length_map]
  refine ⟨_, fillZeros_of_length size, ?_, map_toNat_map_ofNat holds.symbols_lt⟩
  rw [length_map, size]

theorem conv5to8_conv8to5 {symbols : List UInt8} (converted : conv8to5 payload = some symbols) :
    conv5to8 symbols = some payload := by
  obtain ⟨expected, eq, fiveBit, -, asNumbers⟩ := conv8to5_eq payload
  cases converted.symm.trans eq
  obtain ⟨bytes, back, -, backNumbers⟩ := conv5to8_eq fiveBit
  rw [asNumbers, regroup_padded (by decide) (by decide) (bytes_lt payload)] at backNumbers
  rw [back, ← map_ofNat_map_toNat bytes, backNumbers, map_ofNat_map_toNat]

theorem conv8to5_conv5to8 {bytes : List UInt8} (fiveBit : IsFiveBit payload)
    (converted : conv5to8 payload = some bytes) (short : payload.length * 5 % 8 < 5)
    (zero : (regroup 5 8 0 0 (payload.map UInt8.toNat)).buffer = 0) :
    conv8to5 bytes = some payload := by
  have holds := regroup_holds_stream (show 0 < 8 by decide) fiveBit.symbols_lt
  have shortBuffer : (regroup 5 8 0 0 (payload.map UInt8.toNat)).bits < 5 := by
    rw [holds.length.2, length_stream, length_map]
    exact short
  obtain ⟨expected, eq, -, asNumbers⟩ := conv5to8_eq fiveBit
  cases converted.symm.trans eq
  obtain ⟨symbols, back, -, -, backNumbers⟩ := conv8to5_eq bytes
  rw [asNumbers, padded_regroup (by decide) fiveBit.symbols_lt (by decide) shortBuffer zero]
    at backNumbers
  rw [back, ← map_ofNat_map_toNat symbols, backNumbers, map_ofNat_map_toNat]

/-- Why a text is not an address. -/
inductive AddressError where
  | invalidPrefix (text : List UInt8)
  | missingPrefix
  | invalidVersion (byte : UInt8)
  | decodingError (char : UInt8)
  | badChecksumSize
  | badChecksum
  | badPayload
  deriving Repr, DecidableEq

/-- The prefixes `sophis`, `sophistest`, `sophissim` and `sophisdev`. -/
def AddressNetwork.asStr : AddressNetwork → List UInt8
  | .mainnet => [115, 111, 112, 104, 105, 115]
  | .testnet => [115, 111, 112, 104, 105, 115, 116, 101, 115, 116]
  | .simnet => [115, 111, 112, 104, 105, 115, 115, 105, 109]
  | .devnet => [115, 111, 112, 104, 105, 115, 100, 101, 118]

def AddressNetwork.tryFrom (text : List UInt8) : Except AddressError AddressNetwork :=
  if text = AddressNetwork.mainnet.asStr then .ok .mainnet
  else if text = AddressNetwork.testnet.asStr then .ok .testnet
  else if text = AddressNetwork.simnet.asStr then .ok .simnet
  else if text = AddressNetwork.devnet.asStr then .ok .devnet
  else .error (.invalidPrefix text)

def AddressVersion.byte : AddressVersion → UInt8
  | .pubKeyDilithium => 2
  | .scriptHash => 8

def AddressVersion.tryFrom (byte : UInt8) : Except AddressError AddressVersion :=
  if byte = 2 then .ok .pubKeyDilithium
  else if byte = 8 then .ok .scriptHash
  else .error (.invalidVersion byte)

/-- The constructor, which asserts the length of the payload. -/
def Address.new (network : AddressNetwork) (version : AddressVersion)
    (payload : List UInt8) : Option Address :=
  if size : payload.length = 32 then
    some ⟨network, version, ⟨payload, size⟩⟩
  else
    none

def AddressNetwork.fivebitPrefix (network : AddressNetwork) : List UInt8 :=
  network.asStr.map (· &&& 0x1f)

def Address.encodePayload (address : Address) : Option (List UInt8) := do
  let fivebitPayload ← conv8to5 (address.version.byte :: address.payload.bytes)
  let sum := checksum fivebitPayload address.network.fivebitPrefix
  let fivebitSum ← conv8to5 ((leBytes 8 sum).reverse.drop 3)
  (fivebitPayload ++ fivebitSum).mapM fun symbol => charset[symbol.toNat]?

/-- Writes an address. -/
def Address.toText (address : Address) : Option (List UInt8) := do
  let payload ← address.encodePayload
  return address.network.asStr ++ 58 :: payload

def decodeSymbols (address : List UInt8) : Except AddressError (List UInt8) :=
  address.mapM fun char =>
    if symbolOf char = 100 then
      .error (.decodingError char)
    else
      .ok (symbolOf char)

/-- The first half of `decode_payload`: the five-bit payload of a string with
the right checksum. -/
def checkSymbols (network : AddressNetwork) (address : List UInt8) :
    Except (Failure AddressError) (List UInt8) := do
  let addressU5 ← raising (decodeSymbols address)
  reject (address.length < 8) (.raised .badPayload)
  let payloadU5 := addressU5.take (address.length - 8)
  let checksumU5 := addressU5.drop (address.length - 8)
  let checksumBytes ← orPanic (conv5to8 checksumU5)
  let checksumWord := List.replicate 3 0 ++ checksumBytes
  reject (checksumWord.length ≠ 8) (.raised .badChecksumSize)
  reject (checksum payloadU5 network.fivebitPrefix ≠
    leValue checksumWord.reverse) (.raised .badChecksum)
  return payloadU5

/-- The second half: the address of a checked payload. -/
def Address.ofPayload (network : AddressNetwork) (payloadU5 : List UInt8) :
    Except (Failure AddressError) Address := do
  let payloadU8 ← orPanic (conv5to8 payloadU5)
  match payloadU8 with
  | [] => .error (.raised .badPayload)
  | byte :: payload => do
    let version ← raising (AddressVersion.tryFrom byte)
    orPanic (Address.new network version payload)

def Address.decodePayload (network : AddressNetwork) (address : List UInt8) :
    Except (Failure AddressError) Address := do
  let payloadU5 ← checkSymbols network address
  Address.ofPayload network payloadU5

def splitOnce (separator : UInt8) : List UInt8 → Option (List UInt8 × List UInt8)
  | [] => none
  | byte :: rest =>
    if byte = separator then
      some ([], rest)
    else
      (splitOnce separator rest).map fun parts => (byte :: parts.1, parts.2)

/-- Reads an address. -/
def Address.tryFrom (value : List UInt8) : Except (Failure AddressError) Address :=
  match splitOnce 58 value with
  | some (networkText, payload) => do
    let network ← raising (AddressNetwork.tryFrom networkText)
    Address.decodePayload network payload
  | none => .error (.raised .missingPrefix)

section

variable {separator : UInt8} {before after : List UInt8}

theorem splitOnce_eq_some {value : List UInt8}
    (split : splitOnce separator value = some (before, after)) :
    value = before ++ separator :: after := by
  induction value generalizing before with
  | nil => cases split
  | cons byte rest ih =>
    unfold splitOnce at split
    split_ifs at split with got
    · cases split
      rw [got]
      rfl
    · obtain ⟨parts, splitRest, eq⟩ := map_eq_some_iff.mp split
      cases eq
      rw [ih splitRest]
      rfl

theorem splitOnce_append (absent : separator ∉ before) :
    splitOnce separator (before ++ separator :: after) = some (before, after) := by
  induction before with
  | nil => simp [splitOnce]
  | cons byte before ih =>
    rw [mem_cons, not_or] at absent
    rw [cons_append, splitOnce, if_neg (Ne.symm absent.1), ih absent.2]
    rfl

open AddressNetwork

theorem AddressNetwork.tryFrom_eq_ok_iff {text : List UInt8} {network : AddressNetwork} :
    tryFrom text = .ok network ↔ text = network.asStr := by
  unfold tryFrom
  constructor
  · intro known
    split_ifs at known with main test sim dev
    all_goals cases known
    all_goals assumption
  · rintro rfl
    cases network
    all_goals decide

theorem AddressVersion.tryFrom_eq_ok_iff {byte : UInt8} {version : AddressVersion} :
    AddressVersion.tryFrom byte = .ok version ↔ byte = version.byte := by
  unfold AddressVersion.tryFrom
  constructor
  · intro known
    split_ifs at known with dilithium script
    all_goals cases known
    all_goals assumption
  · rintro rfl
    cases version
    all_goals decide

variable {symbols : List UInt8}

theorem decodeSymbols_eq_ok {address : List UInt8} (decoded : decodeSymbols address = .ok symbols) :
    IsFiveBit symbols ∧ symbols.length = address.length ∧
      symbols.mapM (fun symbol => charset[symbol.toNat]?) = some address := by
  induction address generalizing symbols with
  | nil =>
    cases decoded
    exact ⟨by simp [IsFiveBit], rfl, rfl⟩
  | cons char rest ih =>
    unfold decodeSymbols at decoded
    rw [mapM_cons] at decoded
    obtain ⟨symbol, read, decoded⟩ := bind_eq_ok.mp decoded
    obtain ⟨symbols, decodedRest, eq⟩ := bind_eq_ok.mp decoded
    cases eq
    split_ifs at read with unused
    cases read
    obtain ⟨fiveBit, length, back⟩ := ih decodedRest
    obtain ⟨fits, char⟩ := charset_symbolOf char unused
    refine ⟨?_, by rw [length_cons, length, length_cons], ?_⟩
    · exact forall_mem_cons.mpr ⟨fits, fiveBit⟩
    · rw [mapM_cons, char, back]
      rfl

theorem exists_characters (fiveBit : IsFiveBit symbols) :
    ∃ text, symbols.mapM (fun symbol => charset[symbol.toNat]?) = some text ∧
      text.length = symbols.length ∧ decodeSymbols text = .ok symbols := by
  induction symbols with
  | nil => exact ⟨[], rfl, rfl, rfl⟩
  | cons symbol symbols ih =>
    obtain ⟨text, written, length, read⟩ := ih (forall_mem_cons.mp fiveBit).2
    obtain ⟨char, got, eq⟩ := map_eq_some_iff.mp
      (symbolOf_charset symbol (fiveBit symbol mem_cons_self))
    have used : symbolOf char ≠ 100 := by
      rintro unused
      have fits := fiveBit symbol mem_cons_self
      rw [← eq, unused] at fits
      exact absurd fits (by decide)
    refine ⟨char :: text, ?_, by rw [length_cons, length, length_cons], ?_⟩
    · rw [mapM_cons, got, written]
      rfl
    · unfold decodeSymbols at read ⊢
      rw [mapM_cons, if_neg used, read, eq]
      rfl

end

section

variable {sum : Nat}

theorem leBytes_eight_of_lt (fits : sum < 2 ^ 40) :
    leBytes 8 sum = leBytes 5 sum ++ List.replicate 3 0 := by
  have high : sum / 256 / 256 / 256 / 256 / 256 = 0 := by omega
  simp [leBytes, high, List.replicate]

theorem leValue_checksumBytes (fits : sum < 2 ^ 40) :
    leValue (List.replicate 3 0 ++ (leBytes 8 sum).reverse.drop 3).reverse = sum := by
  have whole : (leBytes 8 sum).reverse = List.replicate 3 0 ++ (leBytes 8 sum).reverse.drop 3 := by
    rw [leBytes_eight_of_lt fits, reverse_append, reverse_replicate]
    rfl
  rw [← whole, reverse_reverse]
  exact leValue_leBytes (lt_trans fits (by decide))

variable {bytes : List UInt8}

theorem checksumBytes_leValue (size : bytes.length = 5) :
    (leBytes 8 (leValue (List.replicate 3 0 ++ bytes).reverse)).reverse.drop 3 = bytes := by
  have width : (List.replicate 3 0 ++ bytes).reverse.length = 8 := by
    rw [length_reverse, length_append, length_replicate, size]
  rw [leBytes_leValue width, reverse_reverse]
  rfl

variable {network : AddressNetwork} {text payload : List UInt8}

theorem checkSymbols_eq_ok (checked : checkSymbols network text = .ok payload) :
    ∃ sums bytes, decodeSymbols text = .ok (payload ++ sums) ∧
      sums.length = 8 ∧ conv5to8 sums = some bytes ∧
      checksum payload network.fivebitPrefix = leValue (List.replicate 3 0 ++ bytes).reverse := by
  unfold checkSymbols at checked
  simp only [bind_eq_ok, check_eq_ok, reject_eq_ok, raising_eq_ok,
    orPanic_eq_ok, not_lt, not_not] at checked
  obtain ⟨symbols, read, long, bytes, converted, -, eq, ran⟩ := checked
  cases ran
  obtain ⟨-, length, -⟩ := decodeSymbols_eq_ok read
  refine ⟨_, bytes, ?_, ?_, converted, eq⟩
  · rw [take_append_drop]
    exact read
  · rw [length_drop, length]
    omega

theorem IsFiveBit.of_append {first second : List UInt8} (fiveBit : IsFiveBit (first ++ second)) :
    IsFiveBit first ∧ IsFiveBit second :=
  ⟨fun symbol mem => fiveBit symbol (mem_append_left _ mem),
    fun symbol mem => fiveBit symbol (mem_append_right _ mem)⟩

theorem characters_of_checkSymbols (checked : checkSymbols network text = .ok payload) :
    IsFiveBit payload ∧ ∃ sums,
      conv8to5 ((leBytes 8 (checksum payload network.fivebitPrefix)).reverse.drop 3) = some sums ∧
      (payload ++ sums).mapM (fun symbol => charset[symbol.toNat]?) = some text := by
  obtain ⟨sums, bytes, read, eight, converted, eq⟩ := checkSymbols_eq_ok checked
  obtain ⟨fiveBit, -, written⟩ := decodeSymbols_eq_ok read
  obtain ⟨payloadFive, sumsFive⟩ := fiveBit.of_append
  obtain ⟨expected, sameBytes, size, -⟩ := conv5to8_eq sumsFive
  cases converted.symm.trans sameBytes
  have five : bytes.length = 5 := by rw [size, eight]
  refine ⟨payloadFive, sums, ?_, written⟩
  rw [eq, checksumBytes_leValue five]
  -- forty bits leave nothing in the buffer
  have holds := regroup_holds_stream (show 0 < 8 by decide) sumsFive.symbols_lt
  have none : (regroup 5 8 0 0 (sums.map UInt8.toNat)).bits = 0 := by
    rw [holds.length.2, length_stream, length_map, eight]
  refine conv8to5_conv5to8 sumsFive converted (by rw [eight]; decide) ?_
  have buffer := holds.buffer_lt
  rw [none] at buffer
  omega

theorem buffer_eq_zero {last : UInt8} (fiveBit : IsFiveBit payload) (size : payload.length = 53)
    (isLast : payload.getLast? = some last) (even : last.toNat % 2 = 0) :
    (regroup 5 8 0 0 (payload.map UInt8.toNat)).buffer = 0 := by
  have holds := regroup_holds_stream (show 0 < 8 by decide) fiveBit.symbols_lt
  have one : (regroup 5 8 0 0 (payload.map UInt8.toNat)).bits = 1 := by
    rw [holds.length.2, length_stream, length_map, size]
  generalize regroup 5 8 0 0 (payload.map UInt8.toNat) = cut at holds one ⊢
  obtain ⟨front, rfl⟩ := getLast?_eq_some_iff.mp isLast
  have whole := holds.stream_eq
  have buffer := holds.buffer_lt
  rw [one] at buffer
  rw [one, map_append, stream_append] at whole
  -- the last bit of the stream is the low bit of the last value
  have lastBits := congrArg List.getLast? whole
  simp only [map_cons, map_nil, stream_cons, stream_nil, bitsOf, append_nil, getLast?_append,
    getLast?_cons_cons, getLast?_singleton, some_or, Option.some.injEq, Nat.testBit_zero,
    even] at lastBits
  have notOne := of_decide_eq_false (lastBits.trans (by decide))
  omega

/-- Thirty-three bytes are written as fifty-three values, and the bit that is
left over is zero. -/
theorem conv8to5_padding {bytes symbols : List UInt8} (size : bytes.length = 33)
    (converted : conv8to5 bytes = some symbols) :
    symbols.length = 53 ∧ ∃ last ∈ symbols.getLast?, last.toNat % 2 = 0 := by
  obtain ⟨expected, eq, -, length, numbers⟩ := conv8to5_eq bytes
  cases converted.symm.trans eq
  have holds := regroup_holds_stream (show 0 < 5 by decide) (bytes_lt bytes)
  have four : (regroup 8 5 0 0 (bytes.map UInt8.toNat)).bits = 4 := by
    rw [holds.length.2, length_stream, length_map, size]
  rw [size] at length
  refine ⟨length, ?_⟩
  rw [Cut.padded, four, if_pos (by decide)] at numbers
  have last := congrArg List.getLast? numbers
  rw [getLast?_map, getLast?_concat] at last
  obtain ⟨symbol, isLast, value⟩ := map_eq_some_iff.mp last
  refine ⟨symbol, isLast, ?_⟩
  rw [value, Nat.shiftLeft_eq]
  omega

/-- A payload with a known version has the fifty-three values of a version and
thirty-two bytes, and the bit that is left over is zero. -/
def PaddedPayload (payload : List UInt8) : Prop :=
  ∀ (version : AddressVersion) (bytes : List UInt8),
    conv5to8 payload = some (version.byte :: bytes) →
    payload.length = 53 ∧ ∃ last ∈ payload.getLast?, last.toNat % 2 = 0

/-- The condition on a string: if its checksum is right and its version is
known, its payload has the right length and a zero for padding. -/
def ZeroPadded (value : List UInt8) : Prop := ∀ networkText text network payload,
    splitOnce 58 value = some (networkText, text) →
    AddressNetwork.tryFrom networkText = .ok network →
    checkSymbols network text = .ok payload → PaddedPayload payload

theorem checkSymbols_ne_panicked (network : AddressNetwork) (text : List UInt8) :
    checkSymbols network text ≠ .error .panicked := by
  intro failed
  unfold checkSymbols at failed
  rcases bind_eq_error.mp failed with undecoded | ⟨symbols, read, failed⟩
  · obtain ⟨error, -, renamed⟩ := mapError_eq_error.mp undecoded
    cases renamed
  · rcases bind_eq_error.mp failed with short | ⟨-, -, failed⟩
    · exact absurd (reject_eq_error.mp short).2 (by simp)
    · obtain ⟨fiveBit, -, -⟩ := decodeSymbols_eq_ok (raising_eq_ok.mp read)
      have sumsFive : IsFiveBit (symbols.drop (text.length - 8)) :=
        fun symbol mem => fiveBit symbol (mem_of_mem_drop mem)
      obtain ⟨bytes, converted, -⟩ := conv5to8_eq sumsFive
      dsimp only at failed
      rw [converted] at failed
      rcases bind_eq_error.mp failed with missing | ⟨word, -, failed⟩
      · cases missing
      · rcases bind_eq_error.mp failed with size | ⟨-, -, failed⟩
        · exact absurd (reject_eq_error.mp size).2 (by simp)
        · rcases bind_eq_error.mp failed with wrong | ⟨-, -, ran⟩
          · exact absurd (reject_eq_error.mp wrong).2 (by simp)
          · cases ran

/-- A checked payload is read without an abort, and written again as it is,
exactly when it is padded with a zero to its length. -/
theorem ofPayload_canonical_iff (network : AddressNetwork) {payload : List UInt8}
    (fiveBit : IsFiveBit payload) :
    (ofPayload network payload ≠ .error .panicked ∧
      ∀ address, ofPayload network payload = .ok address →
        conv8to5 (address.version.byte :: address.payload.bytes) = some payload) ↔
      PaddedPayload payload := by
  obtain ⟨bytes, converted, length, -⟩ := conv5to8_eq fiveBit
  unfold PaddedPayload
  cases bytes with
  | nil =>
    have empty : ofPayload network payload = .error (.raised .badPayload) := by
      rw [ofPayload, converted, orPanic, ok_bind]
    rw [converted, empty]
    simp
  | cons byte rest =>
    cases known : AddressVersion.tryFrom byte with
    | error error =>
      have unknown : ofPayload network payload = .error (.raised error) := by
        rw [ofPayload, converted]
        simp only [orPanic, ok_bind, known, raising, Except.mapError, error_bind]
      rw [converted, unknown]
      refine iff_of_true ⟨by simp, by simp⟩ fun version bytes eq => ?_
      rw [(cons.inj (some.inj eq)).1, AddressVersion.tryFrom_eq_ok_iff.mpr rfl] at known
      cases known
    | ok version =>
      have reads : ofPayload network payload = orPanic (new network version rest) := by
        rw [ofPayload, converted]
        simp only [orPanic, ok_bind, known, raising, Except.mapError]
      cases AddressVersion.tryFrom_eq_ok_iff.mp known
      rw [converted, reads, new]
      by_cases size : rest.length = 32
      · rw [dif_pos size]
        simp only [orPanic, ne_eq, reduceCtorEq, not_false_eq_true, true_and, Except.ok.injEq,
          forall_eq']
        constructor
        · intro back _ _ _
          exact conv8to5_padding (by rw [length_cons, size]) back
        · intro padded
          obtain ⟨size, last, isLast, even⟩ := padded version rest rfl
          exact conv8to5_conv5to8 fiveBit converted (by rw [size]; decide)
            (buffer_eq_zero fiveBit size isLast even)
      · rw [dif_neg size]
        refine iff_of_false (fun returns => returns.1 rfl) fun padded => size ?_
        rw [(padded version rest rfl).1, length_cons] at length
        omega

theorem checkSymbols_of_parts {sums : List UInt8}
    (read : decodeSymbols text = .ok (payload ++ sums)) (eight : sums.length = 8)
    (converted : conv5to8 sums = some bytes) (five : bytes.length = 5)
    (eq : checksum payload network.fivebitPrefix = leValue (List.replicate 3 0 ++ bytes).reverse) :
    checkSymbols network text = .ok payload := by
  obtain ⟨-, length, -⟩ := decodeSymbols_eq_ok read
  rw [length_append, eight] at length
  have cut : text.length - 8 = payload.length := by omega
  unfold checkSymbols
  simp only [bind_eq_ok, check_eq_ok, reject_eq_ok, raising_eq_ok, orPanic_eq_ok, not_lt, not_not]
  refine ⟨_, read, by omega, bytes, ?_, ?_, ?_, ?_⟩
  · rw [cut, drop_left]
    exact converted
  · rw [length_append, length_replicate, five]
  · rw [cut, take_left]
    exact eq
  · rw [cut, take_left]
    rfl

theorem tryFrom_of_split {value networkText : List UInt8}
    (split : splitOnce 58 value = some (networkText, text))
    (known : AddressNetwork.tryFrom networkText = .ok network) :
    tryFrom value = decodePayload network text := by
  unfold tryFrom
  rw [split]
  simp only [known, raising, Except.mapError, ok_bind]

theorem ofPayload_of_converted {address : Address} {symbols : List UInt8}
    (converted : conv5to8 symbols = some (address.version.byte :: address.payload.bytes)) :
    ofPayload address.network symbols = .ok address := by
  unfold ofPayload
  rw [converted]
  simp only [orPanic, ok_bind, AddressVersion.tryFrom_eq_ok_iff.mpr rfl,
    raising, Except.mapError, new, dif_pos address.payload.length_bytes]

/-- The characters of an address pass the checksum. -/
theorem checkSymbols_encodePayload (address : Address) :
    ∃ symbols text, conv8to5 (address.version.byte :: address.payload.bytes) = some symbols ∧
      address.encodePayload = some text ∧ checkSymbols address.network text = .ok symbols := by
  obtain ⟨symbols, forth, symbolsFive, -, -⟩ :=
    conv8to5_eq (address.version.byte :: address.payload.bytes)
  have sumFits : checksum symbols address.network.fivebitPrefix < 2 ^ 40 := polymod_lt _
  have five : ((leBytes 8 (checksum symbols
      address.network.fivebitPrefix)).reverse.drop 3).length = 5 := by
    rw [length_drop, length_reverse, length_leBytes]
  obtain ⟨sums, sumsForth, sumsFive, eight, -⟩ := conv8to5_eq ((leBytes 8
    (checksum symbols address.network.fivebitPrefix)).reverse.drop 3)
  rw [five] at eight
  have fiveBit : IsFiveBit (symbols ++ sums) := by
    exact forall_mem_append.mpr ⟨symbolsFive, sumsFive⟩
  obtain ⟨text, written, -, read⟩ := exists_characters fiveBit
  refine ⟨symbols, text, forth, ?_, ?_⟩
  · unfold encodePayload
    rw [forth]
    simp only [bind_eq_bind, bind_some]
    rw [sumsForth]
    exact written
  · exact checkSymbols_of_parts read eight (conv5to8_conv8to5 sumsForth) five
      (leValue_checksumBytes sumFits).symm

theorem colon_notMem_asStr (network : AddressNetwork) : (58 : UInt8) ∉ network.asStr := by
  cases network
  all_goals decide

theorem tryFrom_toText (address : Address) :
    ∃ text, address.toText = some text ∧ tryFrom text = .ok address := by
  obtain ⟨symbols, text, forth, encoded, checked⟩ := checkSymbols_encodePayload address
  refine ⟨address.network.asStr ++ 58 :: text, ?_, ?_⟩
  · unfold toText
    rw [encoded]
    rfl
  · rw [tryFrom_of_split (splitOnce_append (colon_notMem_asStr _))
      (AddressNetwork.tryFrom_eq_ok_iff.mpr rfl)]
    unfold decodePayload
    rw [checked, ok_bind]
    exact ofPayload_of_converted (conv5to8_conv8to5 forth)

/-- An address is written as a string with the right checksum exactly when its
bytes are written as the values of the string. -/
theorem toText_eq_some_iff {address : Address} {value networkText : List UInt8}
    (split : splitOnce 58 value = some (networkText, text))
    (known : AddressNetwork.tryFrom networkText = .ok address.network)
    (checked : checkSymbols address.network text = .ok payload) :
    address.toText = some value ↔
      conv8to5 (address.version.byte :: address.payload.bytes) = some payload := by
  constructor
  · intro isText
    obtain ⟨symbols, own, forth, encoded, ownChecked⟩ := checkSymbols_encodePayload address
    rw [toText, encoded] at isText
    cases isText
    rw [splitOnce_append (colon_notMem_asStr _)] at split
    cases split
    cases ownChecked.symm.trans checked
    exact forth
  · intro forth
    obtain ⟨-, sums, sumsForth, written⟩ := characters_of_checkSymbols checked
    unfold toText encodePayload
    rw [forth]
    simp only [bind_eq_bind, bind_some]
    rw [sumsForth]
    simp only [bind_some]
    rw [written, splitOnce_eq_some split, AddressNetwork.tryFrom_eq_ok_iff.mp known]
    rfl

theorem network_of_ofPayload {address : Address} {network : AddressNetwork}
    (read : ofPayload network payload = .ok address) : address.network = network := by
  obtain ⟨bytes, -, built⟩ := bind_eq_ok.mp read
  cases bytes with
  | nil => cases built
  | cons byte rest =>
    obtain ⟨version, -, built⟩ := bind_eq_ok.mp built
    have built := orPanic_eq_ok.mp built
    unfold new at built
    split_ifs at built
    cases built
    rfl

/-- A string is read without an abort, and the address it is read as is written
as this string, exactly when a right checksum and a known version come with a
payload of the right length and a zero for padding. The string of every address
is read as the address. -/
theorem addressStrings_canonical (value : List UInt8) :
    ((Address.tryFrom value ≠ .error .panicked ∧ ∀ address, Address.tryFrom value = .ok address →
        address.toText = some value) ↔ ZeroPadded value) ∧
      ∀ address : Address, ∃ text, address.toText = some text ∧
        Address.tryFrom text = .ok address := by
  refine ⟨?_, tryFrom_toText⟩
  unfold ZeroPadded
  cases split : splitOnce 58 value with
  | none =>
    have missing : tryFrom value = .error (.raised .missingPrefix) := by
      unfold tryFrom
      rw [split]
    rw [missing]
    exact iff_of_true ⟨by simp, by simp⟩ (by simp)
  | some parts =>
    obtain ⟨networkText, text⟩ := parts
    cases known : AddressNetwork.tryFrom networkText with
    | error error =>
      have unknown : tryFrom value = .error (.raised error) := by
        unfold tryFrom
        rw [split]
        simp only [known, raising, Except.mapError, error_bind]
      rw [unknown]
      refine iff_of_true ⟨by simp, by simp⟩ ?_
      rintro _ _ _ _ ⟨⟩ isKnown
      cases known.symm.trans isKnown
    | ok network =>
      rw [tryFrom_of_split split known]
      unfold decodePayload
      cases checked : checkSymbols network text with
      | error failure =>
        have raised : failure ≠ .panicked := by
          rintro rfl
          exact checkSymbols_ne_panicked network text checked
        rw [error_bind]
        refine iff_of_true ⟨by simpa using raised, by simp⟩ ?_
        rintro _ _ _ _ ⟨⟩ isKnown isChecked
        cases known.symm.trans isKnown
        cases checked.symm.trans isChecked
      | ok payload =>
        obtain ⟨fiveBit, -⟩ := characters_of_checkSymbols checked
        have written : ∀ address, ofPayload network payload = .ok address →
            (address.toText = some value ↔
              conv8to5 (address.version.byte :: address.payload.bytes) = some payload) := by
          intro address read
          cases network_of_ofPayload read
          exact toText_eq_some_iff split known checked
        rw [ok_bind, forall₂_congr written, ofPayload_canonical_iff network fiveBit]
        constructor
        · rintro padded _ _ _ _ ⟨⟩ isKnown isChecked
          cases known.symm.trans isKnown
          cases checked.symm.trans isChecked
          exact padded
        · exact fun padded => padded networkText text network payload rfl known checked

end

def zeroAddress : Address where
  network := .mainnet
  version := .pubKeyDilithium
  payload := FixedBytes.replicate 32 0

/-- The string of the zero address, `sophis:qgqqq...q2amqd05s`. -/
def zeroText : List UInt8 := AddressNetwork.mainnet.asStr ++ 58 :: ([113, 103] ++
    List.replicate 51 113 ++ [50, 97, 109, 113, 100, 48, 53, 115])

theorem zeroText_canonical : Address.tryFrom zeroText ≠ .error .panicked ∧
    (∀ address, Address.tryFrom zeroText = .ok address → address.toText = some zeroText) ∧
    ∀ address : Address, ∃ text, address.toText = some text ∧
      Address.tryFrom text = .ok address := by
  have split : splitOnce 58 zeroText = some (AddressNetwork.mainnet.asStr, zeroText.drop 7) := by
    decide +kernel
  have known : AddressNetwork.tryFrom AddressNetwork.mainnet.asStr = .ok .mainnet := by decide
  have checked : checkSymbols .mainnet (zeroText.drop 7) = .ok ([0, 8] ++ List.replicate 51 0) := by
    decide +kernel
  obtain ⟨canonical, back⟩ := addressStrings_canonical zeroText
  rw [← and_assoc]
  refine ⟨canonical.mpr ?_, back⟩
  intro networkText text network payload isSplit isKnown isChecked
  rw [split] at isSplit
  cases isSplit
  rw [known] at isKnown
  cases isKnown
  rw [checked] at isChecked
  cases isChecked
  exact fun _ _ _ => ⟨rfl, 0, by decide, rfl⟩

/-- The string `sophis:qgeay9k7zy`: the version of a key and no payload. -/
def shortText : List UInt8 := AddressNetwork.mainnet.asStr ++
    58 :: [113, 103, 101, 97, 121, 57, 107, 55, 122, 121]

/-- The string `sophis:qgqqq...qpe7zt5v83`, with a one for padding. -/
def oddText : List UInt8 := AddressNetwork.mainnet.asStr ++ 58 :: ([113, 103] ++
    List.replicate 50 113 ++ [112, 101, 55, 122, 116, 53, 118, 56, 51])

/-- A short payload with the right checksum aborts, and the zero address has a
second string. -/
theorem shortText_panics_oddText_accepted :
    Address.tryFrom shortText = .error .panicked ∧ Address.tryFrom oddText = .ok zeroAddress ∧
      zeroAddress.toText = some zeroText ∧
      oddText ≠ zeroText := by
  decide +kernel

end Sophis
