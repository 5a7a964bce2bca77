import Sophis.ScriptRuns
import Sophis.SignatureCache

namespace Sophis

open ByteCodec ExceptLoop List OpCode OracleProgram

/-!
# Standard payments

The scripts of `standard.rs` that pay to a Dilithium key through the hash of
its redeem script, and the signature scripts that spend them. The engine
accepts one form of signature script for such an output, byte for byte.
-/

/-- The networks with addresses of their own. -/
inductive AddressNetwork where
  | mainnet
  | testnet
  | simnet
  | devnet
  deriving Repr, DecidableEq

/-- What an address pays to. -/
inductive AddressVersion where
  | pubKeyDilithium
  | scriptHash
  deriving Repr, DecidableEq

/-- A network, a version and a payload. -/
structure Address where
  network : AddressNetwork
  version : AddressVersion
  payload : FixedBytes 32
  deriving Repr, DecidableEq

/-- The error of the script builder when a push would not be canonical. -/
inductive ScriptBuilderError where
  | dataRejected (size : Nat)
  | elementExceedsMaxSize (length : Nat)
  deriving Repr, DecidableEq

variable (hashers : Hashers)

def payToScriptHash (scriptHash : FixedBytes 32) : List UInt8 :=
  [0xaa, 0x20] ++ scriptHash.bytes ++ [0x87]

/-- Both kinds of address are paid to by script hash. -/
def payToAddressScript (address : Address) : ScriptPublicKey := match address.version with
  | .pubKeyDilithium => ⟨0, payToScriptHash address.payload⟩
  | .scriptHash => ⟨0, payToScriptHash address.payload⟩

/-- A push of the key and the opcode that checks a signature under it. -/
def dilithiumRedeemScript (verificationKey : FixedBytes 1312) : List UInt8 :=
  let length := verificationKey.bytes.length
  [0x4d, UInt8.ofNat length, UInt8.ofNat (length >>> 8)] ++ verificationKey.bytes ++ [0xc4]

def dilithiumAddress (verificationKey : FixedBytes 1312) (network : AddressNetwork) : Address where
  network
  version := .pubKeyDilithium
  payload := hashers.blake2b (dilithiumRedeemScript verificationKey)

def payToScriptHashScript (redeemScript : List UInt8) : ScriptPublicKey :=
  ⟨0, payToScriptHash (hashers.blake2b redeemScript)⟩

/-- The size of a push in the encoding `addRawData` chooses. -/
def canonicalDataSize (data : List UInt8) : Nat := if data.length = 0 ∨
      (data.length = 1 ∧ (byteAt data 0 ≤ 16 ∨ byteAt data 0 = 0x81)) then
    1
  else
    data.length + if data.length ≤ 75 then 1
      else if data.length ≤ 255 then 2
      else if data.length ≤ 65535 then 3
      else 5

/-- The shortest push of some data. -/
def addRawData (data : List UInt8) : List UInt8 :=
  if data.length = 0 then
    [0x00]
  else if data.length = 1 ∧ 1 ≤ byteAt data 0 ∧ byteAt data 0 ≤ 16 then
    [0x50 + byteAt data 0]
  else if data.length = 1 ∧ byteAt data 0 = 0x81 then
    [0x4f]
  else if data.length ≤ 75 then
    UInt8.ofNat data.length :: data
  else if data.length ≤ 255 then
    0x4c :: UInt8.ofNat data.length :: data
  else if data.length ≤ 65535 then
    0x4d :: (leBytes 2 data.length ++ data)
  else
    0x4e :: (leBytes 4 data.length ++ data)

def addData (script data : List UInt8) : Except ScriptBuilderError (List UInt8) := do
  let dataSize := canonicalDataSize data
  reject (script.length + dataSize > maxScriptsSize) (.dataRejected dataSize)
  reject (data.length > maxScriptElementSize) (.elementExceedsMaxSize data.length)
  return script ++ addRawData data

def payToScriptHashSignatureScript (redeemScript signature : List UInt8) :
    Except ScriptBuilderError (List UInt8) := do
  let redeemScriptAsData ← addData [] redeemScript
  return signature ++ redeemScriptAsData

variable {hashers : Hashers} {source : ScriptSource} {verify : SigCheck → Bool}

theorem parseScript_payToScriptHash (scriptHash : FixedBytes 32) :
    parseScript (payToScriptHash scriptHash) =
      [.ok ⟨0xaa, []⟩, .ok ⟨0x20, scriptHash.bytes⟩, .ok ⟨0x87, []⟩] := by
  rw [payToScriptHash, append_assoc, cons_append, parseScript_single (by decide), cons_append,
    nil_append, parseScript_data (by decide) scriptHash.length_bytes,
    parseScript_single (by decide), parseScript_nil]

theorem dilithiumRedeemScript_eq (key : FixedBytes 1312) :
    dilithiumRedeemScript key = pushData2 key.bytes ++ [0xc4] := by
  rw [dilithiumRedeemScript, pushData2, key.length_bytes]
  rfl

theorem parseScript_dilithiumRedeemScript (key : FixedBytes 1312) :
    parseScript (dilithiumRedeemScript key) = [.ok ⟨0x4d, key.bytes⟩, .ok ⟨0xc4, []⟩] := by
  rw [dilithiumRedeemScript_eq, parseScript_pushData2 (by rw [key.length_bytes]; decide),
    parseScript_single (by decide), parseScript_nil]

variable {data : List UInt8}

theorem checkMinimalDataPush_pushData2 (long : 255 < data.length) (short : data.length < 65535) :
    checkMinimalDataPush ⟨0x4d, data⟩ = .ok () := by
  have required : ∃ text, minimalPush ⟨0x4d, data⟩ = some (0x4d, text) := by
    rw [minimalPush, if_neg (by dsimp only; omega), if_neg (by dsimp only; omega),
      if_neg (by dsimp only; omega), if_neg (by dsimp only; omega), if_neg (by dsimp only; omega),
      if_pos short]
    exact ⟨_, rfl⟩
  obtain ⟨text, required⟩ := required
  rw [checkMinimalDataPush, required]
  rfl

theorem checkMinimalDataPush_data32 (size : data.length = 32) :
    checkMinimalDataPush ⟨0x20, data⟩ = .ok () := by
  have required : ∃ text, minimalPush ⟨0x20, data⟩ = some (0x20, text) := by
    simp [minimalPush, size]
  obtain ⟨text, required⟩ := required
  rw [checkMinimalDataPush, required]
  rfl

theorem executeScript_payToScriptHash_eq_ok_iff {scriptHash : FixedBytes 32} {top : List UInt8}
    {rest : Stack} {counter : RuntimeSigOpCounter} {locked : EngineState} :
    (executeScript hashers source (payToScriptHash scriptHash) false
          ⟨top :: rest, [], [], 0, counter⟩).run.evaluate verify =
        .ok locked ↔
      rest.length + 2 ≤ maxStackSize ∧ locked =
        ⟨serializeBool ((hashers.blake2b top).bytes = scriptHash.bytes) ::
          rest, [], [], 0, counter⟩ := by
  have hashed : (executeOpcode hashers source ⟨0xaa, []⟩
        ⟨top :: rest, [], [], 0, counter⟩).run.evaluate verify =
      .ok ⟨(hashers.blake2b top).bytes :: rest, [], [], 1, counter⟩ :=
    rfl
  have pushed : (executeOpcode hashers source ⟨0x20, scriptHash.bytes⟩
        ⟨(hashers.blake2b top).bytes :: rest, [], [], 1, counter⟩).run.evaluate verify =
      .ok ⟨scriptHash.bytes :: (hashers.blake2b top).bytes :: rest, [], [], 1, counter⟩ :=
    executeOpcode_data (by decide) (by rw [scriptHash.length_bytes]; decide)
      (checkMinimalDataPush_data32 scriptHash.length_bytes) rfl
  have compared : (executeOpcode hashers source ⟨0x87, []⟩
        ⟨scriptHash.bytes :: (hashers.blake2b top).bytes :: rest, [], [], 1,
          counter⟩).run.evaluate verify =
      .ok ⟨serializeBool ((hashers.blake2b top).bytes = scriptHash.bytes) :: rest,
        [], [], 2, counter⟩ :=
    rfl
  have allowed : ∀ data, checkOpcodeAllowed false ⟨0xaa, []⟩ = .ok () ∧
      checkOpcodeAllowed false ⟨0x20, data⟩ = .ok () ∧
      checkOpcodeAllowed false ⟨0x87, []⟩ = .ok () :=
    fun _ => ⟨rfl, rfl, rfl⟩
  simp only [executeScript, parseScript_payToScriptHash, evaluate_bind_eq_ok,
    executeOpcodes_cons_eq_ok_iff, executeOpcodes_nil_eq_ok_iff]
  constructor
  · rintro ⟨_, ⟨_, _, ⟨⟩, -, runs, -, _, _, ⟨⟩, -, runs', within, _, _, ⟨⟩,
      -, runs'', -, rfl⟩, _, -, result⟩
    cases hashed.symm.trans runs
    cases pushed.symm.trans runs'
    cases compared.symm.trans runs''
    simp only [length_cons, length_nil] at within
    refine ⟨by omega, ?_⟩
    simpa [eq_comm] using result
  · rintro ⟨within, rfl⟩
    refine ⟨_, ⟨_, _, rfl, (allowed []).1, hashed, ?_, _, _, rfl, (allowed _).2.1, pushed, ?_, _, _,
      rfl, (allowed []).2.2, compared, ?_, rfl⟩, (), rfl, rfl⟩
    · simp only [length_cons, length_nil]
      omega
    · simp only [length_cons, length_nil]
      omega
    · simp only [length_cons, length_nil]
      omega

@[simp] theorem deserializeBool_serializeBool (value : Bool) :
    deserializeBool (serializeBool value) = value := by
  cases value <;> rfl

theorem checkErrorCondition_true_eq_ok_iff {state next : EngineState} :
    checkErrorCondition true state = .ok next ↔
      ∃ item, state.dstack = [item] ∧ deserializeBool item = true ∧
        { state with dstack := [] } = next := by
  obtain ⟨dstack, astack, condStack, numOps, sigOps⟩ := state
  match dstack with
  | [] => simp [checkErrorCondition, bind_eq_ok]
  | [item] =>
    have popped : checkErrorCondition true ⟨[item], astack, condStack, numOps, sigOps⟩ = (do
        reject (!deserializeBool item) .evalFalse
        return ⟨[], astack, condStack, numOps, sigOps⟩) :=
      rfl
    rw [popped, bind_eq_ok]
    cases holds : deserializeBool item with
    | false => simp [holds, reject]
    | true => simp [holds, reject, pure, Except.pure]
  | item :: other :: rest => simp [checkErrorCondition, bind_eq_ok]

section

variable {populated : PopulatedTransaction} {index : Fin populated.tx.inputs.length}
  {entry : UtxoEntry} {verify : SigCheck → Bool} {counter : RuntimeSigOpCounter}

/-- A check of a signature of the right size under a key of the right size
returns the verdict and uses up one operation. -/
theorem checkDilithiumSignature_eq_ok_iff {hashType : SigHashType} {key sig : List UInt8}
    {result : Bool × RuntimeSigOpCounter} :
    (checkDilithiumSignature hashers (.txInput populated index entry) counter
        hashType key sig).run.evaluate verify = .ok result ↔
      SignatureChecked counter key sig ∧ result =
        (verify (.ofInput hashers populated index hashType key sig),
          { counter with remaining := counter.remaining - 1 }) := by
  by_cases checked : SignatureChecked counter key sig
  · rw [checkDilithiumSignature_of_checked hashers populated index entry hashType checked]
    simp [checked, eq_comm]
  · obtain ⟨error, fails⟩ := checkDilithiumSignature_of_not_checked hashers
      populated index entry hashType checked
    simp [fails, checked]

variable {item : List UInt8}

theorem opCheckSigDilithium_eq_ok_iff {key : List UInt8} {below : Stack} {astack : Stack}
    {condStack : List OpCond} {numOps : Nat} {next : EngineState} :
    (opCheckSigDilithium hashers (.txInput populated index entry)
        ⟨key :: item :: below, astack, condStack, numOps, counter⟩).run.evaluate verify = .ok next ↔
      (item = [] ∧ next = ⟨serializeBool false :: below, astack, condStack, numOps, counter⟩) ∨
      ∃ sig typ hashType, item = sig ++ [typ] ∧ SigHashType.fromU8 typ = some hashType ∧
        SignatureChecked counter key sig ∧
        next = ⟨serializeBool (verify (.ofInput hashers populated index hashType key sig)) ::
          below, astack, condStack, numOps,
          { counter with remaining := counter.remaining - 1 }⟩ := by
  have popped : Stack.popRaw 2 (key :: item :: below) = .ok ([item, key], below) := by
    simp [Stack.popRaw]
  rw [opCheckSigDilithium, evaluate_bind_eq_ok]
  simp only [evaluate_ofResult, popped, Except.ok.injEq, exists_eq_left']
  rcases eq_nil_or_concat' item with rfl | ⟨sig, typ, rfl⟩
  · constructor
    · intro returns
      exact .inl ⟨rfl, (Except.ok.inj returns).symm⟩
    · rintro (⟨-, rfl⟩ | ⟨sig, typ, _, eq, -⟩)
      · rfl
      · simp at eq
  · have last : ([sig ++ [typ], key].getD 0 []).getLast? = some typ := getLast?_concat
    have front : ([sig ++ [typ], key].getD 0 []).dropLast = sig := dropLast_concat
    simp only [last, front]
    match known : SigHashType.fromU8 typ with
    | none =>
      constructor
      · intro returns
        cases returns
      · rintro (⟨eq, -⟩ | ⟨_, other, _, eq, isKnown, -⟩)
        · simp at eq
        · obtain ⟨-, ⟨⟩⟩ := append_inj' eq rfl
          cases known.symm.trans isKnown
    | some hashType =>
      simp only [evaluate_bind_eq_ok, checkDilithiumSignature_eq_ok_iff]
      constructor
      · rintro ⟨_, ⟨checked, rfl⟩, returns⟩
        exact .inr ⟨sig, typ, hashType, rfl, known, checked, (Except.ok.inj returns).symm⟩
      · rintro (⟨eq, -⟩ | ⟨_, other, _, eq, isKnown, checked, rfl⟩)
        · simp at eq
        · obtain ⟨rfl, ⟨⟩⟩ := append_inj' eq rfl
          cases known.symm.trans isKnown
          exact ⟨_, ⟨checked, rfl⟩, rfl⟩

/-- The item is a signature of the input under the key, followed by its hash
type. -/
def Redeems (hashers : Hashers) (populated : PopulatedTransaction)
    (index : Fin populated.tx.inputs.length) (verify : SigCheck → Bool)
    (key : FixedBytes 1312) (item : List UInt8) : Prop :=
  ∃ sig typ hashType, item = sig ++ [typ] ∧ SigHashType.fromU8 typ = some hashType ∧
    sig.length = dilithium2SigSize ∧
    verify (.ofInput hashers populated index hashType key.bytes sig) = true

variable {key : FixedBytes 1312}

theorem executeScript_redeem_accepts_iff {rest : Stack} :
    (∃ final next, (executeScript hashers (.txInput populated index entry)
          (dilithiumRedeemScript key) false
          ⟨rest, [], [], 0, counter⟩).run.evaluate verify = .ok final ∧
        checkErrorCondition true final = .ok next) ↔
      counter.remaining ≠ 0 ∧ ∃ item, rest = [item] ∧
        Redeems hashers populated index verify key item := by
  have pushed : ∀ rest : Stack, (executeOpcode hashers (.txInput populated index entry)
        ⟨0x4d, key.bytes⟩ ⟨rest, [], [], 0, counter⟩).run.evaluate verify =
      .ok ⟨key.bytes :: rest, [], [], 0, counter⟩ :=
    fun rest => executeOpcode_data (by decide) (by rw [key.length_bytes]; decide)
      (checkMinimalDataPush_pushData2 (by rw [key.length_bytes]; decide)
        (by rw [key.length_bytes]; decide)) rfl
  have checks : ∀ stack : Stack, executeOpcode hashers (.txInput populated index entry) ⟨0xc4, []⟩
        ⟨stack, [], [], 0, counter⟩ =
      opCheckSigDilithium hashers (.txInput populated index entry) ⟨stack, [], [], 1, counter⟩ :=
    fun _ => rfl
  simp only [executeScript, parseScript_dilithiumRedeemScript, evaluate_bind_eq_ok,
    executeOpcodes_cons_eq_ok_iff, executeOpcodes_nil_eq_ok_iff, checkErrorCondition_true_eq_ok_iff]
  constructor
  · rintro ⟨final, next, ⟨last, ⟨_, _, ⟨⟩, -, push, -, _, _, ⟨⟩, -, check, -,
      rfl⟩, _, -, returns⟩, item, alone, holds, -⟩
    cases (pushed rest).symm.trans push
    cases returns
    rw [checks] at check
    cases rest with
    | nil => cases check
    | cons top below =>
      rcases opCheckSigDilithium_eq_ok_iff.mp check with
        ⟨-, rfl⟩ | ⟨sig, typ, hashType, rfl, known, checked, rfl⟩
      · cases alone
        cases holds
      · obtain ⟨rfl, rfl⟩ := List.cons.inj alone
        rw [deserializeBool_serializeBool] at holds
        exact ⟨checked.remaining, _, rfl, ⟨sig, typ, hashType, rfl, known, checked.sigSize, holds⟩⟩
  · rintro ⟨remaining, _, rfl, sig, typ, hashType, rfl, known, sigSize, holds⟩
    have checked : SignatureChecked counter key.bytes sig := ⟨remaining, sigSize, key.length_bytes⟩
    have check : (executeOpcode hashers (.txInput populated index entry) ⟨0xc4, []⟩
          ⟨[key.bytes, sig ++ [typ]], [], [], 0, counter⟩).run.evaluate
          verify =
        .ok ⟨[serializeBool true], [], [], 1,
          { counter with remaining := counter.remaining - 1 }⟩ := by
      rw [checks]
      refine opCheckSigDilithium_eq_ok_iff.mpr (.inr ⟨sig, typ, hashType, rfl, known, checked, ?_⟩)
      rw [holds]
    exact ⟨_, _, ⟨_, ⟨_, _, rfl, rfl, pushed _, by simp [maxStackSize], _, _, rfl, rfl, check,
      by simp [maxStackSize], rfl⟩, (), rfl, rfl⟩, _, rfl, rfl, rfl⟩

theorem length_of_redeems (redeems : Redeems hashers populated index verify key item) :
    item.length = 2421 := by
  obtain ⟨sig, typ, hashType, rfl, -, sigSize, -⟩ := redeems
  rw [length_append, sigSize]
  rfl

theorem length_dilithiumRedeemScript (key : FixedBytes 1312) :
    (dilithiumRedeemScript key).length = 1316 := by
  simp [dilithiumRedeemScript, key.length_bytes]

theorem addRawData_eq_pushData2 {data : List UInt8} (long : 255 < data.length)
    (short : data.length ≤ 65535) : addRawData data = pushData2 data := by
  rw [addRawData, if_neg (by omega), if_neg (by omega), if_neg (by omega),
    if_neg (by omega), if_neg (by omega), if_pos short]
  rfl

theorem payToScriptHashSignatureScript_eq (size : item.length = 2421) :
    payToScriptHashSignatureScript (dilithiumRedeemScript key) (addRawData item) =
      .ok (pushData2 item ++ pushData2 (dilithiumRedeemScript key)) := by
  have redeemSize := length_dilithiumRedeemScript key
  have dataSize : canonicalDataSize (dilithiumRedeemScript key) = 1319 := by
    simp [canonicalDataSize, redeemSize]
  have added : addData [] (dilithiumRedeemScript key) =
      .ok (pushData2 (dilithiumRedeemScript key)) := by
    rw [addData, dataSize, redeemSize, addRawData_eq_pushData2 (by omega) (by omega)]
    rfl
  rw [payToScriptHashSignatureScript, added, addRawData_eq_pushData2 (by omega) (by omega)]
  rfl

theorem executeUnlessEmpty_two_pushes {source : ScriptSource} {limit : UInt8} {script : List UInt8}
    (itemLong : 255 < item.length) (itemShort : item.length ≤ maxScriptElementSize)
    (scriptLong : 255 < script.length) (scriptShort : script.length ≤ maxScriptElementSize) :
    (executeUnlessEmpty hashers source (pushData2 item ++ pushData2 script)
        true (.new limit)).run.evaluate verify =
      .ok ⟨[script, item], [], [], 0, .new limit⟩ := by
  have pushed : ∀ {data : List UInt8} {stack : Stack},
      255 < data.length → data.length ≤ maxScriptElementSize →
      (executeOpcode hashers source ⟨0x4d, data⟩
          ⟨stack, [], [], 0, .new limit⟩).run.evaluate verify =
        .ok ⟨data :: stack, [], [], 0, .new limit⟩ := by
    intro data stack long short
    exact executeOpcode_data (by decide) short (checkMinimalDataPush_pushData2 long
      (Nat.lt_of_le_of_lt short (by decide))) rfl
  have parses : parseScript (pushData2 item ++ pushData2 script) =
      [.ok ⟨0x4d, item⟩, .ok ⟨0x4d, script⟩] := by
    rw [parseScript_pushData2 (Nat.lt_of_le_of_lt itemShort (by decide)),
      ← append_nil (pushData2 script),
      parseScript_pushData2 (Nat.lt_of_le_of_lt scriptShort (by decide)), parseScript_nil]
  rw [executeUnlessEmpty, if_neg (by simp [pushData2])]
  simp only [executeScript, parses, evaluate_bind_eq_ok,
    executeOpcodes_cons_eq_ok_iff, executeOpcodes_nil_eq_ok_iff]
  exact ⟨_, ⟨_, _, rfl, rfl, pushed itemLong itemShort, by simp [maxStackSize], _, _, rfl, rfl,
    pushed scriptLong scriptShort, by simp [maxStackSize], rfl⟩, (), rfl, rfl⟩

end

theorem evaluate_discard_eq_ok_iff {computation : ScriptResult EngineState} :
    (discard (ofResult computation) : EngineProgram Unit).run.evaluate verify = .ok () ↔
      ∃ next, computation = .ok next := by
  cases computation with
  | error error =>
    constructor
    · intro returns
      cases returns
    · rintro ⟨_, ⟨⟩⟩
  | ok next => exact ⟨fun _ => ⟨next, rfl⟩, fun _ => rfl⟩

theorem checkErrorCondition_false_eq_ok_iff {holds : Bool} {rest astack : Stack}
    {condStack : List OpCond} {numOps : Nat} {counter : RuntimeSigOpCounter} {next : EngineState} :
    checkErrorCondition false ⟨serializeBool holds :: rest, astack, condStack, numOps, counter⟩ =
        .ok next ↔
      holds = true ∧ ⟨rest, astack, condStack, numOps, counter⟩ = next := by
  have popped : checkErrorCondition false
      ⟨serializeBool holds :: rest, astack, condStack, numOps, counter⟩ = (do
        reject (!deserializeBool (serializeBool holds)) .evalFalse
        return ⟨rest, astack, condStack, numOps, counter⟩) :=
    rfl
  rw [popped, bind_eq_ok, deserializeBool_serializeBool]
  cases holds with
  | false => simp [reject]
  | true => simp [reject, pure, Except.pure]

theorem executeRedeemScript_eq_ok_iff {saved : Stack} {state final : EngineState} :
    (executeRedeemScript hashers source saved state).run.evaluate verify = .ok final ↔
      ∃ popped script rest, checkErrorCondition false state = .ok popped ∧ saved = script :: rest ∧
        (executeScript hashers source script false
          { popped with dstack := rest }).run.evaluate verify = .ok final := by
  simp only [executeRedeemScript, evaluate_bind_eq_ok, evaluate_ofResult]
  cases saved with
  | nil =>
    constructor
    · rintro ⟨_, -, ⟨⟩⟩
    · rintro ⟨_, _, _, -, ⟨⟩, -⟩
  | cons script rest =>
    constructor
    · rintro ⟨popped, holds, executes⟩
      exact ⟨popped, script, rest, holds, rfl, executes⟩
    · rintro ⟨popped, _, _, holds, ⟨⟩, executes⟩
      exact ⟨popped, holds, executes⟩

variable {signatureScript : List UInt8} {scriptHash : FixedBytes 32}

theorem checkScripts_payToScriptHash :
    checkScripts [signatureScript, payToScriptHash scriptHash] = .ok () ↔
      signatureScript.length ≤ maxScriptsSize := by
  have lockSize : (payToScriptHash scriptHash).length = 35 := by
    simp [payToScriptHash, scriptHash.length_bytes]
  have lockShort : ¬ (payToScriptHash scriptHash).length > maxScriptsSize := by
    rw [lockSize]
    decide
  have lockNonempty : (payToScriptHash scriptHash).isEmpty = false := by simp [payToScriptHash]
  by_cases short : signatureScript.length > maxScriptsSize
  · simp [checkScripts, bind_eq_ok, lockNonempty, short]
  · simp [checkScripts, bind_eq_ok, lockNonempty, short, lockShort, Nat.not_lt.mp short]

theorem executeInput_payToScriptHash_eq_ok_iff {limit : UInt8} :
    (executeInput hashers source signatureScript (payToScriptHash scriptHash)
        limit).run.evaluate verify = .ok () ↔
      signatureScript.length ≤ maxScriptsSize ∧
      ∃ script rest, (executeUnlessEmpty hashers source signatureScript true
            (.new limit)).run.evaluate verify =
          .ok ⟨script :: rest, [], [], 0, .new limit⟩ ∧
        hashers.blake2b script = scriptHash ∧
        rest.length + 2 ≤ maxStackSize ∧
        ∃ final next, (executeScript hashers source script false
              ⟨rest, [], [], 0, .new limit⟩).run.evaluate verify =
            .ok final ∧
          checkErrorCondition true final = .ok next := by
  have locking : ∀ state, executeUnlessEmpty hashers source (payToScriptHash scriptHash) false
        state =
      executeScript hashers source (payToScriptHash scriptHash) false state :=
    fun _ => if_neg (by simp [payToScriptHash])
  have isLocked : isPayToScriptHash (payToScriptHash scriptHash) = true := by
    simp [isPayToScriptHash, payToScriptHash, byteAt, scriptHash.length_bytes]
  simp only [executeInput, evaluate_bind_eq_ok, evaluate_ofResult, isLocked, if_true, locking,
    evaluate_discard_eq_ok_iff, executeRedeemScript_eq_ok_iff]
  constructor
  · rintro ⟨_, within, signed, signs, locked, locks, final,
      ⟨popped, script, rest, holds, saved, executes⟩, next, accepted⟩
    obtain ⟨opcodes, items, -, -, rfl⟩ := pushes_of_executeUnlessEmpty signs
    dsimp only at saved
    rw [saved] at signs locks
    obtain ⟨room, rfl⟩ := executeScript_payToScriptHash_eq_ok_iff.mp locks
    obtain ⟨sameHash, rfl⟩ := checkErrorCondition_false_eq_ok_iff.mp holds
    exact ⟨checkScripts_payToScriptHash.mp within, script, rest, signs,
      FixedBytes.ext (by simpa using sameHash), room, final, next, executes, accepted⟩
  · rintro ⟨within, script, rest, signs, rfl, room, final, next, executes, accepted⟩
    exact ⟨(), checkScripts_payToScriptHash.mpr within, _, signs, _,
      executeScript_payToScriptHash_eq_ok_iff.mpr ⟨room, rfl⟩, final,
      ⟨_, script, rest, checkErrorCondition_false_eq_ok_iff.mpr ⟨by simp, rfl⟩, rfl,
        executes⟩, next, accepted⟩

/-- The engine spends an output that pays to a key exactly when the input
announces a signature check and its signature script is the one the builder
makes from a signature under the key. -/
theorem execute_standardPayment_iff (hashers : Hashers) (verify : SigCheck → Bool)
    (key : FixedBytes 1312)
    (uncollided : ∀ script, hashers.blake2b script = hashers.blake2b (dilithiumRedeemScript key) →
      script = dilithiumRedeemScript key) (populated : PopulatedTransaction)
    (index : Fin populated.tx.inputs.length) (entry : UtxoEntry)
    (pays : entry.scriptPublicKey = payToScriptHashScript hashers (dilithiumRedeemScript key) ∨
      ∃ network, entry.scriptPublicKey =
        payToAddressScript (dilithiumAddress hashers key network)) :
    (execute hashers (.txInput populated index entry)).run.evaluate verify = .ok () ↔
      (populated.tx.inputs.get index).sigOpCount ≠ 0 ∧
        ∃ item, Redeems hashers populated index verify key item ∧
          payToScriptHashSignatureScript (dilithiumRedeemScript key) (addRawData item) =
            .ok (populated.tx.inputs.get index).signatureScript := by
  have paysHash : entry.scriptPublicKey =
      ⟨0, payToScriptHash (hashers.blake2b (dilithiumRedeemScript key))⟩ := by
    rcases pays with eq | ⟨network, eq⟩
    · exact eq
    · exact eq
  have redeemSize := length_dilithiumRedeemScript key
  rw [execute, paysHash, if_neg (by exact UInt16.lt_irrefl 0),
    executeInput_payToScriptHash_eq_ok_iff]
  constructor
  · rintro ⟨-, script, rest, signs, sameHash, -, redeemed⟩
    cases uncollided script sameHash
    obtain ⟨remaining, item, rfl, redeems⟩ := executeScript_redeem_accepts_iff.mp redeemed
    refine ⟨remaining, item, redeems, ?_⟩
    have size := length_of_redeems redeems
    rw [payToScriptHashSignatureScript_eq size]
    obtain ⟨opcodes, items, parses, pushes, eq⟩ := pushes_of_executeUnlessEmpty signs
    have twoItems : items = [item, dilithiumRedeemScript key] := by
      have reversed := congrArg (fun state => state.dstack.reverse) eq
      simpa using reversed.symm
    subst twoItems
    obtain ⟨first, _, firstPushes, pushesRest, rfl⟩ := forall₂_cons_right_iff.mp pushes
    obtain ⟨second, _, secondPushes, pushesNil, rfl⟩ := forall₂_cons_right_iff.mp pushesRest
    cases forall₂_nil_right_iff.mp pushesNil
    obtain ⟨afterFirst, scriptEq, parsesRest⟩ := eq_pushData2_of_pushes
      parses firstPushes (by omega) (by omega)
    obtain ⟨afterSecond, restEq, parsesNil⟩ := eq_pushData2_of_pushes
      parsesRest secondPushes (by omega) (by omega)
    rw [scriptEq, restEq, eq_nil_of_parseScript_eq_nil parsesNil, append_nil]
  · rintro ⟨remaining, item, redeems, built⟩
    have size := length_of_redeems redeems
    rw [payToScriptHashSignatureScript_eq size] at built
    rw [← Except.ok.inj built]
    refine ⟨?_, dilithiumRedeemScript key, [item],
      executeUnlessEmpty_two_pushes (by omega) ?_ (by omega) ?_, rfl, by simp [maxStackSize],
      executeScript_redeem_accepts_iff.mpr ⟨remaining, item, rfl, redeems⟩⟩
    · simp [pushData2, size, redeemSize, maxScriptsSize]
    · simp [size, maxScriptElementSize]
    · simp [redeemSize, maxScriptElementSize]

def paidKey : FixedBytes 1312 := .replicate 1312 7

def paidSignature : List UInt8 := List.replicate 2420 9

/-- Hash functions under which only the redeem script of the key has its
hash. -/
def paymentHashers : Hashers := { forgeryHashers with
    blake2b := fun script =>
      if script = dilithiumRedeemScript paidKey then
        FixedBytes.replicate 32 1
      else
        FixedBytes.replicate 32 0 }

theorem paymentHashers_uncollided (script : List UInt8)
    (eq : paymentHashers.blake2b script = paymentHashers.blake2b (dilithiumRedeemScript paidKey)) :
    script = dilithiumRedeemScript paidKey := by
  by_contra different
  simp only [paymentHashers, if_neg different, if_true] at eq
  exact absurd eq (by decide)

/-- A spend of one output that pays to the address of the key, with the number
of signature checks it announces. -/
def standardSpend (sigOpCount : UInt8) : PopulatedTransaction where
  tx := {
    version := 0
    inputs := [{
      previousOutpoint := {
        transactionId := FixedBytes.replicate 32 17
        index := 0
      }
      signatureScript := pushData2 (paidSignature ++ [1]) ++
        pushData2 (dilithiumRedeemScript paidKey)
      sequence := 0
      sigOpCount
    }]
    outputs := [{
      value := 900
      scriptPublicKey := { version := 0, script := [] }
    }]
    lockTime := 0
    subnetworkId := subnetworkIdNative
    gas := 0
    payload := []
    mass := 0
  }
  entries := [{
    amount := 1000
    scriptPublicKey := payToAddressScript (dilithiumAddress paymentHashers paidKey .mainnet)
    blockDaaScore := 0
    isCoinbase := false
  }]
  length_entries := rfl

def standardSource (sigOpCount : UInt8) : ScriptSource :=
  .txInput (standardSpend sigOpCount) ⟨0, Nat.zero_lt_one⟩
    ((standardSpend sigOpCount).populatedInput ⟨0, Nat.zero_lt_one⟩).2

theorem standardSpend_redeems (sigOpCount : UInt8) :
    Redeems paymentHashers (standardSpend sigOpCount) ⟨0, Nat.zero_lt_one⟩
      (fun _ => true) paidKey (paidSignature ++ [1]) :=
  ⟨paidSignature, 1, .all, rfl, rfl, length_replicate, rfl⟩

theorem standardSpend_accepted :
    (execute paymentHashers (standardSource 1)).run.evaluate (fun _ => true) = .ok () :=
  (execute_standardPayment_iff paymentHashers (fun _ => true) paidKey paymentHashers_uncollided
    (standardSpend 1) ⟨0, Nat.zero_lt_one⟩ _ (.inr ⟨.mainnet, rfl⟩)).mpr ⟨by decide, paidSignature
    ++ [1], standardSpend_redeems 1,
    payToScriptHashSignatureScript_eq (length_of_redeems (standardSpend_redeems 1))⟩

/-- A signature script of pushes that ends with the redeem script, above a
signature that verifies, is rejected when the input announces no signature
check. -/
theorem standardSpend_unannounced_rejected :
    (Redeems paymentHashers (standardSpend 0) ⟨0, Nat.zero_lt_one⟩
        (fun _ => true) paidKey (paidSignature ++ [1]) ∧
      parseScript ((standardSpend 0).tx.inputs.get ⟨0, Nat.zero_lt_one⟩).signatureScript =
        [.ok ⟨0x4d, paidSignature ++ [1]⟩, .ok ⟨0x4d, dilithiumRedeemScript paidKey⟩]) ∧
      (execute paymentHashers (standardSource 0)).run.evaluate
        (fun _ => true) = .error (.exceededSigOpLimit 0) := by
  refine ⟨⟨standardSpend_redeems 0, ?_⟩, ?_⟩
  · decide +kernel
  · decide +kernel

end Sophis
