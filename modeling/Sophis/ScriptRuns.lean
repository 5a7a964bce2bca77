import Mathlib.Tactic.IntervalCases
import Sophis.ScriptEngine

namespace Sophis

open ByteCodec ExceptLoop List OracleProgram

/-!
# Runs of scripts

What the parser makes of the bytes in front of it, and what a script of pushes
leaves on the stack. The signature script of every input is such a script.
-/

variable {value : UInt8} {input rest : List UInt8} {opcode : OpCode}

theorem deserializeFixed_eq_ok_iff {length : Nat} :
    deserializeFixed value length input = (.ok opcode, rest) ↔
      opcode.value = value ∧ opcode.data.length = length ∧ input = opcode.data ++ rest := by
  simp only [deserializeFixed, Prod.mk.injEq]
  constructor
  · rintro ⟨read, rfl⟩
    split at read
    · cases read
    · rename_i size
      cases read
      exact ⟨rfl, not_not.mp size, (take_append_drop _ _).symm⟩
  · rintro ⟨rfl, rfl, rfl⟩
    simp

/-- An opcode consumes no more than there is. -/
theorem length_deserializeOpcode_le {parsed : ScriptResult OpCode}
    (read : deserializeOpcode value input = (parsed, rest)) : rest.length ≤ input.length := by
  have afterFixed : ∀ length (input : List UInt8),
      (deserializeFixed value length input).2.length ≤ input.length := by
    intro length input
    simp [deserializeFixed]
  have afterVariable : ∀ width,
      (deserializeVariable value width input).2.length ≤ input.length := by
    intro width
    simp only [deserializeVariable]
    split
    · simp
    · exact (afterFixed _ _).trans (by simp)
  have second : rest = (deserializeOpcode value input).2 := by rw [read]
  rw [second, deserializeOpcode]
  split
  · exact afterVariable 1
  split
  · exact afterVariable 2
  split
  · exact afterVariable 4
  split
  · exact afterFixed _ _
  · exact afterFixed _ _

/-- The parser reports the byte it has read. -/
theorem value_of_deserializeOpcode (read : deserializeOpcode value input = (.ok opcode, rest)) :
    opcode.value = value := by
  have ofVariable : ∀ {width},
      deserializeVariable value width input = (.ok opcode, rest) → opcode.value = value := by
    intro width read
    rw [deserializeVariable] at read
    split at read
    · cases read
    · exact (deserializeFixed_eq_ok_iff.mp read).1
  rw [deserializeOpcode] at read
  split at read
  · exact ofVariable read
  split at read
  · exact ofVariable read
  split at read
  · exact ofVariable read
  split at read
  · exact (deserializeFixed_eq_ok_iff.mp read).1
  · exact (deserializeFixed_eq_ok_iff.mp read).1

variable {script : List UInt8}

theorem parseOpcodes_eq_of_length_le {fuel otherFuel : Nat} (enough : script.length ≤ fuel)
    (otherEnough : script.length ≤ otherFuel) :
    parseOpcodes fuel script = parseOpcodes otherFuel script := by
  induction fuel generalizing otherFuel script with
  | zero =>
    cases script with
    | nil => cases otherFuel <;> rfl
    | cons value input => simp at enough
  | succ fuel ih =>
    cases script with
    | nil => cases otherFuel <;> rfl
    | cons value input =>
      obtain ⟨otherFuel, rfl⟩ := Nat.exists_eq_add_one_of_ne_zero
          (n := otherFuel) (by rintro rfl; simp at otherEnough)
      simp only [length_cons, Nat.add_le_add_iff_right] at enough otherEnough
      simp only [parseOpcodes]
      match read : deserializeOpcode value input with
      | (.error error, rest) => rfl
      | (.ok opcode, rest) =>
        have shorter := length_deserializeOpcode_le read
        exact congrArg _ (ih (shorter.trans enough) (shorter.trans otherEnough))

@[simp] theorem parseScript_nil : parseScript [] = [] :=
  rfl

theorem parseScript_cons_of_ok (read : deserializeOpcode value input = (.ok opcode, rest)) :
    parseScript (value :: input) = .ok opcode :: parseScript rest := by
  simp only [parseScript, length_cons, parseOpcodes, read]
  exact congrArg _ (parseOpcodes_eq_of_length_le (length_deserializeOpcode_le read) le_rfl)

variable {parsed : List (ScriptResult OpCode)}

theorem exists_of_parseScript_eq_cons (parses : parseScript script = .ok opcode :: parsed) :
    ∃ value input rest, script = value :: input ∧
      deserializeOpcode value input = (.ok opcode, rest) ∧
      parseScript rest = parsed := by
  cases script with
  | nil => cases parses
  | cons value input =>
    match read : deserializeOpcode value input with
    | (.error error, rest) => simp [parseScript, parseOpcodes, read] at parses
    | (.ok other, rest) =>
      rw [parseScript_cons_of_ok read] at parses
      obtain ⟨eq, restParses⟩ := List.cons.inj parses
      cases eq
      exact ⟨value, input, rest, rfl, read, restParses⟩

theorem eq_nil_of_parseScript_eq_nil (parses : parseScript script = []) : script = [] := by
  cases script with
  | nil => rfl
  | cons value input =>
    match read : deserializeOpcode value input with
    | (.error error, rest) => simp [parseScript, parseOpcodes, read] at parses
    | (.ok other, rest) => simp [parseScript_cons_of_ok read] at parses

theorem deserializeOpcode_of_le (small : value ≤ 0x4b) :
    deserializeOpcode value input = deserializeFixed value value.toNat input := by
  have bound : value.toNat ≤ 75 := small
  have notOne : value ≠ 0x4c := by rintro rfl; simp at bound
  have notTwo : value ≠ 0x4d := by rintro rfl; simp at bound
  have notFour : value ≠ 0x4e := by rintro rfl; simp at bound
  rw [deserializeOpcode, if_neg notOne, if_neg notTwo, if_neg notFour, if_pos small]

theorem length_data_of_deserializeOpcode (small : value ≤ 0x4b)
    (read : deserializeOpcode value input = (.ok opcode, rest)) :
    opcode.data.length = value.toNat :=
  (deserializeFixed_eq_ok_iff.mp ((deserializeOpcode_of_le small).symm.trans read)).2.1

/-- An opcode that is not followed by data. -/
theorem parseScript_single (bare : 0x4e < value) (rest : List UInt8) :
    parseScript (value :: rest) = .ok ⟨value, []⟩ :: parseScript rest := by
  refine parseScript_cons_of_ok ?_
  have large : 78 < value.toNat := bare
  have notOne : value ≠ 0x4c := by rintro rfl; simp at large
  have notTwo : value ≠ 0x4d := by rintro rfl; simp at large
  have notFour : value ≠ 0x4e := by rintro rfl; simp at large
  have notFixed : ¬ value ≤ 0x4b := by
    intro small
    have : value.toNat ≤ 75 := small
    omega
  simp [deserializeOpcode, deserializeFixed, notOne, notTwo, notFour, notFixed]

variable {data : List UInt8}

/-- A push of at most 75 bytes. -/
theorem parseScript_data (small : value ≤ 0x4b) (size : data.length = value.toNat)
    (rest : List UInt8) :
    parseScript (value :: (data ++ rest)) = .ok ⟨value, data⟩ :: parseScript rest := by
  refine parseScript_cons_of_ok ?_
  rw [deserializeOpcode_of_le small, deserializeFixed_eq_ok_iff]
  exact ⟨rfl, size, rfl⟩

def pushData2 (data : List UInt8) : List UInt8 := 0x4d :: (leBytes 2 data.length ++ data)

theorem parseScript_pushData2 (fits : data.length < 65536) (rest : List UInt8) :
    parseScript (pushData2 data ++ rest) = .ok ⟨0x4d, data⟩ :: parseScript rest := by
  refine parseScript_cons_of_ok ?_
  have lengthBytes : (leBytes 2 data.length ++ (data ++ rest)).take 2 = leBytes 2 data.length :=
    take_left' (length_leBytes _ _)
  have following : (leBytes 2 data.length ++ (data ++ rest)).drop 2 = data ++ rest :=
    drop_left' (length_leBytes _ _)
  have value : leValue (leBytes 2 data.length) = data.length := leValue_leBytes fits
  simp [deserializeOpcode, deserializeVariable, deserializeFixed, lengthBytes, following, value]

theorem eq_pushData2_of_parseScript (parses : parseScript script = .ok ⟨0x4d, data⟩ :: parsed) :
    ∃ rest, script = pushData2 data ++ rest ∧ parseScript rest = parsed := by
  obtain ⟨value, input, rest, rfl, read, restParses⟩ := exists_of_parseScript_eq_cons parses
  refine ⟨rest, ?_, restParses⟩
  obtain rfl : value = 0x4d := (value_of_deserializeOpcode read).symm
  rw [deserializeOpcode, if_neg (by decide), if_pos rfl, deserializeVariable] at read
  split at read
  · cases read
  · rename_i width
    obtain ⟨-, size, following⟩ := deserializeFixed_eq_ok_iff.mp read
    have lengthBytes : leBytes 2 data.length = input.take 2 := by
      rw [show data.length = leValue (input.take 2) from size]
      exact leBytes_leValue (not_not.mp width)
    rw [pushData2, cons_append, append_assoc, lengthBytes, ← following, take_append_drop]

variable {hashers : Hashers} {source : ScriptSource} {verify : SigCheck → Bool}
  {state next : EngineState}

theorem checkStackSize_eq_ok_iff :
    checkStackSize state = .ok next ↔ state.astack.length + state.dstack.length ≤ maxStackSize ∧
      state = next := by
  simp only [checkStackSize]
  split
  · rename_i exceeded
    simp [Nat.not_le.mpr exceeded]
  · rename_i within
    simp [Nat.not_lt.mp within]

variable {verifyOnlyPush : Bool} {final : EngineState}

theorem executeOpcodes_cons_eq_ok_iff {parsed : ScriptResult OpCode}
    {rest : List (ScriptResult OpCode)} :
    (executeOpcodes hashers source verifyOnlyPush (parsed :: rest)
        state).run.evaluate verify = .ok final ↔
      ∃ opcode next, parsed = .ok opcode ∧ checkOpcodeAllowed verifyOnlyPush opcode = .ok () ∧
        (executeOpcode hashers source opcode state).run.evaluate verify = .ok next ∧
        next.astack.length + next.dstack.length ≤ maxStackSize ∧
        (executeOpcodes hashers source verifyOnlyPush rest
          next).run.evaluate verify = .ok final := by
  simp only [executeOpcodes, evaluate_bind_eq_ok, evaluate_ofResult, checkStackSize_eq_ok_iff]
  constructor
  · rintro ⟨opcode, rfl, _, allowed, next, runs, _, ⟨within, rfl⟩, following⟩
    exact ⟨opcode, next, rfl, allowed, runs, within, following⟩
  · rintro ⟨opcode, next, rfl, allowed, runs, within, following⟩
    exact ⟨opcode, rfl, (), allowed, next, runs, next, ⟨within, rfl⟩, following⟩

theorem executeOpcodes_nil_eq_ok_iff :
    (executeOpcodes hashers source verifyOnlyPush [] state).run.evaluate verify = .ok final ↔
      state = final := by
  simp [executeOpcodes]

/-- What a push opcode may put on the stack: its data in the shortest encoding,
or a number from minus one to sixteen. -/
structure OpCode.Pushes (opcode : OpCode) (item : List UInt8) : Prop where
  isPush : opcode.isPushOpcode = true
  bounded : opcode.data.length ≤ maxScriptElementSize
  pushed : (∃ byte : UInt8, (byte ≤ 0x10 ∨ byte = 0x81) ∧ item = [byte]) ∨
    (opcode.value ≤ 0x4e ∧ item = opcode.data ∧
      (0 < opcode.value → opcode.checkMinimalDataPush = .ok ()))

variable {opcode : OpCode}

theorem condStack_of_countOpcode {counted : EngineState}
    (counts : countOpcode opcode state = .ok counted) : counted.condStack = state.condStack := by
  rw [countOpcode] at counts
  repeat' split at counts
  all_goals cases counts
  all_goals rfl

theorem executeOpcode_eq_ok_iff (executing : state.condStack = []) :
    (executeOpcode hashers source opcode state).run.evaluate verify = .ok next ↔
      ∃ counted, countOpcode opcode state = .ok counted ∧ (0 < opcode.value ∧ opcode.value ≤ 0x4e →
          opcode.checkMinimalDataPush = .ok ()) ∧
        (opcode.execute hashers source counted).run.evaluate verify = .ok next := by
  simp only [executeOpcode, evaluate_bind_eq_ok, evaluate_ofResult]
  refine exists_congr fun counted => and_congr_right fun counts => ?_
  have runs : counted.isExecuting = true := by
    rw [EngineState.isExecuting, condStack_of_countOpcode counts, executing]
  rw [runs, Bool.true_or, if_pos rfl]
  split
  · rename_i checked
    simp only [evaluate_bind_eq_ok, evaluate_ofResult, checked, and_self, forall_const]
    constructor
    · rintro ⟨_, minimal, executes⟩
      exact ⟨minimal, executes⟩
    · rintro ⟨minimal, executes⟩
      exact ⟨(), minimal, executes⟩
  · rename_i unchecked
    simp [unchecked]

theorem Stack.pushNumber_negativeOne (stack : Stack) :
    stack.pushNumber (-1) = .ok ([0x81] :: stack) :=
  rfl

variable {value : UInt8}

theorem sub_bounds_of_small (small : 0x51 ≤ value ∧ value ≤ 0x60) :
    1 ≤ value - 0x50 ∧ value - 0x50 ≤ 0x10 := by
  obtain ⟨low, high⟩ := small
  rw [UInt8.le_iff_toNat_le] at low high
  have difference : (value - 0x50).toNat = value.toNat - 0x50 :=
    UInt8.toNat_sub_of_le _ _ (UInt8.le_iff_toNat_le.mpr (by simp at low ⊢; omega))
  rw [UInt8.le_iff_toNat_le, UInt8.le_iff_toNat_le, difference]
  simp at low high ⊢
  omega

theorem Stack.pushNumber_small {number : UInt8} (pos : 1 ≤ number) (small : number ≤ 0x10)
    (stack : Stack) : stack.pushNumber number.toNat = .ok ([number] :: stack) := by
  have isPositive : 1 ≤ number.toNat := pos
  have isSmall : number.toNat ≤ 16 := small
  rw [← UInt8.ofNat_toNat (x := number)]
  generalize number.toNat = value at isPositive isSmall
  interval_cases value <;> rfl

theorem OpCode.pushes_of_executeOpcode (isPush : opcode.isPushOpcode = true)
    (executing : state.condStack = [])
    (runs : (executeOpcode hashers source opcode state).run.evaluate verify = .ok next) :
    ∃ item, opcode.Pushes item ∧ next = { state with dstack := item :: state.dstack } := by
  obtain ⟨counted, counts, minimal, executes⟩ := (executeOpcode_eq_ok_iff executing).mp runs
  rw [countOpcode, if_pos isPush] at counts
  split at counts
  · cases counts
  rename_i bounded
  cases counts
  rw [OpCode.execute] at executes
  split at executes
  · rename_i data
    cases executes
    exact ⟨opcode.data, ⟨isPush, Nat.not_lt.mp bounded,
      .inr ⟨data, rfl, fun pos => minimal ⟨pos, data⟩⟩⟩, rfl⟩
  split at executes
  · rw [Stack.pushNumber_negativeOne] at executes
    cases executes
    exact ⟨_, ⟨isPush, Nat.not_lt.mp bounded, .inl ⟨_, .inr rfl, rfl⟩⟩, rfl⟩
  split at executes
  · rename_i isSmall
    obtain ⟨pos, small⟩ := sub_bounds_of_small isSmall
    rw [Stack.pushNumber_small pos small] at executes
    cases executes
    exact ⟨_, ⟨isPush, Nat.not_lt.mp bounded, .inl ⟨_, .inl small, rfl⟩⟩, rfl⟩
  -- The only push opcode left is the reserved one.
  · rename_i notData notNegative notSmall
    obtain ⟨value, data⟩ := opcode
    have isReserved : value = 0x50 := by
      rw [UInt8.le_iff_toNat_le] at notData
      rw [← UInt8.toNat_inj] at notNegative
      rw [UInt8.le_iff_toNat_le, UInt8.le_iff_toNat_le] at notSmall
      have push : value.toNat ≤ 0x60 := UInt8.le_iff_toNat_le.mp (of_decide_eq_true isPush)
      rw [← UInt8.toNat_inj]
      simp at notData notNegative notSmall ⊢
      omega
    subst isReserved
    cases executes

/-- A push of data in its shortest encoding runs when the data is not too
big. -/
theorem executeOpcode_data {data : List UInt8} (isData : value ≤ 0x4e)
    (bounded : data.length ≤ maxScriptElementSize)
    (minimal : OpCode.checkMinimalDataPush ⟨value, data⟩ = .ok ())
    (executing : state.condStack = []) :
    (executeOpcode hashers source ⟨value, data⟩ state).run.evaluate verify =
      .ok { state with dstack := data :: state.dstack } := by
  have isPush : OpCode.isPushOpcode ⟨value, data⟩ = true :=
    decide_eq_true (UInt8.le_trans isData (by decide))
  have counts : countOpcode ⟨value, data⟩ state = .ok state := by
    rw [countOpcode, if_pos isPush, if_neg (Nat.not_lt.mpr bounded)]
  refine (executeOpcode_eq_ok_iff executing).mpr ⟨state, counts, fun _ => minimal, ?_⟩
  rw [OpCode.execute, if_pos isData]
  rfl

theorem isPushOpcode_of_checkOpcodeAllowed (allowed : checkOpcodeAllowed true opcode = .ok ()) :
    opcode.isPushOpcode = true := by
  simp only [checkOpcodeAllowed, bind_eq_ok, reject_eq_ok] at allowed
  simpa using allowed.choose_spec.2.choose_spec.2

variable {script : List UInt8} {parsed : List (ScriptResult OpCode)}

/-- An item of these lengths has been pushed by `OpPushData2`. -/
theorem eq_pushData2_of_pushes {item : List UInt8}
    (parses : parseScript script = .ok opcode :: parsed) (pushes : opcode.Pushes item)
    (long : 255 < item.length) (short : item.length < 65535) :
    ∃ rest, script = pushData2 item ++ rest ∧ parseScript rest = parsed := by
  rcases pushes.pushed with ⟨byte, -, rfl⟩ | ⟨isData, rfl, minimal⟩
  · simp at long
  obtain ⟨value, data⟩ := opcode
  have pos : 0 < value := by
    obtain ⟨first, input, rest, rfl, read, -⟩ := exists_of_parseScript_eq_cons parses
    obtain rfl : value = first := value_of_deserializeOpcode read
    by_contra zero
    have isZero : value.toNat = 0 := Nat.le_zero.mp (Nat.not_lt.mp zero)
    have size := length_data_of_deserializeOpcode
      (UInt8.le_iff_toNat_le.mpr (by rw [isZero]; exact Nat.zero_le _)) read
    omega
  have required : ∃ text, OpCode.minimalPush ⟨value, data⟩ = some (0x4d, text) := by
    rw [OpCode.minimalPush, if_neg (by omega), if_neg (by omega), if_neg (by omega),
      if_neg (by omega), if_neg (by omega), if_pos short]
    exact ⟨_, rfl⟩
  obtain ⟨text, required⟩ := required
  have isPushData2 : value = 0x4d := by
    have checked := minimal pos
    rw [OpCode.checkMinimalDataPush, required] at checked
    exact not_not.mp (reject_eq_ok.mp checked)
  subst isPushData2
  exact eq_pushData2_of_parseScript parses

theorem pushes_of_executeOpcodes (executing : state.condStack = [])
    (runs : (executeOpcodes hashers source true parsed state).run.evaluate verify = .ok final) :
    ∃ opcodes : List OpCode, ∃ items, parsed = opcodes.map .ok ∧
      List.Forall₂ OpCode.Pushes opcodes items ∧
      final = { state with dstack := items.reverse ++ state.dstack } := by
  induction parsed generalizing state with
  | nil =>
    cases executeOpcodes_nil_eq_ok_iff.mp runs
    exact ⟨[], [], rfl, .nil, rfl⟩
  | cons first rest ih =>
    obtain ⟨opcode, next, rfl, allowed, executes, -, following⟩ :=
      executeOpcodes_cons_eq_ok_iff.mp runs
    obtain ⟨item, pushes, rfl⟩ := OpCode.pushes_of_executeOpcode
      (isPushOpcode_of_checkOpcodeAllowed allowed) executing executes
    obtain ⟨opcodes, items, rfl, allPush, rfl⟩ := ih (by exact executing) following
    exact ⟨opcode :: opcodes, item :: items, rfl, .cons pushes allPush, by
      simp⟩

/-- The same for a whole signature script. -/
theorem pushes_of_executeUnlessEmpty {limit : UInt8} {signed : EngineState}
    (runs : (executeUnlessEmpty hashers source script true
      (.new limit)).run.evaluate verify = .ok signed) :
    ∃ opcodes : List OpCode, ∃ items, parseScript script = opcodes.map .ok ∧
      List.Forall₂ OpCode.Pushes opcodes items ∧
      signed = ⟨items.reverse, [], [], 0, .new limit⟩ := by
  rw [executeUnlessEmpty] at runs
  split at runs
  · rename_i isEmpty
    cases runs
    subst isEmpty
    exact ⟨[], [], rfl, .nil, rfl⟩
  · simp only [executeScript, evaluate_bind_eq_ok] at runs
    obtain ⟨final, executes, _, -, returns⟩ := runs
    obtain ⟨opcodes, items, parses, pushes, rfl⟩ := pushes_of_executeOpcodes rfl executes
    cases returns
    exact ⟨opcodes, items, parses, pushes, by
      simp [EngineState.new]⟩

end Sophis
