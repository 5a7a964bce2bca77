import Sophis.StandardPayment

namespace Sophis

open ByteCodec ExceptLoop List OracleProgram

/-!
# The static bound on signature checks

`get_sig_op_count_upper_bound` counts opcodes of the scripts of an input
without running them. It counts the disabled signature opcodes and not
`OpCheckSigDilithium`, the only one that checks a signature; what bounds the
checks of a run is the number of those.
-/

def maxPubKeysPerMultisig : Nat := 20

/-- The number that one of the opcodes `OpTrue` to `Op16` pushes. -/
def toSmallInt (opcode : OpCode) : UInt8 := if opcode.value = 0x00 then 0 else opcode.value - 0x50

/-- What one opcode adds to the bound. The disabled multisignature opcodes
count as many keys as the opcode before them says. -/
def sigOpsOf (previous : Option OpCode) (opcode : OpCode) : Nat :=
  if opcode.value = 0xac ∨ opcode.value = 0xad ∨ opcode.value = 0xab then
    1
  else if opcode.value = 0xae ∨ opcode.value = 0xaf ∨ opcode.value = 0xa9 then
    match previous with
    | none => maxPubKeysPerMultisig
    | some before =>
      if 0x51 ≤ before.value ∧ before.value ≤ 0x60 then
        (toSmallInt before).toNat
      else
        maxPubKeysPerMultisig
  else
    0

/-- Counts until the first opcode that is malformed. -/
def getSigOpCountByOpcodes (previous : Option OpCode) : List (ScriptResult OpCode) → Nat
  | [] => 0
  | .error _ :: _ => 0
  | .ok opcode :: rest => sigOpsOf previous opcode + getSigOpCountByOpcodes (some opcode) rest

/-- The opcodes that are counted: those of the script itself, or, when it pays
to a script hash, those of the script that the signature script pushes last.
A signature script that is empty or not made of pushes counts as nothing. -/
def countedOpcodes (signatureScript script : List UInt8) : List (ScriptResult OpCode) :=
  if isPayToScriptHash script then
    let signatureScriptOps := parseScript signatureScript
    if signatureScriptOps.any fun
        | .ok opcode => !opcode.isPushOpcode
        | .error _ => true then
      []
    else
      match signatureScriptOps.getLast? with
      | some (.ok last) => parseScript last.data
      | _ => []
  else
    parseScript script

/-- The bound that clients use as the limit of an input. -/
def getSigOpCountUpperBound (signatureScript script : List UInt8) : Nat :=
  getSigOpCountByOpcodes none (countedOpcodes signatureScript script)

/-- The number of `OpCheckSigDilithium` up to the first malformed opcode. -/
def dilithiumOps : List (ScriptResult OpCode) → Nat
  | [] => 0
  | .error _ :: _ => 0
  | .ok opcode :: rest => (if opcode.value = 0xc4 then 1 else 0) + dilithiumOps rest

/-- The number of disabled signature opcodes up to the first malformed one. -/
def disabledSigOps : List (ScriptResult OpCode) → Nat
  | [] => 0
  | .error _ :: _ => 0
  | .ok opcode :: rest =>
    (if opcode.value ∈ [0xa9, 0xab, 0xac, 0xad, 0xae, 0xaf] then 1 else 0) + disabledSigOps rest

theorem toSmallInt_pos {opcode : OpCode} (number : 0x51 ≤ opcode.value) :
    1 ≤ (toSmallInt opcode).toNat := by
  have large : (0x51 : UInt8).toNat ≤ opcode.value.toNat := UInt8.le_iff_toNat_le.mp number
  have notZero : opcode.value ≠ 0x00 := by
    rintro isZero
    rw [isZero] at large
    exact absurd large (by decide)
  have base : (0x50 : UInt8) ≤ opcode.value :=
    UInt8.le_iff_toNat_le.mpr (Nat.le_trans (by decide) large)
  rw [toSmallInt, if_neg notZero, UInt8.toNat_sub_of_le _ _ base]
  exact Nat.le_sub_of_add_le large

theorem one_le_sigOpsOf {previous : Option OpCode} {opcode : OpCode}
    (disabled : opcode.value ∈ [0xa9, 0xab, 0xac, 0xad, 0xae, 0xaf]) :
    1 ≤ sigOpsOf previous opcode := by
  fun_cases sigOpsOf previous opcode with
  | case1 => exact le_rfl
  | case2 | case4 => exact Nat.le_add_left 1 19
  | case3 before _ _ number => exact toSmallInt_pos number.1
  | case5 single multi => simp_all

theorem sigOpsOf_eq_zero {previous : Option OpCode} {opcode : OpCode}
    (other : opcode.value ∉ [0xa9, 0xab, 0xac, 0xad, 0xae, 0xaf]) :
    sigOpsOf previous opcode = 0 := by
  simp only [mem_cons, not_mem_nil, or_false, not_or] at other
  simp [sigOpsOf, other]

theorem disabledSigOps_le (previous : Option OpCode) (opcodes : List (ScriptResult OpCode)) :
    disabledSigOps opcodes ≤ getSigOpCountByOpcodes previous opcodes := by
  fun_induction getSigOpCountByOpcodes previous opcodes with
  | case1 | case2 => exact le_rfl
  | case3 previous opcode rest ih =>
    refine Nat.add_le_add ?_ ih
    split_ifs with disabled
    · exact one_le_sigOpsOf disabled
    · exact Nat.zero_le _

theorem getSigOpCountByOpcodes_eq_zero (previous : Option OpCode)
    {opcodes : List (ScriptResult OpCode)} (none : disabledSigOps opcodes = 0) :
    getSigOpCountByOpcodes previous opcodes = 0 := by
  fun_induction getSigOpCountByOpcodes previous opcodes with
  | case1 | case2 => rfl
  | case3 previous opcode rest ih =>
    obtain ⟨here, later⟩ := Nat.add_eq_zero_iff.mp none
    rw [ih later, sigOpsOf_eq_zero fun disabled => by simp [disabled] at here]

variable {hashers : Hashers} {source : ScriptSource} {verify : SigCheck → Bool}

/-- The state with another counter of signature checks. -/
def EngineState.withCounter (state : EngineState) (counter : RuntimeSigOpCounter) : EngineState :=
  { state with sigOps := counter }

/-- A step that succeeds asks for at most this many checks, and succeeds in the
same way from any counter that allows them. -/
def Metered (verify : SigCheck → Bool) (bound : Nat)
    (step : EngineState → EngineProgram EngineState) : Prop :=
  ∀ state next, (step state).run.evaluate verify = .ok next →
    ((step state).run.queries verify).length ≤ bound ∧ ∀ counter,
      ((step state).run.queries verify).length ≤ counter.remaining.toNat →
      ∃ left, left.remaining.toNat + ((step state).run.queries verify).length =
          counter.remaining.toNat ∧
        (step (state.withCounter counter)).run.evaluate verify = .ok (next.withCounter left)

/-- A computation that does not look at the counter. -/
def CounterFree (compute : EngineState → ScriptResult EngineState) : Prop :=
  ∀ state counter, compute (state.withCounter counter) = (compute state).map (·.withCounter counter)

theorem CounterFree.metered {compute : EngineState → ScriptResult EngineState}
    (free : CounterFree compute) : Metered verify 0 fun state => ofResult (compute state) := by
  intro state next succeeds
  rw [evaluate_ofResult] at succeeds
  refine ⟨le_rfl, fun counter _ => ⟨counter, rfl, ?_⟩⟩
  rw [evaluate_ofResult, free, succeeds]
  rfl

variable {first second : EngineState → EngineProgram EngineState}

theorem Metered.bind {firstBound secondBound : Nat} (meteredFirst : Metered verify firstBound first)
    (meteredSecond : Metered verify secondBound second) :
    Metered verify (firstBound + secondBound) fun state => first state >>= second := by
  intro state next succeeds
  obtain ⟨mid, firstSucceeds, secondSucceeds⟩ := evaluate_bind_eq_ok.mp succeeds
  obtain ⟨firstWithin, firstElsewhere⟩ := meteredFirst state mid firstSucceeds
  obtain ⟨secondWithin, secondElsewhere⟩ := meteredSecond mid next secondSucceeds
  rw [queries_bind_of_ok firstSucceeds, length_append]
  refine ⟨Nat.add_le_add firstWithin secondWithin, fun counter enough => ?_⟩
  obtain ⟨between, usedFirst, firstRuns⟩ := firstElsewhere counter (by omega)
  obtain ⟨left, usedSecond, secondRuns⟩ := secondElsewhere between (by omega)
  exact ⟨left, by omega, evaluate_bind_eq_ok.mpr ⟨_, firstRuns, secondRuns⟩⟩

variable {step : EngineState → EngineProgram EngineState} {bound : Nat}

theorem Metered.mono {larger : Nat} (metered : Metered verify bound step) (le : bound ≤ larger) :
    Metered verify larger step := by
  intro state next succeeds
  obtain ⟨within, elsewhere⟩ := metered state next succeeds
  exact ⟨within.trans le, elsewhere⟩

theorem Metered.after {α : Type} {check : EngineState → ScriptResult α}
    (free : ∀ state counter, check (state.withCounter counter) = check state)
    (metered : Metered verify bound step) :
    Metered verify bound (fun state => do
      let _ ← (ofResult (check state) : EngineProgram α)
      step state) := by
  intro state next succeeds
  obtain ⟨value, passes, stepSucceeds⟩ := evaluate_bind_eq_ok.mp succeeds
  rw [evaluate_ofResult] at passes
  simp only [free, passes, ofResult_ok_bind]
  exact metered state next stepSucceeds

theorem Metered.ite {condition : EngineState → Bool}
    (free : ∀ state counter, condition (state.withCounter counter) = condition state)
    (meteredFirst : Metered verify bound first) (meteredSecond : Metered verify bound second) :
    Metered verify bound fun state =>
      if condition state then first state else second state := by
  intro state next succeeds
  simp only [free]
  cases chosen : condition state with
  | true =>
    simp only [chosen, if_true] at succeeds ⊢
    exact meteredFirst state next succeeds
  | false =>
    simp only [chosen, Bool.false_eq_true, if_false] at succeeds ⊢
    exact meteredSecond state next succeeds

theorem counterFree_of_stack (compute : StackOpcode) : CounterFree fun state =>
    (compute state.dstack).map fun dstack => { state with dstack } := by
  intro state counter
  simp only [EngineState.withCounter]
  cases compute state.dstack <;> rfl

theorem counterFree_openConditional (whenOne whenEmpty : OpCond) :
    CounterFree (openConditional whenOne whenEmpty) := by
  intro state counter
  have sameCondition : popCondition whenOne whenEmpty
      (state.withCounter counter) = popCondition whenOne whenEmpty state :=
    rfl
  have sameBranch : (state.withCounter counter).isExecuting = state.isExecuting := rfl
  rw [openConditional, openConditional, sameCondition, sameBranch]
  split
  · cases popCondition whenOne whenEmpty state <;> rfl
  · rfl

theorem counterFree_opElse : CounterFree opElse := by
  rintro ⟨dstack, astack, condStack, numOps, sigOps⟩ counter
  cases condStack <;> rfl

theorem counterFree_opEndIf : CounterFree opEndIf := by
  rintro ⟨dstack, astack, condStack, numOps, sigOps⟩ counter
  cases condStack <;> rfl

theorem counterFree_executeControl (opcode : OpCode) :
    CounterFree (executeControl hashers source opcode) := by
  intro state counter
  obtain ⟨dstack, astack, condStack, numOps, sigOps⟩ := state
  simp only [executeControl, EngineState.withCounter]
  split
  · exact counterFree_openConditional .true .false
      ⟨dstack, astack, condStack, numOps, sigOps⟩ counter
  · exact counterFree_openConditional .false .true
      ⟨dstack, astack, condStack, numOps, sigOps⟩ counter
  · exact counterFree_opElse ⟨dstack, astack, condStack, numOps, sigOps⟩ counter
  · exact counterFree_opEndIf ⟨dstack, astack, condStack, numOps, sigOps⟩ counter
  · rfl
  · cases Stack.popRaw 1 dstack <;> rfl
  · cases astack <;> rfl
  · cases Stack.popRaw 1 dstack <;> rfl
  · cases Stack.popRaw 1 dstack <;> rfl
  · rfl
  · rfl
  · rfl
  · rfl
  · rfl
  · rfl
  · cases source with
    | txInput populated index entry =>
      exact counterFree_of_stack (opCheckLockTimeVerify populated.tx _) ⟨dstack, _, _, _, _⟩ _
    | standAloneScripts scripts => rfl
  · cases source with
    | txInput populated index entry =>
      exact counterFree_of_stack (opCheckSequenceVerify _) ⟨dstack, _, _, _, _⟩ _
    | standAloneScripts scripts => rfl
  · cases source with
    | txInput populated index entry =>
      split
      · exact counterFree_of_stack _ ⟨dstack, _, _, _, _⟩ _
      · rename_i absurdity
        cases absurdity
      · split
        · rfl
        split
        · rfl
        · rfl
    | standAloneScripts scripts =>
      split
      · rename_i absurdity
        cases absurdity
      · rfl
      · split
        · rfl
        split
        · rfl
        · rfl

theorem counterFree_countOpcode (opcode : OpCode) : CounterFree (countOpcode opcode) := by
  intro state counter
  have sameOps : (state.withCounter counter).numOps = state.numOps := rfl
  rw [countOpcode, countOpcode, sameOps]
  repeat' split
  all_goals rfl

theorem counterFree_checkStackSize : CounterFree checkStackSize := by
  intro state counter
  have sameStack : (state.withCounter counter).dstack = state.dstack := rfl
  have sameAlt : (state.withCounter counter).astack = state.astack := rfl
  simp only [checkStackSize, sameStack, sameAlt]
  split
  · rfl
  · rfl

theorem checkDilithiumSignature_metered {counter : RuntimeSigOpCounter} {hashType : SigHashType}
    {key sig : List UInt8} {result : Bool × RuntimeSigOpCounter}
    (succeeds : (checkDilithiumSignature hashers source counter hashType key
      sig).run.evaluate verify = .ok result) :
    ((checkDilithiumSignature hashers source counter hashType key
        sig).run.queries verify).length = 1 ∧
      ∀ other : RuntimeSigOpCounter, 1 ≤ other.remaining.toNat → ∃ left : RuntimeSigOpCounter,
        left.remaining.toNat + 1 = other.remaining.toNat ∧
        (checkDilithiumSignature hashers source other hashType key
          sig).run.evaluate verify = .ok (result.1, left) := by
  cases source with
  | standAloneScripts scripts =>
    rw [checkDilithiumSignature, evaluate_bind_eq_ok] at succeeds
    obtain ⟨_, -, ⟨⟩⟩ := succeeds
  | txInput populated index entry =>
    obtain ⟨checked, rfl⟩ := checkDilithiumSignature_eq_ok_iff.mp succeeds
    rw [checkDilithiumSignature_of_checked hashers populated index entry hashType checked]
    refine ⟨rfl, fun other available => ?_⟩
    refine ⟨{ other with remaining := other.remaining - 1 }, ?_,
      checkDilithiumSignature_eq_ok_iff.mpr ⟨⟨?_, checked.sigSize, checked.keySize⟩, rfl⟩⟩
    · have difference : (other.remaining - 1).toNat = other.remaining.toNat - 1 :=
        UInt8.toNat_sub_of_le _ _ available
      change (other.remaining - 1).toNat + 1 = _
      omega
    · intro none
      rw [none] at available
      cases available

theorem metered_opCheckSigDilithium : Metered verify 1 (opCheckSigDilithium hashers source) := by
  intro state next succeeds
  simp only [opCheckSigDilithium] at succeeds ⊢
  obtain ⟨⟨items, rest⟩, pops, succeeds⟩ := evaluate_bind_eq_ok.mp succeeds
  rw [evaluate_ofResult] at pops
  have popsElsewhere : ∀ counter, (state.withCounter counter).dstack.popRaw 2 = .ok (items, rest) :=
    fun _ => pops
  simp only [pops, popsElsewhere, ofResult_ok_bind]
  cases last : (items.getD 0 []).getLast? with
  | none =>
    simp only [last] at succeeds ⊢
    cases succeeds
    exact ⟨Nat.zero_le _, fun counter _ => ⟨counter, rfl, rfl⟩⟩
  | some typ =>
    simp only [last] at succeeds ⊢
    cases known : SigHashType.fromU8 typ with
    | none =>
      simp only [known] at succeeds
      cases succeeds
    | some hashType =>
      simp only [known] at succeeds ⊢
      obtain ⟨⟨valid, sigOps⟩, checks, returns⟩ := evaluate_bind_eq_ok.mp succeeds
      obtain ⟨asked, elsewhere⟩ := checkDilithiumSignature_metered checks
      cases returns
      rw [queries_bind_of_ok checks, length_append, asked]
      refine ⟨le_rfl, fun counter enough => ?_⟩
      obtain ⟨left, used, checksElsewhere⟩ := elsewhere counter enough
      exact ⟨left, used, evaluate_bind_eq_ok.mpr ⟨_, checksElsewhere, rfl⟩⟩

theorem metered_execute (opcode : OpCode) :
    Metered verify (if opcode.value = 0xc4 then 1 else 0) (opcode.execute hashers source) := by
  by_cases isCheck : opcode.value = 0xc4
  · have runs : opcode.execute hashers source = opCheckSigDilithium hashers source := by
      funext state
      simp [OpCode.execute, isCheck]
    rw [if_pos isCheck, runs]
    exact metered_opCheckSigDilithium
  · rw [if_neg isCheck]
    unfold OpCode.execute
    simp only [isCheck, if_false]
    split
    · exact (counterFree_of_stack fun stack => .ok (opcode.data :: stack)).metered
    split
    · exact (counterFree_of_stack (Stack.pushNumber (-1))).metered
    split
    · exact (counterFree_of_stack (Stack.pushNumber _)).metered
    split
    · exact (counterFree_of_stack _).metered
    · exact (counterFree_executeControl opcode).metered

theorem metered_return : Metered verify 0 fun state => (return state : EngineProgram EngineState) :=
  fun state next succeeds => by
    cases succeeds
    exact ⟨le_rfl, fun counter _ => ⟨counter, rfl, rfl⟩⟩

theorem metered_executeOpcode (opcode : OpCode) :
    Metered verify (if opcode.value = 0xc4 then 1 else 0)
      (executeOpcode hashers source opcode) := by
  have runs : Metered verify (0 + if opcode.value = 0xc4 then 1 else 0) fun state => do
      let counted ← ofResult (countOpcode opcode state)
      if counted.isExecuting || opcode.isConditional then
        if 0 < opcode.value ∧ opcode.value ≤ 0x4e then
          ofResult opcode.checkMinimalDataPush
        opcode.execute hashers source counted
      else
        return counted := by
    refine (counterFree_countOpcode opcode).metered.bind ?_
    refine Metered.ite (fun _ _ => rfl) ?_ ?_
    · by_cases ok : 0 < opcode.value ∧ opcode.value ≤ 0x4e
      · simp only [if_pos ok]
        exact Metered.after (fun _ _ => rfl) (metered_execute opcode)
      · simp only [if_neg ok]
        exact metered_execute opcode
    · exact metered_return.mono (Nat.zero_le _)
  rwa [Nat.zero_add] at runs

theorem metered_executeOpcodes (verifyOnlyPush : Bool) (parsed : List (ScriptResult OpCode)) :
    Metered verify (dilithiumOps parsed) (executeOpcodes hashers source verifyOnlyPush parsed) := by
  induction parsed with
  | nil => exact metered_return
  | cons first rest ih =>
    cases first with
    | error error =>
      intro state next succeeds
      cases succeeds
    | ok opcode =>
      refine Metered.after (fun _ _ => rfl) ?_
      exact (metered_executeOpcode opcode).bind ((counterFree_checkStackSize.metered.bind
        ih).mono (by rw [Nat.zero_add]))

theorem metered_executeScript (script : List UInt8) (verifyOnlyPush : Bool) :
    Metered verify (dilithiumOps (parseScript script))
      (executeScript hashers source script verifyOnlyPush) := by
  have closes : Metered verify 0 (fun state : EngineState => do
      ofResult (reject (state.condStack ≠ []) .errUnbalancedConditional)
      return { state with astack := [], numOps := 0 }) :=
    Metered.after (fun _ _ => rfl) fun state next succeeds => by
      cases succeeds
      exact ⟨le_rfl, fun counter _ => ⟨counter, rfl, rfl⟩⟩
  exact (metered_executeOpcodes verifyOnlyPush _).bind closes

theorem metered_executeUnlessEmpty (script : List UInt8) (verifyOnlyPush : Bool) :
    Metered verify (dilithiumOps (parseScript script))
      (executeUnlessEmpty hashers source script verifyOnlyPush) := by
  unfold executeUnlessEmpty
  split
  · exact metered_return.mono (Nat.zero_le _)
  · exact metered_executeScript script verifyOnlyPush

theorem counterFree_checkErrorCondition (finalScript : Bool) :
    CounterFree (checkErrorCondition finalScript) := by
  rintro ⟨dstack, astack, condStack, numOps, sigOps⟩ counter
  cases dstack with
  | nil => cases finalScript <;> rfl
  | cons item rest =>
    cases rest <;> cases holds : deserializeBool item <;> cases finalScript <;>
      simp [checkErrorCondition, EngineState.withCounter, Stack.popBool, Stack.popRaw, reject,
        holds, Except.map, bind, Except.bind, pure, Except.pure]

theorem metered_executeRedeemScript (script : List UInt8) (rest : Stack) :
    Metered verify (dilithiumOps (parseScript script))
      (executeRedeemScript hashers source (script :: rest)) := by
  have onRest : Metered verify (dilithiumOps (parseScript script))
      fun state => executeScript hashers source script false { state with dstack := rest } := by
    intro state next succeeds
    exact metered_executeScript script false _ next succeeds
  have runs := (counterFree_checkErrorCondition false).metered.bind onRest
  rwa [Nat.zero_add] at runs

variable {opcodes : List OpCode} {items : Stack}

theorem dilithiumOps_of_pushes (pushes : List.Forall₂ OpCode.Pushes opcodes items) :
    dilithiumOps (opcodes.map .ok) = 0 := by
  induction pushes with
  | nil => rfl
  | @cons opcode item _ _ push _ ih =>
    have notCheck : opcode.value ≠ 0xc4 := by
      intro isCheck
      have isPush := push.isPush
      rw [OpCode.isPushOpcode, isCheck] at isPush
      cases isPush
    rw [map_cons, dilithiumOps, if_neg notCheck, ih]

variable {script : List UInt8}

theorem exists_eq_payToScriptHash (isHash : isPayToScriptHash script = true) :
    ∃ scriptHash, script = payToScriptHash scriptHash := by
  simp only [isPayToScriptHash, Bool.and_eq_true, decide_eq_true_eq] at isHash
  obtain ⟨⟨⟨size, first⟩, second⟩, last⟩ := isHash
  rcases script with _ | ⟨opcode, _ | ⟨width, tail⟩⟩
  · cases size
  · cases size
  · have tailSize : tail.length = 33 := by simpa using size
    obtain ⟨final, single⟩ := length_eq_one_iff.mp
      (show (tail.drop 32).length = 1 by rw [length_drop, tailSize])
    have split := take_append_drop 32 tail
    rw [single] at split
    refine ⟨⟨tail.take 32, by rw [length_take, tailSize]; rfl⟩, ?_⟩
    have isFinal : final = 0x87 := by
      rw [← last]
      change final = tail.getD 32 0
      rw [getD_eq_getElem?_getD, ← head?_drop, single]
      rfl
    cases first
    cases second
    rw [isFinal] at split
    rw [payToScriptHash, append_assoc, split]
    rfl

theorem dilithiumOps_parseScript_singleton {byte : UInt8} (other : byte ≠ 0xc4) :
    dilithiumOps (parseScript [byte]) = 0 := by
  match read : deserializeOpcode byte [] with
  | (.error error, rest) => simp [parseScript, parseOpcodes, read, dilithiumOps]
  | (.ok opcode, rest) =>
    have eq := value_of_deserializeOpcode read
    have nothingLeft : rest = [] := length_eq_zero_iff.mp
        (Nat.le_zero.mp (length_deserializeOpcode_le read))
    rw [parseScript_cons_of_ok read, nothingLeft, dilithiumOps, eq, if_neg other]
    rfl

theorem exists_pushes_of_mem {opcode : OpCode} (pushes : List.Forall₂ OpCode.Pushes opcodes items)
    (mem : opcode ∈ opcodes) : ∃ item, opcode.Pushes item := by
  induction pushes with
  | nil => cases mem
  | cons push _ ih =>
    rcases mem_cons.mp mem with rfl | later
    · exact ⟨_, push⟩
    · exact ih later

variable {signatureScript : List UInt8}

theorem dilithiumOps_pushed_le_counted {pushed : List UInt8} {rest : Stack}
    (isHash : isPayToScriptHash script = true)
    (parses : parseScript signatureScript = opcodes.map .ok)
    (pushes : List.Forall₂ OpCode.Pushes opcodes items) (onTop : items.reverse = pushed :: rest) :
    dilithiumOps (parseScript pushed) ≤ dilithiumOps (countedOpcodes signatureScript script) := by
  have reversed := forall₂_reverse_iff.mpr pushes
  rw [onTop] at reversed
  obtain ⟨last, _, lastPushes, -, order⟩ := forall₂_cons_right_iff.mp reversed
  have onlyPushes : (parseScript signatureScript).any (fun
      | .ok opcode => !opcode.isPushOpcode
      | .error _ => true) = false := by
    rw [parses, List.any_eq_false]
    rintro parsed mem
    obtain ⟨opcode, isOpcode, rfl⟩ := List.mem_map.mp mem
    obtain ⟨item, push⟩ := exists_pushes_of_mem pushes isOpcode
    simp [push.isPush]
  have isLast : (parseScript signatureScript).getLast? = some (.ok last) := by
    rw [parses, getLast?_map, getLast?_eq_head?_reverse, order]
    rfl
  rcases lastPushes.pushed with ⟨byte, small, rfl⟩ | ⟨-, rfl, -⟩
  · have notCheck : byte ≠ 0xc4 := by
      rintro rfl
      revert small
      decide
    rw [dilithiumOps_parseScript_singleton notCheck]
    exact Nat.zero_le _
  · rw [countedOpcodes, if_pos isHash]
    simp only [onlyPushes, isLast, Bool.false_eq_true, if_false, le_refl]

/-- The last part of a run, on the stack the signature script left: only an
output that pays to a script hash has one. -/
def executeSaved (hashers : Hashers) (source : ScriptSource)
    (script : List UInt8) (saved : Stack) (locked : EngineState) :
    EngineProgram EngineState :=
  if isPayToScriptHash script then
    executeRedeemScript hashers source saved locked
  else
    return locked

theorem executeInput_eq (signatureScript script : List UInt8) (limit : UInt8) :
    executeInput hashers source signatureScript script limit = (do
      ofResult (checkScripts [signatureScript, script])
      let signed ← executeUnlessEmpty hashers source signatureScript true (.new limit)
      let locked ← executeUnlessEmpty hashers source script false signed
      let final ← executeSaved hashers source script signed.dstack locked
      discard (ofResult (checkErrorCondition true final))) := by
  unfold executeInput executeSaved
  split
  · rfl
  · rfl

variable {limit : UInt8}

theorem metered_executeSaved (script : List UInt8) {signed : EngineState}
    (signs : (executeUnlessEmpty hashers source signatureScript true
      (.new limit)).run.evaluate verify = .ok signed) :
    ∃ lockBound savedBound, lockBound + savedBound ≤
        dilithiumOps (countedOpcodes signatureScript script) ∧
      Metered verify lockBound (executeUnlessEmpty hashers source script false) ∧
      Metered verify savedBound (executeSaved hashers source script signed.dstack) := by
  by_cases isHash : isPayToScriptHash script = true
  · have noneLocking : dilithiumOps (parseScript script) = 0 := by
      obtain ⟨scriptHash, rfl⟩ := exists_eq_payToScriptHash isHash
      rw [parseScript_payToScriptHash]
      rfl
    have locks : Metered verify 0 (executeUnlessEmpty hashers source script false) := by
      rw [← noneLocking]
      exact metered_executeUnlessEmpty script false
    have runsSaved : executeSaved hashers source script signed.dstack =
        executeRedeemScript hashers source signed.dstack := by
      funext locked
      rw [executeSaved, if_pos isHash]
    obtain ⟨opcodes, items, parses, pushes, rfl⟩ := pushes_of_executeUnlessEmpty signs
    rw [runsSaved]
    match onTop : items.reverse with
    | [] =>
      refine ⟨0, 0, Nat.zero_le _, locks, ?_⟩
      intro state next succeeds
      obtain ⟨_, _, _, -, ⟨⟩, -⟩ := executeRedeemScript_eq_ok_iff.mp succeeds
    | pushed :: rest =>
      exact ⟨0, _, by
        rw [Nat.zero_add]
        exact dilithiumOps_pushed_le_counted isHash parses pushes onTop,
        locks, metered_executeRedeemScript pushed rest⟩
  · have runsNothing : executeSaved hashers source script signed.dstack =
        fun locked => return locked := by
      funext locked
      rw [executeSaved, if_neg isHash]
    rw [runsNothing, countedOpcodes, if_neg isHash]
    exact ⟨_, 0, le_rfl, metered_executeUnlessEmpty script false, metered_return⟩

/-- Both scripts of an input together make no more checks than the opcodes the
static count looks at, and any limit that allows these checks is enough. -/
theorem executeInput_metered (succeeds : (executeInput hashers source signatureScript script
      limit).run.evaluate verify = .ok ()) :
    ((executeInput hashers source signatureScript script limit).run.queries verify).length ≤
        dilithiumOps (countedOpcodes signatureScript script) ∧
      ∀ other : UInt8, ((executeInput hashers source signatureScript script
          limit).run.queries verify).length ≤ other.toNat →
        (executeInput hashers source signatureScript script
          other).run.evaluate verify = .ok () := by
  simp only [executeInput_eq] at succeeds ⊢
  obtain ⟨_, sizes, afterSizes⟩ := evaluate_bind_eq_ok.mp succeeds
  obtain ⟨signed, signs, afterSigned⟩ := evaluate_bind_eq_ok.mp afterSizes
  obtain ⟨locked, locks, afterLocked⟩ := evaluate_bind_eq_ok.mp afterSigned
  obtain ⟨final, ends, accepts⟩ := evaluate_bind_eq_ok.mp afterLocked
  obtain ⟨next, accepted⟩ := evaluate_discard_eq_ok_iff.mp accepts
  obtain ⟨opcodes, items, parses, pushes, -⟩ := pushes_of_executeUnlessEmpty signs
  obtain ⟨signBound, signElsewhere⟩ := metered_executeUnlessEmpty signatureScript true _ _ signs
  rw [parses, dilithiumOps_of_pushes pushes, Nat.le_zero] at signBound
  obtain ⟨lockBound, savedBound, within, meteredLock, meteredSaved⟩ :=
    metered_executeSaved script signs
  obtain ⟨lockUsed, lockElsewhere⟩ := meteredLock _ _ locks
  obtain ⟨savedUsed, savedElsewhere⟩ := meteredSaved _ _ ends
  rw [evaluate_ofResult] at sizes
  have asksNothing : ∀ computation : ScriptResult EngineState,
      (discard (ofResult computation) : EngineProgram Unit).run.queries verify = [] := by
    intro computation
    cases computation <;> rfl
  rw [queries_bind_of_ok (by rwa [evaluate_ofResult]), queries_bind_of_ok signs,
    queries_bind_of_ok locks, queries_bind_of_ok ends, queries_ofResult, asksNothing]
  simp only [nil_append, append_nil, length_append, signBound, Nat.zero_add]
  refine ⟨by omega, fun other enough => ?_⟩
  obtain ⟨afterSign, usedSign, signsOther⟩ := signElsewhere (.new other) (by omega)
  have startsFull : (RuntimeSigOpCounter.new other).remaining.toNat = other.toNat := rfl
  obtain ⟨afterLock, usedLock, locksOther⟩ := lockElsewhere afterSign (by omega)
  obtain ⟨afterSaved, -, endsOther⟩ := savedElsewhere afterLock (by omega)
  refine evaluate_bind_eq_ok.mpr ⟨(), sizes, evaluate_bind_eq_ok.mpr
    ⟨_, signsOther, evaluate_bind_eq_ok.mpr ⟨_, locksOther,
      evaluate_bind_eq_ok.mpr ⟨_, endsOther, ?_⟩⟩⟩⟩
  refine evaluate_discard_eq_ok_iff.mpr ⟨next.withCounter afterSaved, ?_⟩
  rw [counterFree_checkErrorCondition, accepted]
  rfl

/-- Runs an input with another limit on its signature checks. -/
def executeWithLimit (hashers : Hashers) (populated : PopulatedTransaction)
    (index : Fin populated.tx.inputs.length) (entry : UtxoEntry)
    (limit : UInt8) : EngineProgram Unit :=
  if entry.scriptPublicKey.version > maxEngineScriptVersion then
    return ()
  else
    executeInput hashers (.txInput populated index entry)
      (populated.tx.inputs.get index).signatureScript entry.scriptPublicKey.script limit

/-- The run asks for no more checks than the static bound says, and succeeds
under any limit that allows the bound. -/
def WithinStaticBound (hashers : Hashers) (verify : SigCheck → Bool)
    (populated : PopulatedTransaction) (index : Fin populated.tx.inputs.length)
    (entry : UtxoEntry) : Prop :=
  let bound := getSigOpCountUpperBound (populated.tx.inputs.get index).signatureScript
    entry.scriptPublicKey.script
  ((execute hashers (.txInput populated index entry)).run.queries verify).length ≤ bound ∧
    ∀ limit : UInt8, bound ≤ limit.toNat →
      (executeWithLimit hashers populated index entry limit).run.evaluate verify = .ok ()

/-- A run that succeeds checks at most as many signatures as the counted
scripts hold `OpCheckSigDilithium`, and succeeds under any limit that allows
its checks. -/
theorem execute_metered {populated : PopulatedTransaction}
    {index : Fin populated.tx.inputs.length} {entry : UtxoEntry}
    (succeeds : (execute hashers (.txInput populated index entry)).run.evaluate verify = .ok ()) :
    ((execute hashers (.txInput populated index entry)).run.queries verify).length ≤
        dilithiumOps (countedOpcodes (populated.tx.inputs.get index).signatureScript
          entry.scriptPublicKey.script) ∧
      ∀ limit : UInt8, ((execute hashers (.txInput populated index entry)).run.queries
          verify).length ≤ limit.toNat →
        (executeWithLimit hashers populated index entry limit).run.evaluate verify = .ok () := by
  by_cases anyone : entry.scriptPublicKey.version > maxEngineScriptVersion
  · have accepts : execute hashers (.txInput populated index entry) = return () := if_pos anyone
    have accepts' : ∀ limit, executeWithLimit hashers populated index entry limit = return () :=
      fun _ => if_pos anyone
    simp only [accepts, accepts']
    exact ⟨Nat.zero_le _, fun _ _ => rfl⟩
  · have runs : execute hashers (.txInput populated index entry) =
        executeInput hashers (.txInput populated index entry)
          (populated.tx.inputs.get index).signatureScript entry.scriptPublicKey.script
          (populated.tx.inputs.get index).sigOpCount :=
      if_neg anyone
    have runs' : ∀ limit, executeWithLimit hashers populated index entry limit =
        executeInput hashers (.txInput populated index entry)
          (populated.tx.inputs.get index).signatureScript entry.scriptPublicKey.script limit :=
      fun _ => if_neg anyone
    rw [runs] at succeeds
    simp only [runs, runs']
    exact executeInput_metered succeeds

/-- A spend of an output locked by the key alone, whose script also holds a
disabled signature opcode in a branch that is never taken. -/
def branchSpend : PopulatedTransaction where
  tx := {
    version := 0
    inputs := [{
      previousOutpoint := {
        transactionId := FixedBytes.replicate 32 17
        index := 0
      }
      signatureScript := pushData2 (paidSignature ++ [1])
      sequence := 0
      sigOpCount := 1
    }]
    outputs := []
    lockTime := 0
    subnetworkId := subnetworkIdNative
    gas := 0
    payload := []
    mass := 0
  }
  entries := [{
    amount := 1000
    scriptPublicKey := {
      version := 0
      script := [0x00, 0x63, 0xac, 0x68] ++ dilithiumRedeemScript paidKey
    }
    blockDaaScore := 0
    isCoinbase := false
  }]
  length_entries := rfl

end Sophis
