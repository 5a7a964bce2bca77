import Mathlib.Data.List.Rotate
import Mathlib.Logic.Basic

/-!
# Programs that ask questions

A computation that may consult an outside party is kept as data: it has either
finished, or it asks a question and continues with the answer. The same
program can then be run against a pure answer function, against a stateful
handler such as a cache, or interleaved with other programs.
-/

/-- A program that asks questions and returns a result. -/
inductive OracleProgram (Query Answer Result : Type) where
  | done (result : Result)
  | ask (query : Query) (next : Answer → OracleProgram Query Answer Result)

namespace OracleProgram

open List

variable {Query Answer Result Result' : Type}

/-- Continues with the result of a program. -/
protected def bind : OracleProgram Query Answer Result →
    (Result → OracleProgram Query Answer Result') →
    OracleProgram Query Answer Result'
  | .done result, next => next result
  | .ask query continuation, next => .ask query fun answer => (continuation answer).bind next

instance : Monad (OracleProgram Query Answer) where
  pure := .done
  bind := OracleProgram.bind

def request (query : Query) : OracleProgram Query Answer Answer := .ask query .done

@[simp] theorem pure_eq_done (result : Result) :
    (pure result : OracleProgram Query Answer Result) = .done result :=
  rfl

@[simp] theorem done_bind (result : Result) (next : Result → OracleProgram Query Answer Result') :
    (.done result : OracleProgram Query Answer Result) >>= next = next result :=
  rfl

@[simp] theorem ask_bind (query : Query) (continuation : Answer → OracleProgram Query Answer Result)
    (next : Result → OracleProgram Query Answer Result') :
    .ask query continuation >>= next = .ask query fun answer => continuation answer >>= next :=
  rfl

variable (answer : Query → Answer)

def evaluate : OracleProgram Query Answer Result → Result
  | .done result => result
  | .ask query next => (next (answer query)).evaluate

/-- The questions asked, in order, when a function answers them. -/
def queries : OracleProgram Query Answer Result → List Query
  | .done _ => []
  | .ask query next => query :: (next (answer query)).queries

@[simp] theorem evaluate_done (result : Result) :
    (.done result : OracleProgram Query Answer Result).evaluate answer = result :=
  rfl

@[simp] theorem evaluate_ask (query : Query) (next : Answer → OracleProgram Query Answer Result) :
    (OracleProgram.ask query next).evaluate answer = (next (answer query)).evaluate answer :=
  rfl

@[simp] theorem evaluate_bind (program : OracleProgram Query Answer Result)
    (next : Result → OracleProgram Query Answer Result') :
    (program >>= next).evaluate answer = (next (program.evaluate answer)).evaluate answer := by
  induction program with
  | done result => rfl
  | ask query continuation ih => exact ih (answer query)

@[simp] theorem queries_done (result : Result) :
    (.done result : OracleProgram Query Answer Result).queries answer = [] :=
  rfl

@[simp] theorem queries_bind (program : OracleProgram Query Answer Result)
    (next : Result → OracleProgram Query Answer Result') :
    (program >>= next).queries answer = program.queries answer ++
      (next (program.evaluate answer)).queries answer := by
  induction program with
  | done result => rfl
  | ask query continuation ih => exact congrArg _ (ih (answer query))

variable {State : Type} (handler : State → Query → Answer × State)

/-- Runs a program against a handler that keeps a state between questions. -/
def run : OracleProgram Query Answer Result → State → Result × State
  | .done result, state => (result, state)
  | .ask query next, state => (next (handler state query).1).run (handler state query).2

/-- A handler that answers like a function on every question of the program,
as long as its state keeps an invariant, cannot be told from the function. -/
theorem run_eq_evaluate (invariant : State → Prop) (answer : Query → Answer)
    {program : OracleProgram Query Answer Result}
    (step : ∀ state, invariant state → ∀ query ∈ program.queries answer,
      (handler state query).1 = answer query ∧ invariant (handler state query).2) {state : State}
    (start : invariant state) :
    (program.run handler state).1 = program.evaluate answer ∧
      invariant (program.run handler state).2 := by
  induction program generalizing state with
  | done result => exact ⟨rfl, start⟩
  | ask query next ih =>
    obtain ⟨eq, kept⟩ := step state start query mem_cons_self
    simp only [run, evaluate, eq]
    exact ih (answer query) (fun state good other mem =>
        step state good other (mem_cons_of_mem _ mem))
      kept

/-- Some answers lead the program to this result. -/
inductive MayReturn : OracleProgram Query Answer Result → Result → Prop where
  | done (result : Result) : MayReturn (.done result) result
  | ask {query : Query}
    {next : Answer → OracleProgram Query Answer Result}
    (answer : Answer) {result : Result} :
    MayReturn (next answer) result → MayReturn (.ask query next) result

@[simp] theorem mayReturn_done_iff (result other : Result) :
    (.done result : OracleProgram Query Answer Result).MayReturn other ↔ result = other := by
  constructor
  · rintro ⟨⟩
    rfl
  · rintro rfl
    exact .done result

theorem mayReturn_ask_iff (query : Query) (next : Answer → OracleProgram Query Answer Result)
    (result : Result) :
    (OracleProgram.ask query next).MayReturn result ↔ ∃ answer, (next answer).MayReturn result := by
  constructor
  · intro ran
    cases ran with
    | ask answer inner => exact ⟨answer, inner⟩
  · rintro ⟨answer, inner⟩
    exact .ask answer inner

theorem mayReturn_bind_iff (program : OracleProgram Query Answer Result)
    (next : Result → OracleProgram Query Answer Result') (final : Result') :
    (program >>= next).MayReturn final ↔ ∃ result, program.MayReturn result ∧
      (next result).MayReturn final := by
  induction program with
  | done result => simp
  | ask query continuation ih =>
    simp only [ask_bind, mayReturn_ask_iff, ih]
    constructor
    · rintro ⟨answer, result, first, second⟩
      exact ⟨result, ⟨answer, first⟩, second⟩
    · rintro ⟨result, ⟨answer, first⟩, second⟩
      exact ⟨answer, result, first, second⟩

theorem mayReturn_evaluate (answer : Query → Answer) (program : OracleProgram Query Answer Result) :
    program.MayReturn (program.evaluate answer) := by
  induction program with
  | done result => exact .done result
  | ask query next ih => exact .ask _ (ih _)

section

variable {Error : Type}

/-- Programs that may fail with an error. -/
abbrev Fallible (Query Answer Error : Type) : Type → Type :=
  ExceptT Error (OracleProgram Query Answer)

/-- A computation that asks nothing. -/
def ofResult (computation : Except Error Result) : Fallible Query Answer Error Result :=
  ExceptT.mk (.done computation)

def consult (query : Query) : Fallible Query Answer Error Answer :=
  ExceptT.mk (.ask query fun answer => .done (.ok answer))

def mapFailure {Error' : Type} (translate : Error → Error')
    (program : Fallible Query Answer Error Result) :
    Fallible Query Answer Error' Result :=
  ExceptT.mk do
    let outcome ← program.run
    return outcome.mapError translate

@[simp] theorem evaluate_ofResult (answer : Query → Answer) (computation : Except Error Result) :
    (ofResult computation : Fallible Query Answer Error Result).run.evaluate answer = computation :=
  rfl

@[simp] theorem ofResult_ok_bind (result : Result)
    (next : Result → Fallible Query Answer Error Result') :
    (ofResult (.ok result) : Fallible Query Answer Error Result) >>= next = next result :=
  rfl

@[simp] theorem mayReturn_ofResult_iff (computation outcome : Except Error Result) :
    (ofResult computation : Fallible Query Answer Error Result).run.MayReturn outcome ↔
      computation = outcome :=
  mayReturn_done_iff computation outcome

@[simp] theorem evaluate_pure_fallible (answer : Query → Answer) (result : Result) :
    (pure result : Fallible Query Answer Error Result).run.evaluate answer = .ok result :=
  rfl

@[simp] theorem mayReturn_pure_fallible_iff (result : Result) (outcome : Except Error Result) :
    (pure result : Fallible Query Answer Error Result).run.MayReturn outcome ↔
      .ok result = outcome := by
  rw [ExceptT.run_pure, pure_eq_done, mayReturn_done_iff]

variable {answer : Query → Answer} {program : Fallible Query Answer Error Result}
  {next : Result → Fallible Query Answer Error Result'} {final : Result'}

/-- A sequence succeeds exactly when both parts do. -/
theorem evaluate_bind_eq_ok : (program >>= next).run.evaluate answer = .ok final ↔
    ∃ result, program.run.evaluate answer = .ok result ∧
      (next result).run.evaluate answer = .ok final := by
  rw [ExceptT.run_bind, evaluate_bind]
  cases program.run.evaluate answer with
  | error error => simp
  | ok result => simp

@[simp] theorem queries_ofResult (answer : Query → Answer) (computation : Except Error Result) :
    (ofResult computation : Fallible Query Answer Error Result).run.queries answer = [] :=
  rfl

variable {result : Result}

/-- After a success the questions of the next part follow. -/
theorem queries_bind_of_ok (succeeds : program.run.evaluate answer = .ok result) :
    (program >>= next).run.queries answer =
      program.run.queries answer ++ (next result).run.queries answer := by
  rw [ExceptT.run_bind, queries_bind, succeeds]

/-- A sequence may succeed exactly when both parts may. -/
theorem mayReturn_bind_ok_iff :
    (program >>= next).run.MayReturn (.ok final) ↔ ∃ result, program.run.MayReturn (.ok result) ∧
      (next result).run.MayReturn (.ok final) := by
  rw [ExceptT.run_bind, mayReturn_bind_iff]
  constructor
  · rintro ⟨outcome, first, second⟩
    cases outcome with
    | error error => simp at second
    | ok result => exact ⟨result, first, second⟩
  · rintro ⟨result, first, second⟩
    exact ⟨.ok result, first, second⟩

/-- Translating errors changes no success. -/
theorem evaluate_mapFailure_eq_ok {Error' : Type} {translate : Error → Error'} :
    (mapFailure translate program).run.evaluate answer = .ok result ↔
      program.run.evaluate answer = .ok result := by
  have translated : (mapFailure translate program).run.evaluate answer =
      (program.run.evaluate answer).mapError translate :=
    evaluate_bind answer program.run _
  rw [translated]
  cases program.run.evaluate answer with
  | error | ok => simp [Except.mapError]

end

def sequence : List (OracleProgram Query Answer Result) → OracleProgram Query Answer (List Result)
  | [] => .done []
  | program :: rest => do
    let result ← program
    let results ← sequence rest
    return result :: results

/-- Runs programs concurrently. Each turn of the schedule names the program
that may ask its next question; programs left over when the schedule ends run
one after the other. -/
def interleave : List Nat → List (OracleProgram Query Answer Result) →
    OracleProgram Query Answer (List Result)
  | [], programs => sequence programs
  | turn :: schedule, programs =>
    match programs[turn]? with
    | some (.ask query next) =>
      .ask query fun answer => interleave schedule (programs.set turn (next answer))
    | _ => interleave schedule programs

@[simp] theorem evaluate_sequence (answer : Query → Answer)
    (programs : List (OracleProgram Query Answer Result)) :
    (sequence programs).evaluate answer = programs.map (evaluate answer) := by
  induction programs with
  | nil => rfl
  | cons program rest ih => simp [sequence, ih]

@[simp] theorem evaluate_interleave (answer : Query → Answer) (schedule : List Nat)
    (programs : List (OracleProgram Query Answer Result)) :
    (interleave schedule programs).evaluate answer = programs.map (evaluate answer) := by
  induction schedule generalizing programs with
  | nil => exact evaluate_sequence answer programs
  | cons turn schedule ih =>
    rw [interleave]
    split
    case h_1 query next got =>
      obtain ⟨inRange, isAsk⟩ := List.getElem?_eq_some_iff.mp got
      rw [evaluate_ask, ih, map_set, ← evaluate_ask answer query next, ← isAsk, ← map_set,
        set_getElem_self]
    case h_2 => exact ih programs

variable {Error : Type}

/-- Runs fallible programs in order and stops at the first error. -/
def runEach : List (Fallible Query Answer Error Unit) → Fallible Query Answer Error Unit
  | [] => pure ()
  | program :: rest => do
    program
    runEach rest

def firstError : List (Except Error Unit) → Except Error Unit
  | [] => .ok ()
  | .error error :: _ => .error error
  | .ok () :: rest => firstError rest

/-- Runs fallible programs concurrently. When several fail, the one to be
reported is found by searching from a given position. -/
def runConcurrently (schedule : List Nat) (reported : Nat)
    (programs : List (Fallible Query Answer Error Unit)) :
    Fallible Query Answer Error Unit :=
  ExceptT.mk do
    let outcomes ← interleave schedule (programs.map ExceptT.run)
    return firstError (outcomes.rotate reported)

theorem firstError_eq_ok_iff (outcomes : List (Except Error Unit)) :
    firstError outcomes = .ok () ↔ ∀ outcome ∈ outcomes, outcome = .ok () := by
  induction outcomes with
  | nil => simp [firstError]
  | cons outcome rest ih =>
    cases outcome with
    | error error => simp [firstError]
    | ok value => simp [firstError, ih]

/-- A batch run in order succeeds exactly when each of its programs does. -/
theorem evaluate_runEach_eq_ok_iff (answer : Query → Answer)
    (programs : List (Fallible Query Answer Error Unit)) :
    (runEach programs).run.evaluate answer = .ok () ↔
      ∀ program ∈ programs, program.run.evaluate answer = .ok () := by
  induction programs with
  | nil => simp [runEach]
  | cons program rest ih =>
    rw [runEach, evaluate_bind_eq_ok, forall_mem_cons]
    constructor
    · rintro ⟨⟨⟩, first, others⟩
      exact ⟨first, ih.mp others⟩
    · rintro ⟨first, others⟩
      exact ⟨(), first, ih.mpr others⟩

/-- So does a batch run concurrently, whatever the schedule. -/
theorem evaluate_runConcurrently_eq_ok_iff (answer : Query → Answer) (schedule : List Nat)
    (reported : Nat) (programs : List (Fallible Query Answer Error Unit)) :
    (runConcurrently schedule reported programs).run.evaluate answer = .ok () ↔
      ∀ program ∈ programs, program.run.evaluate answer = .ok () := by
  have outcome : (runConcurrently schedule reported programs).run.evaluate answer = firstError
      ((programs.map fun program => program.run.evaluate answer).rotate reported) := by
    rw [runConcurrently, ExceptT.run_mk, evaluate_bind, evaluate_interleave, List.map_map]
    rfl
  rw [outcome, firstError_eq_ok_iff]
  simp

end OracleProgram
