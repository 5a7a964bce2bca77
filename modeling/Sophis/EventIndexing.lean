import Sophis.GasAccounting

namespace Sophis

open ByteCodec Function List MachineWord MeteredProgram Option

/-!
# From an execution to the event log

Approved executions put their events into a collector that is shared by all
validations and lives in memory (`check_contract_input`). The commit of a
chain block takes them out for the transactions it accepts, gives them their
place on the chain and indexes them under the block
(`drain_events_collector_for_block`, `index_events_in_block`,
`DbEventStore::index_events`).
-/

/-- The events of transactions that no chain block has accepted yet. -/
abbrev EventsCollector := AList fun _ : TransactionId => List BufferedEvent

/-- Keeps the events of an approved execution in the place of what is there
for the transaction. -/
def EventsCollector.collect (collector : EventsCollector)
    (id : TransactionId) (events : List BufferedEvent) : EventsCollector :=
  if events.isEmpty then collector else collector.insert id events

/-- The events of an execution that approves. -/
def SvmMachine.emitted (machine : SvmMachine) (hashers : Hashers)
    (context : SvmContext) (populated : PopulatedTransaction)
    (povDaaScore : UInt64) (run : SvmRun) : List BufferedEvent :=
  match machine.execution hashers context populated povDaaScore
    (limited machine.gasConfig.maxGasPerTx) run with
  | some (.ok 1, account) => account.world
  | _ => []

section

def maxEventsPerBlock : Nat := 1024

/-- An accepted transaction and its position in the block. -/
structure AcceptedTxEntry where
  transactionId : TransactionId
  indexWithinBlock : UInt32
  deriving Repr, DecidableEq

/-- An event as it is stored. -/
structure EventLog where
  contractId : ContractId
  topics : List EventTopic
  data : List UInt8
  blockHash : Hash
  txId : TransactionId
  txIndex : UInt32
  logIndex : UInt32
  daaScore : UInt64
  deriving Repr, DecidableEq

variable (blockHash : Hash) (daaScore : UInt64)

def EventLog.promote (position : Nat) (event : AcceptedTxEntry × BufferedEvent) : EventLog where
  contractId := event.2.contractId
  topics := event.2.topics
  data := event.2.data
  blockHash := blockHash
  txId := event.1.transactionId
  txIndex := event.1.indexWithinBlock
  logIndex := UInt32.ofNat position
  daaScore := daaScore

/-- Appends the events of one transaction, and says whether the cap of the
block was in the way. -/
def drainBuffered (accepted : AcceptedTxEntry) :
    List EventLog → List BufferedEvent → List EventLog × Bool
  | logs, [] => (logs, false)
  | logs, event :: rest =>
    if logs.length ≥ maxEventsPerBlock then (logs, true)
    else
      drainBuffered accepted (logs ++ [.promote blockHash daaScore logs.length
        (accepted, event)]) rest

/-- Takes the events of accepted transactions out of the collector, until the
cap is reached. -/
def drainAccepted : EventsCollector → List EventLog → List AcceptedTxEntry →
    EventsCollector × List EventLog
  | collector, logs, [] => (collector, logs)
  | collector, logs, accepted :: rest =>
    match collector.lookup accepted.transactionId with
    | none => drainAccepted collector logs rest
    | some buffered =>
      let drained := drainBuffered blockHash daaScore accepted logs buffered
      let remaining := collector.erase accepted.transactionId
      if drained.2 then (remaining, drained.1)
      else drainAccepted remaining drained.1 rest

def drainEventsCollectorForBlock (collector : EventsCollector) (acceptance : List AcceptedTxEntry) :
    EventsCollector × List EventLog :=
  drainAccepted blockHash daaScore collector [] acceptance

def placed (position : Nat) (events : List (AcceptedTxEntry × BufferedEvent)) : List EventLog :=
  (events.zipIdx position).map fun event => .promote blockHash daaScore event.2 event.1

/-- The events of the accepted transactions, each transaction once and in the
order of acceptance. -/
def acceptedEvents : (TransactionId → List BufferedEvent) → List AcceptedTxEntry →
    List (AcceptedTxEntry × BufferedEvent)
  | _, [] => []
  | emission, accepted :: rest =>
    (emission accepted.transactionId).map (Prod.mk accepted) ++ acceptedEvents
      (update emission accepted.transactionId []) rest

variable {blockHash daaScore}

@[simp] theorem placed_nil (pos : Nat) : placed blockHash daaScore pos [] = [] :=
  rfl

@[simp] theorem placed_cons (pos : Nat) (event : AcceptedTxEntry × BufferedEvent)
    (events : List (AcceptedTxEntry × BufferedEvent)) :
    placed blockHash daaScore pos (event :: events) =
      .promote blockHash daaScore pos event ::
        placed blockHash daaScore (pos + 1) events := by
  simp [placed]

theorem placed_append (pos : Nat) (first second : List (AcceptedTxEntry × BufferedEvent)) :
    placed blockHash daaScore pos (first ++ second) =
      placed blockHash daaScore pos first ++
        placed blockHash daaScore (pos + first.length) second := by
  simp [placed, zipIdx_append]

variable {logs : List EventLog}

theorem drainBuffered_eq {ok : AcceptedTxEntry} (room : logs.length ≤ maxEventsPerBlock)
    (buffered : List BufferedEvent) :
    drainBuffered blockHash daaScore ok logs buffered =
      ((logs ++ placed blockHash daaScore logs.length
          (buffered.map (Prod.mk ok))).take maxEventsPerBlock,
        decide (maxEventsPerBlock < logs.length + buffered.length)) := by
  induction buffered generalizing logs with
  | nil =>
    rw [drainBuffered, map_nil, placed_nil, append_nil, take_of_length_le room]
    simp [room]
  | cons event rest ih =>
    rw [drainBuffered, map_cons, placed_cons]
    by_cases reached : logs.length ≥ maxEventsPerBlock
    · rw [if_pos reached, take_append_of_le_length (by omega), take_of_length_le room]
      have exceeds : maxEventsPerBlock < logs.length + (event :: rest).length := by
        simp only [length_cons]
        omega
      rw [decide_eq_true exceeds]
    · rw [if_neg reached]
      have longer : (logs ++ [EventLog.promote blockHash daaScore logs.length
          (ok, event)]).length = logs.length + 1 := by
        simp
      rw [ih (by omega), longer, append_assoc, singleton_append, length_cons, Nat.add_assoc,
        Nat.add_comm 1]

theorem drainAccepted_logs {collector : EventsCollector} (room : logs.length ≤ maxEventsPerBlock)
    (acceptance : List AcceptedTxEntry) :
    (drainAccepted blockHash daaScore collector logs acceptance).2 =
      (logs ++ placed blockHash daaScore logs.length
        (acceptedEvents (fun id => (collector.lookup id).getD [])
          acceptance)).take maxEventsPerBlock := by
  induction acceptance generalizing collector logs with
  | nil =>
    rw [drainAccepted, acceptedEvents, placed_nil, append_nil, take_of_length_le room]
  | cons accepted rest ih =>
    have erased : (fun id => ((collector.erase accepted.transactionId).lookup id).getD []) =
        update (fun id => (collector.lookup id).getD []) accepted.transactionId [] := by
      funext id
      by_cases eq : id = accepted.transactionId
      · subst eq
        simp
      · simp [AList.lookup_erase_ne eq, eq]
    rw [drainAccepted, acceptedEvents]
    cases got : collector.lookup accepted.transactionId with
    | none =>
      have unchanged : update (fun id => (collector.lookup id).getD []) accepted.transactionId [] =
          fun id => (collector.lookup id).getD [] := by
        rw [update_eq_self_iff, got, getD_none]
      rw [ih room, unchanged]
      simp
    | some buffered =>
      have longer : (logs ++ placed blockHash daaScore logs.length
          (buffered.map (Prod.mk accepted))).length =
          logs.length + buffered.length := by
        simp [placed]
      dsimp only
      rw [drainBuffered_eq room, getD_some, placed_append, ← append_assoc, length_map, ← longer]
      generalize logs ++ placed blockHash daaScore logs.length _ = extended
      by_cases full : maxEventsPerBlock < extended.length
      · rw [if_pos (by simpa using full), take_append_of_le_length (by omega)]
      · simp only [full, decide_false, Bool.false_eq_true, if_false,
          take_of_length_le (Nat.not_lt.mp full)]
        rw [ih (by omega), erased]

variable {emission : TransactionId → List BufferedEvent}

theorem acceptedEvents_eq_nil (nothing : ∀ id, emission id = [])
    (acceptance : List AcceptedTxEntry) :
    acceptedEvents emission acceptance = [] := by
  induction acceptance generalizing emission with
  | nil => rfl
  | cons accepted rest ih =>
    have eq : update emission accepted.transactionId [] = emission := by
      rw [update_eq_self_iff, nothing]
    rw [acceptedEvents, nothing, eq, ih nothing]
    rfl

variable {acceptance : List AcceptedTxEntry} {id : TransactionId}

theorem filter_acceptedEvents : ((acceptedEvents emission acceptance).filter
      fun event => event.1.transactionId = id).map Prod.snd =
    if id ∈ acceptance.map AcceptedTxEntry.transactionId then emission id else [] := by
  induction acceptance generalizing emission with
  | nil => rfl
  | cons accepted rest ih =>
    rw [acceptedEvents, filter_append, map_append, ih]
    by_cases eq : accepted.transactionId = id
    · subst eq
      simp [List.filter_map, comp_def]
    · rw [update_of_ne (Ne.symm eq)]
      simp [List.filter_map, comp_def, eq, Ne.symm eq]

end

section

/-- One validation of a transaction, for the mempool or for a block, as far as
it got: the executions that finished, in the order in which they did. -/
structure ValidationPass where
  context : SvmContext
  populated : PopulatedTransaction
  povDaaScore : UInt64
  finished : List SvmRun
  finished_subperm : finished.Subperm populated.svmRuns

/-- A chain block with what it accepted. -/
structure CommittedBlock where
  hash : Hash
  headerDaaScore : Option UInt64
  acceptance : List (List AcceptedTxEntry)
  deriving Repr, DecidableEq

def CommittedBlock.accepted (block : CommittedBlock) : List AcceptedTxEntry :=
  block.acceptance.flatten

def CommittedBlock.acceptedIds (block : CommittedBlock) : List TransactionId :=
  block.accepted.map AcceptedTxEntry.transactionId

def CommittedBlock.daaScore (block : CommittedBlock) : UInt64 := block.headerDaaScore.getD 0

/-- The collector, which is lost with the process, and the index of event logs
by block, which is not. A block without a row has no logs. -/
structure EventNode where
  collector : EventsCollector
  byBlock : Hash → List EventLog

def EventNode.initial : EventNode := ⟨∅, fun _ => []⟩

def indexEvents (byBlock : Hash → List EventLog) (blockHash : Hash)
    (events : List EventLog) : Hash → List EventLog :=
  if events.isEmpty then byBlock
  else update byBlock blockHash events

def EventNode.indexEventsInBlock (node : EventNode) (block : CommittedBlock) : EventNode :=
  if node.collector.entries.isEmpty then node
  else
    let drained := drainEventsCollectorForBlock block.hash block.daaScore
      node.collector block.accepted
    ⟨drained.1, indexEvents node.byBlock block.hash drained.2⟩

/-- A validation, a restart or a commit. -/
inductive EventStep where
  | validate (pass : ValidationPass)
  | restart
  | commit (block : CommittedBlock)

variable (machine : SvmMachine) (hashers : Hashers)

def ValidationPass.id (pass : ValidationPass) : TransactionId := pass.populated.tx.id hashers

/-- The events of the finished executions of a validation, one list for each
that has any. -/
def ValidationPass.emissions (pass : ValidationPass) : List (List BufferedEvent) :=
  (pass.finished.map (machine.emitted hashers pass.context pass.populated
    pass.povDaaScore)).filter (· ≠ [])

/-- Only the check of a contract input collects; policies have nothing that
could be collected (`SvmMachine.emitted_ofPolicy`). -/
def ValidationPass.collect (pass : ValidationPass)
    (collector : EventsCollector) : EventsCollector :=
  (pass.finished.map (machine.emitted hashers pass.context pass.populated pass.povDaaScore)).foldl
    (fun current => current.collect (pass.id hashers)) collector

def EventNode.step (node : EventNode) : EventStep → EventNode
  | .validate pass => { node with collector := pass.collect machine hashers node.collector }
  | .restart => { node with collector := ∅ }
  | .commit block => node.indexEventsInBlock block

def EventNode.run (node : EventNode) (history : List EventStep) : EventNode :=
  history.foldl (EventNode.step machine hashers) node

/-- The step may remove what is collected for a transaction. -/
def EventStep.Clears (id : TransactionId) : EventStep → Prop
  | .validate _ => False
  | .restart => True
  | .commit block => id ∈ block.acceptedIds

/-- In each of its validations a transaction emits the same events from one
execution, or none; and it was validated after the last step that could have
removed them. -/
structure Steady (emission : TransactionId → List BufferedEvent)
    (history : List EventStep) (id : TransactionId) : Prop where
  uniform : ∀ pass, .validate pass ∈ history → pass.id hashers = id →
    pass.emissions machine hashers = [] ∨ pass.emissions machine hashers = [emission id]
  executed : emission id ≠ [] → ∃ before pass after, history = before ++ .validate pass :: after ∧
    pass.id hashers = id ∧
    pass.emissions machine hashers = [emission id] ∧
    ∀ step ∈ after, ¬ step.Clears id

end

variable {machine : SvmMachine} {hashers : Hashers} {id : TransactionId}

theorem lookup_foldl_collect (id : TransactionId) (events : List (List BufferedEvent))
    (collector : EventsCollector) :
    (events.foldl (fun current => current.collect id) collector).lookup id =
      (events.filter (· ≠ [])).getLast?.or (collector.lookup id) := by
  induction events generalizing collector with
  | nil => simp
  | cons first rest ih =>
    rw [foldl_cons, ih, EventsCollector.collect]
    cases first with
    | nil => simp
    | cons event others => simp [AList.lookup_insert, getLast?_cons]

theorem lookup_foldl_collect_of_ne {other : TransactionId} (ne : other ≠ id)
    (events : List (List BufferedEvent)) (collector : EventsCollector) :
    (events.foldl (fun current => current.collect id)
      collector).lookup other = collector.lookup other := by
  induction events generalizing collector with
  | nil => rfl
  | cons first rest ih =>
    rw [foldl_cons, ih, EventsCollector.collect]
    split
    · rfl
    · exact AList.lookup_insert_ne ne

theorem lookup_drainAccepted (blockHash : Hash) (daaScore : UInt64) (collector : EventsCollector)
    (logs : List EventLog) (acceptance : List AcceptedTxEntry) :
    (drainAccepted blockHash daaScore collector logs acceptance).1.lookup id = collector.lookup id ∨
      (id ∈ acceptance.map AcceptedTxEntry.transactionId ∧
        (drainAccepted blockHash daaScore collector logs acceptance).1.lookup id = none) := by
  induction acceptance generalizing collector logs with
  | nil => exact .inl rfl
  | cons accepted rest ih =>
    have erased : (collector.erase accepted.transactionId).lookup id = collector.lookup id ∨
        (id = accepted.transactionId ∧
          (collector.erase accepted.transactionId).lookup id = none) := by
      by_cases eq : id = accepted.transactionId
      · subst eq
        exact .inr ⟨rfl, AList.lookup_erase _ _⟩
      · exact .inl (AList.lookup_erase_ne eq)
    rw [drainAccepted, map_cons, mem_cons]
    cases collector.lookup accepted.transactionId with
    | none => exact (ih collector logs).imp_right fun removed => ⟨.inr removed.1, removed.2⟩
    | some buffered =>
      dsimp only
      split
      · exact erased.imp_right fun removed => ⟨.inl removed.1, removed.2⟩
      · rcases ih (collector.erase accepted.transactionId) _ with kept | removed
        · rw [kept]
          exact erased.imp_right fun removed => ⟨.inl removed.1, removed.2⟩
        · exact .inr ⟨.inr removed.1, removed.2⟩

theorem EventNode.lookup_step (node : EventNode) (step : EventStep) :
    (node.step machine hashers step).collector.lookup id = node.collector.lookup id ∨
      (step.Clears id ∧ (node.step machine hashers step).collector.lookup id = none) ∨
      ∃ pass events, step = .validate pass ∧ pass.id hashers = id ∧
        (pass.emissions machine hashers).getLast? = some events ∧
        (node.step machine hashers step).collector.lookup id = some events := by
  cases step with
  | validate pass =>
    by_cases eq : pass.id hashers = id
    · subst eq
      have collected := lookup_foldl_collect (pass.id hashers)
        (pass.finished.map (machine.emitted hashers pass.context
          pass.populated pass.povDaaScore)) node.collector
      rw [← ValidationPass.emissions, ← ValidationPass.collect] at collected
      cases last : (pass.emissions machine hashers).getLast? with
      | none =>
        rw [last, none_or] at collected
        exact .inl collected
      | some events =>
        rw [last, some_or] at collected
        exact .inr (.inr ⟨pass, events, rfl, rfl, last, collected⟩)
    · exact .inl (lookup_foldl_collect_of_ne (Ne.symm eq) _ _)
  | restart => exact .inr (.inl ⟨trivial, rfl⟩)
  | commit block =>
    unfold step indexEventsInBlock
    dsimp only
    split
    · exact .inl rfl
    · exact (lookup_drainAccepted _ _ _ _ _).imp_right .inl

section

variable {emission : TransactionId → List BufferedEvent}

variable {history : List EventStep}

/-- What a history leaves for a transaction that it always executes alike. -/
theorem EventNode.lookup_run (uniform : ∀ pass, .validate pass ∈ history → pass.id hashers = id →
      pass.emissions machine hashers = [] ∨ pass.emissions machine hashers = [emission id])
    (node : EventNode) :
    (node.run machine hashers history).collector.lookup id = node.collector.lookup id ∨
      ((∃ step ∈ history, step.Clears id) ∧
        (node.run machine hashers history).collector.lookup id = none) ∨
      (node.run machine hashers history).collector.lookup id = some (emission id) := by
  induction history generalizing node with
  | nil => exact .inl rfl
  | cons step rest ih =>
    rcases ih (fun pass mem => uniform pass (mem_cons_of_mem _ mem))
      (node.step machine hashers step) with unchanged | ⟨⟨later, listed, clears⟩, removed⟩ | emitted
    · rcases node.lookup_step step with kept | ⟨clears, removed⟩ |
        ⟨pass, last, rfl, eq, isLast, collected⟩
      · exact .inl (unchanged.trans kept)
      · exact .inr (.inl ⟨⟨step, mem_cons_self, clears⟩, unchanged.trans removed⟩)
      · rcases uniform pass mem_cons_self eq with none | sole
        · cases none ▸ isLast
        cases sole ▸ isLast
        exact .inr (.inr (unchanged.trans collected))
    · exact .inr (.inl ⟨⟨later, mem_cons_of_mem _ listed, clears⟩, removed⟩)
    · exact .inr (.inr emitted)

open EventNode

theorem Steady.collected (steady : Steady machine hashers emission history id) :
    ((initial.run machine hashers history).collector.lookup
      id).getD [] = emission id := by
  by_cases nothing : emission id = []
  · rcases lookup_run steady.uniform .initial with unchanged | ⟨-, removed⟩ | collected
    · rw [unchanged, nothing]
      rfl
    · rw [removed, nothing]
      rfl
    · rw [collected, getD_some]
  · obtain ⟨before, pass, after, rfl, eq, emitted, untouched⟩ := steady.executed nothing
    have there : (initial.run machine hashers (before ++ [.validate pass])).collector.lookup id =
        some (emission id) := by
      rw [run, foldl_append, foldl_cons, foldl_nil]
      subst eq
      have folded := lookup_foldl_collect (pass.id hashers)
        (pass.finished.map (machine.emitted hashers pass.context pass.populated pass.povDaaScore))
        (before.foldl (step machine hashers) .initial).collector
      rw [← ValidationPass.emissions, emitted] at folded
      exact folded
    rw [run, ← singleton_append, ← append_assoc, foldl_append, ← run, ← run]
    rcases lookup_run (fun pass mem => steady.uniform pass
        (mem_append_right _ (mem_cons_of_mem _ mem))) _ with
      unchanged | ⟨⟨step, listed, clears⟩, -⟩ | collected
    · rw [unchanged, there, getD_some]
    · exact absurd clears (untouched step listed)
    · rw [collected, getD_some]

theorem acceptedEvents_congr {first second : TransactionId → List BufferedEvent}
    {acceptance : List AcceptedTxEntry}
    (agree : ∀ id ∈ acceptance.map AcceptedTxEntry.transactionId, first id = second id) :
    acceptedEvents first acceptance = acceptedEvents second acceptance := by
  induction acceptance generalizing first second with
  | nil => rfl
  | cons accepted rest ih =>
    rw [acceptedEvents, acceptedEvents, agree _ mem_cons_self]
    congr 1
    apply ih
    intro id mem
    by_cases eq : id = accepted.transactionId
    · subst eq
      simp
    · rw [update_of_ne eq, update_of_ne eq]
      exact agree id (mem_cons_of_mem _ mem)

theorem EventNode.byBlock_run {hash : Hash}
    (uncommitted : ∀ block, .commit block ∈ history → block.hash ≠ hash) (node : EventNode) :
    (node.run machine hashers history).byBlock hash = node.byBlock hash := by
  induction history generalizing node with
  | nil => rfl
  | cons step rest ih =>
    rw [run, foldl_cons, ← run, ih fun block mem => uncommitted block (mem_cons_of_mem _ mem)]
    cases step with
    | validate | restart => rfl
    | commit block =>
      have ne := uncommitted block mem_cons_self
      unfold step indexEventsInBlock indexEvents
      dsimp only
      split
      · rfl
      · dsimp only
        split
        · rfl
        · exact update_of_ne ne.symm _ _

theorem EventNode.byBlock_indexEventsInBlock {node : EventNode} {block : CommittedBlock}
    (absent : node.byBlock block.hash = []) :
    (node.indexEventsInBlock block).byBlock block.hash = (placed block.hash block.daaScore 0
      (acceptedEvents (fun id => (node.collector.lookup id).getD [])
        block.accepted)).take maxEventsPerBlock := by
  unfold indexEventsInBlock
  split
  · rename_i empty
    have nothing : node.collector = ∅ := AList.ext (List.isEmpty_iff.mp empty)
    rw [absent, acceptedEvents_eq_nil fun id => by simp [nothing]]
    rfl
  · have start : ([] : List EventLog).length ≤ maxEventsPerBlock := Nat.zero_le _
    refine .trans ?_ (drainAccepted_logs start block.accepted)
    dsimp only
    unfold indexEvents
    split
    · rename_i empty
      exact absent.trans (List.isEmpty_iff.mp empty).symm
    · exact update_self _ _ _

/-- The log indexed for a block lists the events of its steady transactions,
in the order of acceptance and emission and numbered, up to the cap of a
block; and each transaction has its events there once. -/
theorem eventLog_of_steady (machine : SvmMachine) (hashers : Hashers) (history : List EventStep)
    (block : CommittedBlock)
    (uncommitted : ∀ other, .commit other ∈ history → other.hash ≠ block.hash)
    (emission : TransactionId → List BufferedEvent)
    (steady : ∀ id ∈ block.acceptedIds, Steady machine hashers emission history id) :
    ((EventNode.initial.run machine hashers history).step machine hashers
        (.commit block)).byBlock block.hash =
      (placed block.hash block.daaScore 0
        (acceptedEvents emission block.accepted)).take maxEventsPerBlock ∧
    ∀ id ∈ block.acceptedIds, ((acceptedEvents emission block.accepted).filter
        fun event => event.1.transactionId = id).map Prod.snd =
      emission id := by
  refine ⟨?_, fun id mem => filter_acceptedEvents.trans (if_pos mem)⟩
  have collected := acceptedEvents_congr fun id mem => (steady id mem).collected
  have absent : (initial.run machine hashers history).byBlock block.hash = [] :=
    byBlock_run uncommitted .initial
  rw [← collected]
  exact byBlock_indexEventsInBlock absent

end

/-!
Contracts that may emit events, and transactions that spend outputs of some of
them.
-/

/-- Emits a number of events without topics and data, and approves. -/
def emittingGuest : Nat → Guest
  | 0 => .finish 1
  | count + 1 => .call (some [0, 0, 0, 0, 0], .sophisEmitEvent 0 5) fun _ => emittingGuest count

def emitterHashers : Hashers := { Hashers.zero with transactionIdHash := fingerprint }

def emitterId (number : Nat) : ContractId := FixedBytes.replicate 32 (UInt8.ofNat number)

def emitterContract (number : Nat) : ScriptPublicKey where
  version := scriptVersionContract
  script := (emitterId number).bytes ++ leBytes 4 0 ++
    (emitterId number).bytes ++ [0] ++ leBytes 4 1 ++ [9]

def emitterSpend (lockTime : UInt64) (contracts : List Nat) : PopulatedTransaction where
  tx := {
    version := txVersion
    inputs := contracts.map fun number => ⟨⟨zeroHash, UInt32.ofNat number⟩, [], 0, 0⟩
    outputs := [⟨36999000, ⟨0, [0x51]⟩⟩]
    lockTime
    subnetworkId := subnetworkIdNative
    gas := 0
    payload := []
    mass := 0 }
  entries := contracts.map fun number => ⟨37000000, emitterContract number, 1, false⟩
  length_entries := by simp

/-- A complete validation whose executions finish in the order of the
inputs. -/
def emitterPass (lockTime : UInt64) (contracts : List Nat) : ValidationPass where
  context := { proofContext with store := fun _ => some [0, 97, 115, 109] }
  populated := emitterSpend lockTime contracts
  povDaaScore := 10
  finished := (emitterSpend lockTime contracts).svmRuns
  finished_subperm := List.Subperm.refl _

/-- The same with the executions finishing the other way round. -/
def emitterPassReversed (lockTime : UInt64) (contracts : List Nat) : ValidationPass :=
  { emitterPass lockTime contracts with
    finished := (emitterSpend lockTime contracts).svmRuns.reverse
    finished_subperm := (reverse_perm _).subperm }

def emitterBlock (passes : List ValidationPass) : CommittedBlock where
  hash := FixedBytes.replicate 32 1
  headerDaaScore := some 10
  acceptance := [passes.map fun pass => ⟨pass.id emitterHashers, 1⟩]

def emitterVerdict (count : Nat) (pass : ValidationPass) : Except (Failure TxRuleError) UInt64 :=
  (validatePopulatedTransactionAndGetFee (mainnetParams.contextualValidator emitterHashers
      (some (pass.context.drivenBy (machineOf (emittingGuest count)))))
    .inOrder pass.populated pass.povDaaScore .full none).run.evaluate
    fun _ => false

def emitterNode (count : Nat) (history : List EventStep) : EventNode :=
  EventNode.initial.run (machineOf (emittingGuest count)) emitterHashers history

def emitterLog (count : Nat) (history : List EventStep)
    (passes : List ValidationPass) : List EventLog :=
  ((emitterNode count history).step (machineOf (emittingGuest count))
    emitterHashers (.commit (emitterBlock passes))).byBlock (emitterBlock passes).hash

/-- A transaction validated for the mempool, and after a restart for a block,
has its event in the log. -/
theorem emitterLog_after_restart : emitterVerdict 1 (emitterPass 0 [1]) = .ok 1000 ∧
    (emitterLog 1 [.validate (emitterPass 0 [1]), .restart,
      .validate (emitterPass 0 [1])] [emitterPass 0 [1]]).length = 1 := by
  have steady : ∀ id ∈ (emitterBlock [emitterPass 0 [1]]).acceptedIds,
      Steady (machineOf (emittingGuest 1)) emitterHashers (fun _ => [⟨emitterId 1, [], []⟩])
        [.validate (emitterPass 0 [1]), .restart, .validate (emitterPass 0 [1])] id := by
    intro id mem
    cases mem_singleton.mp mem
    refine ⟨fun pass listed _ => ?_, fun _ => ⟨[.validate (emitterPass 0 [1]),
      .restart], emitterPass 0 [1], [], rfl, rfl, by decide +kernel,
      fun _ listed => nomatch listed⟩⟩
    have eq : pass = emitterPass 0 [1] := by simpa using listed
    subst eq
    exact .inr (by decide +kernel)
  have indexed := (eventLog_of_steady (machineOf (emittingGuest 1))
    emitterHashers [.validate (emitterPass 0 [1]), .restart,
      .validate (emitterPass 0 [1])] (emitterBlock [emitterPass 0 [1]])
    (fun other listed => by simp at listed) _ steady).1
  refine ⟨by decide +kernel, ?_⟩
  unfold emitterLog emitterNode
  rw [indexed]
  decide +kernel

/-- Thirty-three transactions that emit as much as they may. -/
def busyPasses : List ValidationPass :=
  (List.range 33).map fun number => emitterPass (UInt64.ofNat number) [1]

/-- The log of a block is cut, the contracts of one transaction overwrite the
events of each other in the order in which they finish, and a restart loses
events. -/
theorem eventLogs_incomplete :
    ((busyPasses.all fun pass => emitterVerdict 32 pass = .ok 1000) = true ∧
      (busyPasses.map fun pass =>
        (pass.emissions (machineOf (emittingGuest 32)) emitterHashers).flatten.length).sum = 1056 ∧
      (emitterLog 32 (busyPasses.map .validate) busyPasses).length ≤ 1024) ∧
    (emitterVerdict 1 (emitterPass 0 [1, 2]) = .ok 37001000 ∧
      (emitterLog 1 [.validate (emitterPass 0 [1, 2])]
        [emitterPass 0 [1, 2]]).map EventLog.contractId = [emitterId 2] ∧
      (emitterLog 1 [.validate (emitterPassReversed 0 [1, 2])]
        [emitterPass 0 [1, 2]]).map EventLog.contractId = [emitterId 1]) ∧
    emitterLog 1 [.validate (emitterPass 0 [1]), .restart] [emitterPass 0 [1]] = [] := by
  refine ⟨⟨by decide +kernel, by decide +kernel, ?_⟩, by decide +kernel, by decide +kernel⟩
  have absent : (emitterNode 32 (busyPasses.map .validate)).byBlock
      (emitterBlock busyPasses).hash = [] := by
    apply EventNode.byBlock_run
    intro block listed
    simp at listed
  unfold emitterLog
  rw [EventNode.step, EventNode.byBlock_indexEventsInBlock absent]
  exact length_take_le _ _

end Sophis
