import Sophis.RollupTransition

namespace Sophis

open ByteCodec ExceptLoop List MachineWord

/-!
# The loop of the sequencer

`run` and `flush_batch` of `rollup/sequencer/src/sequencer.rs` with `drain` of
the mempool. A flush first empties the queue and then does what can fail.

Transactions arrive at any time. After the drain a flush does not look at the
mempool, and an arrival before the drain does not turn a flush into none, so an
arrival during a flush is one before or after it.
-/

/-- What L1 says about the rollup. -/
structure L1RollupSnapshot where
  sequence : UInt64
  stateRoot : StateRoot
  sequencerVk : FixedBytes 1312
  l1BlockHeight : UInt64

/-- The key and the batch size. -/
structure SequencerConfig where
  verificationKey : FixedBytes 1312
  maxBatchTxs : Nat

/-- The errors of a flush, those of the L1 client by the call they come
from. -/
inductive FlushError where
  | snapshotFailed
  | notAuthorized
  | overflow
  | transition (error : SequencerError)
  | serialization
  | signingFailed
  | carrierFailed
  | updateFailed
  deriving DecidableEq

/-- What one round of the loop meets: the clock, the signer and the L1
client. -/
structure SequencerRound where
  timedOut : Bool
  snapshot : Option L1RollupSnapshot
  signed : Bool
  carrierSubmitted : Bool
  stateUpdated : Bool

/-- The state of the sequencer, with the transactions that `push` accepted and
the batches whose state update succeeded. -/
structure SequencerState where
  mempool : Mempool
  currentUtxos : List L2Utxo
  accepted : List L2Tx
  submitted : List (Batch × BatchJournal)

/-- A transaction comes in, or the loop polls. -/
inductive SequencerEvent where
  | push (tx : L2Tx)
  | poll (round : SequencerRound)

variable (crypto : RollupCrypto) (iteration : HashOrder) (config : SequencerConfig)

/-- Takes transactions for a batch out of the queue. -/
def Mempool.drain (pool : Mempool) (max : Nat) : List L2Tx × Mempool :=
  let count := min max pool.queue.length
  let txs := pool.queue.take count
  (txs, ⟨pool.queue.drop count,
    txs.foldl (fun seen tx => seen.filter (· ≠ tx.txid crypto)) pool.seen⟩)

def buildJournal (batch : Batch) (newStateRoot : StateRoot)
    (daBundleId : FixedBytes 48) : BatchJournal where
  sequence := batch.sequence
  prevStateRoot := batch.prevStateRoot
  newStateRoot
  batchHash := batch.hash crypto
  depositCount := UInt32.ofNat batch.deposits.length
  withdrawalCount := UInt32.ofNat batch.withdrawals.length
  withdrawalsHash := hashWithdrawals crypto batch.withdrawals
  l1AnchorBlock := batch.l1AnchorBlock
  daBundleId

/-- What a flush does with the transactions it has drained. -/
def submitDrained (round : SequencerRound) (snapshot : L1RollupSnapshot)
    (utxos : List L2Utxo) (txs : List L2Tx) :
    Except FlushError (Batch × BatchJournal × List L2Utxo) := do
  let sequence ← unwrapOr .overflow (checkedAdd snapshot.sequence 1)
  let batch : Batch := {
    sequence
    l1AnchorBlock := snapshot.l1BlockHeight
    prevStateRoot := snapshot.stateRoot
    txs
    deposits := []
    withdrawals := [] }
  let newUtxos ← (Sequencer.applyBatch crypto iteration batch utxos).mapError .transition
  let newRoot := computeStateRoot crypto newUtxos
  let calldata ← unwrapOr .serialization batch.toBorsh
  let journal := buildJournal crypto batch newRoot (crypto.sha3_384 calldata)
  reject (round.signed = false) .signingFailed
  reject (round.carrierSubmitted = false) .carrierFailed
  reject (round.stateUpdated = false) .updateFailed
  return (batch, journal, newUtxos)

/-- The result of a flush and the state it leaves, also when it fails. -/
def flushBatch (round : SequencerRound) (state : SequencerState) :
    Except FlushError Unit × SequencerState :=
  match round.snapshot with
  | none => (.error .snapshotFailed, state)
  | some snapshot =>
    if snapshot.sequencerVk ≠ config.verificationKey then
      (.error .notAuthorized, state)
    else
      let (txs, mempool) := state.mempool.drain crypto config.maxBatchTxs
      match submitDrained crypto iteration round snapshot state.currentUtxos txs with
      | .error error => (.error error, { state with mempool })
      | .ok (batch, journal, newUtxos) =>
        (.ok (), { state with
          mempool
          currentUtxos := newUtxos
          submitted := state.submitted ++ [(batch, journal)] })

/-- One round of the loop: nothing when there is nothing to flush. -/
def poll (round : SequencerRound) (state : SequencerState) :
    Option (Except FlushError Unit) × SequencerState :=
  let pending := state.mempool.queue.length
  if config.maxBatchTxs ≤ pending ∨ round.timedOut = true then
    if pending = 0 then
      (none, state)
    else
      let (result, next) := flushBatch crypto iteration config round state
      (some result, next)
  else
    (none, state)

def SequencerState.push (state : SequencerState) (tx : L2Tx) : SequencerState :=
  match state.mempool.push crypto tx with
  | .ok mempool => { state with mempool, accepted := tx :: state.accepted }
  | .error _ => state

/-- One transaction or one poll. -/
def SequencerState.step (state : SequencerState) : SequencerEvent → SequencerState
  | .push tx => state.push crypto tx
  | .poll round => (poll crypto iteration config round state).2

/-- Any interleaving of transactions and polls. -/
def SequencerState.run (state : SequencerState) (events : List SequencerEvent) : SequencerState :=
  events.foldl (SequencerState.step crypto iteration config) state

def SequencerState.initial (utxos : List L2Utxo) : SequencerState where
  mempool := ⟨[], []⟩
  currentUtxos := utxos
  accepted := []
  submitted := []

section

/-- The transaction is pending or in a batch that reached L1. -/
def SequencerState.Keeps (state : SequencerState) (tx : L2Tx) : Prop :=
  tx ∈ state.mempool.queue ∨ ∃ entry ∈ state.submitted, tx ∈ entry.1.txs

/-- With the answers of the round, the transactions that a flush would drain can
be submitted. Nothing is drained when the round does not flush, or when its
snapshot fails or names another sequencer. -/
def SequencerState.Submits (state : SequencerState) (round : SequencerRound) : Prop :=
  (config.maxBatchTxs ≤ state.mempool.queue.length ∨ round.timedOut = true) →
    state.mempool.queue.length ≠ 0 → ∀ snapshot, round.snapshot = some snapshot →
      snapshot.sequencerVk = config.verificationKey →
        (submitDrained crypto iteration round snapshot state.currentUtxos
          (state.mempool.drain crypto config.maxBatchTxs).1).isOk = true

variable {crypto : RollupCrypto} {iteration : HashOrder} {config : SequencerConfig}
  {round : SequencerRound}

theorem submitDrained_txs {snapshot : L1RollupSnapshot} {utxos newUtxos : List L2Utxo}
    {txs : List L2Tx} {batch : Batch} {journal : BatchJournal}
    (submitted : submitDrained crypto iteration round snapshot utxos txs =
      .ok (batch, journal, newUtxos)) : batch.txs = txs := by
  simp only [submitDrained, bind_eq_ok, check_eq_ok, pure,
    Except.pure, Except.ok.injEq, Prod.mk.injEq] at submitted
  obtain ⟨_, -, _, -, _, -, -, -, -, rfl, -⟩ := submitted
  rfl

variable {tx : L2Tx}

theorem Mempool.mem_drain {pool : Mempool} {max : Nat} (pending : tx ∈ pool.queue) :
    tx ∈ (pool.drain crypto max).1 ∨ tx ∈ (pool.drain crypto max).2.queue := by
  rw [← take_append_drop (min max pool.queue.length) pool.queue, mem_append] at pending
  exact pending

theorem flushBatch_cases {state : SequencerState}
    (submits : ∀ snapshot, round.snapshot = some snapshot →
      snapshot.sequencerVk = config.verificationKey →
        (submitDrained crypto iteration round snapshot state.currentUtxos
          (state.mempool.drain crypto config.maxBatchTxs).1).isOk = true) :
    (∃ error, flushBatch crypto iteration config round state = (.error error, state)) ∨
      ∃ batch journal newUtxos, batch.txs = (state.mempool.drain crypto config.maxBatchTxs).1 ∧
        flushBatch crypto iteration config round state = (.ok (), { state with
          mempool := (state.mempool.drain crypto config.maxBatchTxs).2
          currentUtxos := newUtxos
          submitted := state.submitted ++ [(batch, journal)] }) := by
  unfold flushBatch
  cases answer : round.snapshot with
  | none => exact .inl ⟨.snapshotFailed, rfl⟩
  | some snapshot =>
    by_cases authorized : snapshot.sequencerVk = config.verificationKey
    · have submitted := submits snapshot answer authorized
      simp only [authorized, ne_eq, not_true_eq_false, if_false]
      cases submission : submitDrained crypto iteration round snapshot state.currentUtxos
        (state.mempool.drain crypto config.maxBatchTxs).1 with
      | error error =>
        rw [submission] at submitted
        cases submitted
      | ok entry =>
        obtain ⟨batch, journal, newUtxos⟩ := entry
        exact .inr ⟨batch, journal, newUtxos, submitDrained_txs submission, rfl⟩
    · simp only [ne_eq, authorized, not_false_eq_true, if_true]
      exact .inl ⟨.notAuthorized, rfl⟩

variable {state : SequencerState}

theorem SequencerState.keeps_push (kept : ∀ other ∈ state.accepted, state.Keeps other) :
    ∀ other ∈ (state.push crypto tx).accepted, (state.push crypto tx).Keeps other := by
  unfold SequencerState.push
  cases pushed : state.mempool.push crypto tx with
  | error error => exact kept
  | ok mempool =>
    simp only [Mempool.push, bind_eq_ok, check_eq_ok, pure, Except.pure, Except.ok.injEq] at pushed
    obtain ⟨-, -, -, rfl⟩ := pushed
    intro other isAccepted
    rcases mem_cons.mp isAccepted with rfl | prior
    · exact .inl (mem_append_right _ (mem_singleton_self _))
    · exact (kept other prior).imp_left (mem_append_left _)

theorem SequencerState.keeps_poll (kept : ∀ tx ∈ state.accepted, state.Keeps tx)
    (submits : state.Submits crypto iteration config round) :
    ∀ tx ∈ (poll crypto iteration config round state).2.accepted,
      (poll crypto iteration config round state).2.Keeps tx := by
  unfold poll
  by_cases triggered : config.maxBatchTxs ≤ state.mempool.queue.length ∨ round.timedOut = true
  · by_cases nothing : state.mempool.queue.length = 0
    · simp only [if_pos triggered, if_pos nothing]
      exact kept
    · simp only [if_pos triggered, if_neg nothing]
      rcases flushBatch_cases (submits triggered nothing) with
        ⟨error, flushed⟩ | ⟨batch, journal, newUtxos, drained, flushed⟩
      · rw [flushed]
        exact kept
      · rw [flushed]
        intro tx isAccepted
        rcases kept tx isAccepted with pending | ⟨entry, isEntry, inBatch⟩
        · rcases Mempool.mem_drain pending with taken | left
          · exact .inr ⟨(batch, journal), mem_append_right _
              (mem_singleton_self _), drained ▸ taken⟩
          · exact .inl left
        · exact .inr ⟨entry, mem_append_left _ isEntry, inBatch⟩
  · simp only [if_neg triggered]
    exact kept

/-- As long as every round that drains the queue can submit what it drains, every
accepted transaction is pending or in a batch that reached L1, after any run. -/
theorem sequencer_keeps_accepted (crypto : RollupCrypto) (iteration : HashOrder)
    (config : SequencerConfig) (utxos : List L2Utxo) (events : List SequencerEvent)
    (submits : ∀ before round after, events = before ++ .poll round :: after →
      ((SequencerState.initial utxos).run crypto iteration config before).Submits crypto iteration
        config round) :
    ∀ tx ∈ ((SequencerState.initial utxos).run crypto iteration config events).accepted,
      ((SequencerState.initial utxos).run crypto iteration config events).Keeps tx := by
  induction events using List.reverseRecOn with
  | nil => exact forall_mem_nil _
  | append_singleton prior event ih =>
    have kept := ih fun before round after split =>
      submits before round (after ++ [event]) (by
        rw [split, append_assoc, cons_append])
    rw [SequencerState.run, foldl_append]
    cases event with
    | push tx => exact SequencerState.keeps_push kept
    | poll round => exact SequencerState.keeps_poll kept (submits prior round [] rfl)

end

def toyConfig : SequencerConfig where
  verificationKey := toyKey 1
  maxBatchTxs := 10

/-- A round in which only the submission of carriers may fail. -/
def toyRound (carrierSubmitted : Bool) : SequencerRound where
  timedOut := true
  snapshot := some {
    sequence := 0
    stateRoot := computeStateRoot toyCrypto (sortUtxos [toyUtxo])
    sequencerVk := toyKey 1
    l1BlockHeight := 100 }
  signed := true
  carrierSubmitted
  stateUpdated := true

/-- A payment of the holder of the output. -/
def goodTx : L2Tx := toyTx 1 [toyUtxo.id]

/-- A well signed transaction that spends an output which does not exist. -/
def danglingTx : L2Tx := { toyTx 1 [] with
    inputs := [⟨⟨.replicate 32 9, 0⟩, toyKey 1, .replicate 2420 1⟩] }

def toyRun (events : List SequencerEvent) : SequencerState :=
  (SequencerState.initial [toyUtxo]).run toyCrypto toyOrder toyConfig events

/-- A payment is accepted, submitted and kept. -/
theorem toyRun_keeps : goodTx ∈ (toyRun [.push goodTx, .poll (toyRound true)]).accepted ∧
    (toyRun [.push goodTx, .poll (toyRound true)]).Keeps goodTx := by
  have isAccepted : goodTx ∈ (toyRun [.push goodTx, .poll (toyRound true)]).accepted := by
    decide +kernel
  have submits : ∀ snapshot ∈ (toyRound true).snapshot,
      (submitDrained toyCrypto toyOrder (toyRound true) snapshot
        (toyRun [.push goodTx]).currentUtxos
        ((toyRun [.push goodTx]).mempool.drain toyCrypto toyConfig.maxBatchTxs).1).isOk = true := by
    decide +kernel
  refine ⟨isAccepted, ?_⟩
  refine sequencer_keeps_accepted toyCrypto toyOrder toyConfig [toyUtxo]
    [.push goodTx, .poll (toyRound true)] ?_ goodTx isAccepted
  intro before round after split _ _ snapshot answer _
  rcases before with _ | ⟨first, _ | ⟨second, before⟩⟩
  · cases split
  · cases split
    exact submits snapshot answer
  · simp at split

/-- A payment is lost when it is drained together with an invalid transaction,
and when the carriers cannot be submitted. -/
theorem toyRun_loses :
    (goodTx ∈ (toyRun [.push goodTx, .push danglingTx, .poll (toyRound true)]).accepted ∧
        ¬ (toyRun [.push goodTx, .push danglingTx, .poll (toyRound true)]).Keeps goodTx) ∧
      goodTx ∈ (toyRun [.push goodTx, .poll (toyRound false)]).accepted ∧
        ¬ (toyRun [.push goodTx, .poll (toyRound false)]).Keeps goodTx := by
  have lost : ∀ events : List SequencerEvent, (toyRun events).mempool.queue.length = 0 →
      (toyRun events).submitted.length = 0 → ¬ (toyRun events).Keeps goodTx := by
    rintro events nonePending noneSubmitted (pending | ⟨entry, isEntry, -⟩)
    · rw [length_eq_zero_iff.mp nonePending] at pending
      exact not_mem_nil pending
    · rw [length_eq_zero_iff.mp noneSubmitted] at isEntry
      exact not_mem_nil isEntry
  refine ⟨⟨?_, lost _ ?_ ?_⟩, ?_, lost _ ?_ ?_⟩ <;> decide +kernel

end Sophis
