import Mathlib.Algebra.BigOperators.Group.List.Basic
import Sophis.ExceptLoop
import Sophis.MachineWord
import Sophis.RollupState

namespace Sophis

open ByteCodec ExceptLoop List MachineWord Option

/-!
# The transition of the rollup

The same transition is written three times: the mempool of the sequencer checks
transactions without the outputs they spend (`rollup/sequencer/src/mempool.rs`),
`apply_batch` of `rollup/sequencer/src/batch.rs` applies them without looking at
keys, and `process_batch` of `rollup/host/guest/src/main.rs` does it all inside the
prover.
-/

/-- Why a transaction is not queued. -/
inductive MempoolError where
  | duplicate (txid : FixedBytes 32)
  | full
  | noInputs
  | noOutputs
  | badSignature (index : Nat)
  | overflow
  deriving DecidableEq

def maxMempool : Nat := 10000

/-- The queue and the identifiers seen. -/
structure Mempool where
  queue : List L2Tx
  seen : List (FixedBytes 32)

variable (crypto : RollupCrypto)

/-- The fee and the outputs of a transaction, as a sum that must fit. -/
def L2TxBody.outputTotal (body : L2TxBody) : Option UInt64 :=
  checkedSumFrom body.fee (body.outputs.map L2TxOutput.amount)

def validateTx (tx : L2Tx) : Except MempoolError Unit := do
  reject (tx.inputs = []) .noInputs
  reject (tx.body.outputs = []) .noOutputs
  let sigHash := tx.body.sigHash crypto
  forEach (fun index input =>
    reject (crypto.verify input.verificationKey sigHash input.signature =
      false) (.badSignature index)) tx.inputs
  let _ ← unwrapOr .overflow tx.body.outputTotal
  return ()

def Mempool.push (pool : Mempool) (tx : L2Tx) :
    Except MempoolError Mempool := do
  validateTx crypto tx
  let txid := tx.txid crypto
  reject (txid ∈ pool.seen) (.duplicate txid)
  reject (maxMempool ≤ pool.queue.length) .full
  return ⟨pool.queue ++ [tx], txid :: pool.seen⟩

section

variable (crypto : RollupCrypto)

def applyDeposits (deposits : List Deposit) (map : UtxoMap) : UtxoMap :=
  deposits.foldl (fun map deposit => map.insert
    ⟨⟨deposit.l1TxId, deposit.l1OutputIndex⟩, deposit.l2Address, deposit.amount⟩) map

/-- Removes what a transaction spends and inserts its outputs, numbered with
indices of 32 bits. -/
def replaceOutputs (tx : L2Tx) (map : UtxoMap) : UtxoMap :=
  let remaining := tx.inputs.foldl (fun map input => map.remove input.utxoId) map
  tx.body.outputs.zipIdx.foldl (fun map entry => map.insert
    ⟨⟨tx.txid crypto, UInt32.ofNat entry.2⟩, entry.1.address, entry.1.amount⟩) remaining

/-- The order in which a process iterates over its hash tables. -/
structure HashOrder where
  order : List L2Utxo → List L2Utxo
  perm : ∀ values, (order values).Perm values

/-- What is left of a map is read in the order of its hash table and sorted. -/
def sortedValues (iteration : HashOrder) (map : UtxoMap) : List L2Utxo :=
  sortUtxos (iteration.order map.values)

end

/-- Why the sequencer refuses a batch. -/
inductive SequencerError where
  | utxoNotFound (txid : FixedBytes 32)
  | doubleSpend (txid : FixedBytes 32)
  | amountMismatch (inputs outputsFee : UInt64)
  | overflow
  deriving DecidableEq

/-- The unspent outputs and the identifiers spent in the batch. -/
structure BatchState where
  map : UtxoMap
  spent : List L2UtxoId
  deriving DecidableEq

namespace Sequencer

/-- One input: the total so far and the identifiers spent. -/
def spendInput (map : UtxoMap) (progress : UInt64 × List L2UtxoId)
    (input : L2TxInput) : Except SequencerError (UInt64 × List L2UtxoId) := do
  reject (input.utxoId ∈ progress.2) (.doubleSpend input.utxoId.txid)
  let utxo ← unwrapOr (.utxoNotFound input.utxoId.txid) (map.get input.utxoId)
  let total ← unwrapOr .overflow (checkedAdd progress.1 utxo.amount)
  return (total, input.utxoId :: progress.2)

/-- Spends the inputs and creates the outputs, without looking at keys. -/
def applyTx (crypto : RollupCrypto) (state : BatchState) (tx : L2Tx) :
    Except SequencerError BatchState := do
  let (inTotal, spent) ← tx.inputs.foldlM (spendInput state.map) (0, state.spent)
  let outTotal ← unwrapOr .overflow tx.body.outputTotal
  reject (inTotal ≠ outTotal) (.amountMismatch inTotal outTotal)
  return ⟨replaceOutputs crypto tx state.map, spent⟩

/-- Applies the deposits and the transactions of a batch to a list of
outputs. -/
def applyBatch (crypto : RollupCrypto) (iteration : HashOrder)
    (batch : Batch) (utxos : List L2Utxo) :
    Except SequencerError (List L2Utxo) := do
  let map := applyDeposits batch.deposits (.ofList (sortUtxos utxos))
  let state ← batch.txs.foldlM (applyTx crypto) ⟨map, []⟩
  return sortedValues iteration state.map

end Sequencer

/-- Why the guest refuses a batch. -/
inductive RollupError where
  | invalidSignature (index : Nat)
  | utxoNotFound (txid : FixedBytes 32)
  | doubleSpend (txid : FixedBytes 32)
  | overflow
  | amountMismatch (inputs outputsPlusFee : UInt64)
  | stateRootMismatch (expected got : StateRoot)
  | serialization
  | addressMismatch (index : Nat)
  deriving DecidableEq

namespace Guest

def spendInput (crypto : RollupCrypto) (sigHash : FixedBytes 32)
    (map : UtxoMap) (progress : UInt64 × List L2UtxoId)
    (indexed : L2TxInput × Nat) :
    Except RollupError (UInt64 × List L2UtxoId) := do
  let (input, index) := indexed
  reject (input.utxoId ∈ progress.2) (.doubleSpend input.utxoId.txid)
  let utxo ← unwrapOr (.utxoNotFound input.utxoId.txid) (map.get input.utxoId)
  reject (crypto.sha3_384 input.verificationKey.bytes ≠ utxo.address) (.addressMismatch index)
  reject (crypto.verify input.verificationKey sigHash input.signature = false)
    (.invalidSignature index)
  let total ← unwrapOr .overflow (checkedAdd progress.1 utxo.amount)
  return (total, input.utxoId :: progress.2)

/-- As the sequencer, with the keys and signatures checked. -/
def processTx (crypto : RollupCrypto) (state : BatchState) (tx : L2Tx) :
    Except RollupError BatchState := do
  let sigHash := tx.body.sigHash crypto
  let (inputTotal, spent) ← tx.inputs.zipIdx.foldlM
    (spendInput crypto sigHash state.map) (0, state.spent)
  let outputTotal ← unwrapOr .overflow tx.body.outputTotal
  reject (inputTotal ≠ outputTotal) (.amountMismatch inputTotal outputTotal)
  return ⟨replaceOutputs crypto tx state.map, spent⟩

/-- Checks the root of a sorted list of outputs, applies a batch to it and
describes the transition. -/
def processBatch (crypto : RollupCrypto) (iteration : HashOrder)
    (batch : Batch) (utxos : List L2Utxo) :
    Except RollupError BatchJournal := do
  let computedPrev := computeStateRoot crypto utxos
  reject (computedPrev ≠ batch.prevStateRoot) (.stateRootMismatch batch.prevStateRoot computedPrev)
  let map := applyDeposits batch.deposits (.ofList utxos)
  let state ← batch.txs.foldlM (processTx crypto) ⟨map, []⟩
  let newStateRoot := computeStateRoot crypto (sortedValues iteration state.map)
  let calldata ← unwrapOr .serialization batch.toBorsh
  return {
    sequence := batch.sequence
    prevStateRoot := batch.prevStateRoot
    newStateRoot
    batchHash := batch.hash crypto
    depositCount := UInt32.ofNat batch.deposits.length
    withdrawalCount := UInt32.ofNat batch.withdrawals.length
    withdrawalsHash := hashWithdrawals crypto batch.withdrawals
    l1AnchorBlock := batch.l1AnchorBlock
    daBundleId := crypto.sha3_384 calldata }

/-- The guest sorts the outputs it receives. -/
def main (crypto : RollupCrypto) (iteration : HashOrder) (batch : Batch) (utxos : List L2Utxo) :
    Except RollupError BatchJournal :=
  processBatch crypto iteration batch (sortUtxos utxos)

end Guest

section

variable {crypto : RollupCrypto}

theorem sortedValues_eq (first second : HashOrder) (map : UtxoMap) :
    sortedValues first map = sortedValues second map := by
  have orders := (first.perm map.values).trans (second.perm map.values).symm
  refine sortUtxos_eq_of_perm ?_ orders
  exact ((first.perm map.values).map L2Utxo.id).nodup_iff.mpr map.distinct

/-- The amount that a map holds under an identifier. -/
def UtxoMap.amountAt (map : UtxoMap) (id : L2UtxoId) : Nat :=
  ((map.get id).map fun utxo => utxo.amount.toNat).getD 0

/-- The amount that a map holds under several identifiers. -/
def UtxoMap.held (map : UtxoMap) (ids : List L2UtxoId) : Nat := (ids.map map.amountAt).sum

/-- The identifiers that a transaction spends. -/
def L2Tx.spentIds (tx : L2Tx) : List L2UtxoId := tx.inputs.map L2TxInput.utxoId

/-- What a transaction pays, with its fee. -/
def L2TxBody.paid (body : L2TxBody) : Nat :=
  body.fee.toNat + exactSum (body.outputs.map L2TxOutput.amount)

/-- The outputs that a transaction spends are there, each once and unspent, and
they add up to what it pays. -/
structure L2Tx.Balances (state : BatchState) (tx : L2Tx) : Prop where
  distinct : tx.spentIds.Nodup
  unspent : ∀ id ∈ tx.spentIds, id ∉ state.spent
  known : ∀ id ∈ tx.spentIds, ∃ utxo, state.map.get id = some utxo
  balanced : state.map.held tx.spentIds = tx.body.paid
  fits : tx.body.paid < 2 ^ 64

/-- What a transaction must have for its signatures to hold. -/
def L2Tx.Signed (crypto : RollupCrypto) (tx : L2Tx) : Prop :=
  ∀ input ∈ tx.inputs, crypto.verify input.verificationKey
    (tx.body.sigHash crypto) input.signature = true

/-- The keys of a transaction are those of the outputs it spends. -/
def L2Tx.Owned (crypto : RollupCrypto) (map : UtxoMap) (tx : L2Tx) : Prop :=
  ∀ input ∈ tx.inputs, ∀ utxo, map.get input.utxoId = some utxo →
    crypto.sha3_384 input.verificationKey.bytes = utxo.address

/-- The state after a transaction. -/
def BatchState.after (crypto : RollupCrypto) (state : BatchState) (tx : L2Tx) : BatchState :=
  ⟨replaceOutputs crypto tx state.map, tx.spentIds.reverse ++ state.spent⟩

/-- Every transaction has a property in the state before it. -/
def BatchState.Each (crypto : RollupCrypto) (property : BatchState → L2Tx → Prop) :
    BatchState → List L2Tx → Prop
  | _, [] => True
  | state, tx :: rest => property state tx ∧ (state.after crypto tx).Each crypto property rest

variable {tx : L2Tx}

/-- The mempool has checked the signatures of what it accepts. -/
theorem Mempool.signed_of_push {pool next : Mempool} (pushed : pool.push crypto tx = .ok next) :
    tx.Signed crypto := by
  simp only [Mempool.push, bind_eq_ok, check_eq_ok] at pushed
  have valid := pushed.1
  simp only [validateTx, bind_eq_ok, check_eq_ok] at valid
  obtain ⟨-, -, verified, -⟩ := valid
  refine (forEach_eq_ok_iff_forall (fun index input => ?_) tx.inputs).mp verified
  rw [reject_eq_ok, Bool.not_eq_false]

variable {sigHash : FixedBytes 32} {map : UtxoMap} {progress final : UInt64 × List L2UtxoId}
  {inputs : List L2TxInput} {state : BatchState}

open Guest

open Sequencer

/-- The inputs of a transaction are spent when their outputs are there, each
once and unspent, and their sum is a word. -/
theorem Sequencer.spendInputs_eq_ok_iff :
    inputs.foldlM (spendInput map) progress = .ok final ↔
      ((inputs.map L2TxInput.utxoId).Nodup ∧
        ∀ id ∈ inputs.map L2TxInput.utxoId, id ∉ progress.2 ∧ ∃ utxo, map.get id = some utxo) ∧
      final.1.toNat = progress.1.toNat + map.held (inputs.map L2TxInput.utxoId) ∧
      final.2 = (inputs.map L2TxInput.utxoId).reverse ++ progress.2 := by
  induction inputs generalizing progress with
  | nil =>
    simp only [foldlM_nil, pure, Except.pure, Except.ok.injEq, map_nil, nodup_nil, not_mem_nil,
      false_imp_iff, implies_true, true_and, UtxoMap.held, sum_nil, Nat.add_zero, reverse_nil,
      nil_append, Prod.ext_iff, UInt64.toNat_inj]
    exact and_congr eq_comm eq_comm
  | cons input rest ih =>
    simp only [foldlM_cons, bind_eq_ok, spendInput, check_eq_ok, reject_eq_ok, unwrapOr_eq_ok,
      checkedAdd_eq_some_iff, pure, Except.pure, Except.ok.injEq, ih]
    constructor
    · rintro ⟨_, ⟨fresh, utxo, got, total, added, rfl⟩, ⟨nodup, known⟩, sum, spent⟩
      refine ⟨⟨nodup_cons.mpr ⟨fun mem => (known _ mem).1 mem_cons_self, nodup⟩, ?_⟩, ?_, ?_⟩
      · refine forall_mem_cons.mpr ⟨⟨fresh, utxo, got⟩, fun id mem => ?_⟩
        exact ⟨fun old => (known id mem).1 (mem_cons_of_mem _ old), (known id mem).2⟩
      · rw [sum, added, UtxoMap.held, UtxoMap.held, map_cons, map_cons, sum_cons,
          UtxoMap.amountAt, got, Nat.add_assoc]
        rfl
      · rw [spent, map_cons, reverse_cons, append_assoc]
        rfl
    · rintro ⟨⟨nodup, known⟩, sum, spent⟩
      obtain ⟨⟨fresh, utxo, got⟩, known⟩ := forall_mem_cons.mp known
      obtain ⟨isNew, nodup⟩ := nodup_cons.mp nodup
      rw [UtxoMap.held, map_cons, map_cons, sum_cons, UtxoMap.amountAt, got] at sum
      -- A part of the sum fits where the whole one does.
      have fits : progress.1.toNat + utxo.amount.toNat < 2 ^ 64 := by
        have bound := final.1.toNat_lt
        change _ = _ + (utxo.amount.toNat + _) at sum
        omega
      refine ⟨_, ⟨fresh, utxo, got, UInt64.ofNat (progress.1.toNat + utxo.amount.toNat),
        UInt64.toNat_ofNat_of_lt' fits, rfl⟩, ⟨nodup, ?_⟩, ?_, ?_⟩
      · intro id mem
        refine ⟨fun old => ?_, (known id mem).2⟩
        rcases mem_cons.mp old with rfl | old
        · exact isNew mem
        · exact (known id mem).1 old
      · rw [UInt64.toNat_ofNat_of_lt' fits, sum, ← Nat.add_assoc]
        rfl
      · rw [spent, map_cons, reverse_cons, append_assoc]
        rfl

/-- The sequencer applies what balances. -/
theorem Sequencer.applyTx_eq_ok_iff {next : BatchState} :
    applyTx crypto state tx = .ok next ↔ tx.Balances state ∧ state.after crypto tx = next := by
  simp only [applyTx, bind_eq_ok, check_eq_ok, reject_eq_ok, unwrapOr_eq_ok, not_not, pure,
    Except.pure, Except.ok.injEq, spendInputs_eq_ok_iff, L2TxBody.outputTotal,
    checkedSumFrom_eq_some_iff, UInt64.toNat_zero, Nat.zero_add]
  constructor
  · rintro ⟨⟨total, spent⟩, ⟨⟨nodup, known⟩, sum, rfl⟩, other, paid, rfl, rfl⟩
    refine ⟨⟨nodup, fun id mem => (known id mem).1, fun id mem => (known id mem).2,
      sum.symm.trans paid, ?_⟩, rfl⟩
    rw [L2TxBody.paid, ← paid]
    exact total.toNat_lt
  · rintro ⟨balances, rfl⟩
    refine ⟨(UInt64.ofNat tx.body.paid, _), ⟨⟨balances.distinct, fun id mem =>
      ⟨balances.unspent id mem, balances.known id mem⟩⟩, ?_, rfl⟩, _,
      UInt64.toNat_ofNat_of_lt' balances.fits, rfl, rfl⟩
    exact (UInt64.toNat_ofNat_of_lt' balances.fits).trans balances.balanced.symm

/-- The guest spends an input that the sequencer spends, if its key is that of
the output and its signature holds. -/
theorem Guest.spendInput_eq_ok_iff {next : UInt64 × List L2UtxoId} {input : L2TxInput}
    {index : Nat} :
    spendInput crypto sigHash map progress (input, index) = .ok next ↔
      Sequencer.spendInput map progress input = .ok next ∧
        (∀ utxo, map.get input.utxoId = some utxo →
          crypto.sha3_384 input.verificationKey.bytes = utxo.address) ∧
        crypto.verify input.verificationKey sigHash input.signature = true := by
  simp only [spendInput, Sequencer.spendInput, bind_eq_ok, check_eq_ok, reject_eq_ok,
    unwrapOr_eq_ok, not_not, Bool.not_eq_false, pure, Except.pure, Except.ok.injEq]
  constructor
  · rintro ⟨fresh, utxo, got, owned, verified, added⟩
    refine ⟨⟨fresh, utxo, got, added⟩, ?_, verified⟩
    intro other isOther
    cases got.symm.trans isOther
    exact owned
  · rintro ⟨⟨fresh, utxo, got, added⟩, owned, verified⟩
    exact ⟨fresh, utxo, got, owned utxo got, verified, added⟩

theorem Guest.spendInputs_eq_ok_iff (start : Nat) :
    (inputs.zipIdx start).foldlM (spendInput crypto sigHash map) progress = .ok final ↔
      inputs.foldlM (Sequencer.spendInput map) progress = .ok final ∧
        ∀ input ∈ inputs, (∀ utxo, map.get input.utxoId = some utxo →
            crypto.sha3_384 input.verificationKey.bytes = utxo.address) ∧
          crypto.verify input.verificationKey sigHash input.signature = true := by
  induction inputs generalizing start progress with
  | nil =>
    simp only [zipIdx_nil, foldlM_nil, not_mem_nil, false_imp_iff, implies_true, and_true, pure,
      Except.pure, Except.ok.injEq]
  | cons input rest ih =>
    simp only [zipIdx_cons, foldlM_cons, bind_eq_ok, spendInput_eq_ok_iff, ih, forall_mem_cons]
    constructor
    · rintro ⟨next, ⟨now, checked⟩, later, others⟩
      exact ⟨⟨next, now, later⟩, checked, others⟩
    · rintro ⟨⟨next, now, later⟩, checked, others⟩
      exact ⟨next, ⟨now, checked⟩, later, others⟩

/-- The guest processes what balances, under the keys of its outputs and with
signatures that hold. -/
theorem Guest.processTx_eq_ok_iff {next : BatchState} : processTx crypto state tx = .ok next ↔
    (tx.Balances state ∧ tx.Owned crypto state.map ∧ tx.Signed crypto) ∧
      state.after crypto tx = next := by
  have sequenced : applyTx crypto state tx = .ok next ↔
      tx.Balances state ∧ state.after crypto tx = next :=
    applyTx_eq_ok_iff
  rw [applyTx, bind_eq_ok] at sequenced
  rw [processTx, bind_eq_ok]
  simp only [Guest.spendInputs_eq_ok_iff, bind_eq_ok, check_eq_ok, reject_eq_ok, unwrapOr_eq_ok,
    not_not, pure, Except.pure, Except.ok.injEq] at sequenced ⊢
  constructor
  · rintro ⟨spent, ⟨spending, checked⟩, paying⟩
    obtain ⟨balances, eq⟩ := sequenced.mp ⟨spent, spending, paying⟩
    exact ⟨⟨balances, fun input mem => (checked input mem).1,
      fun input mem => (checked input mem).2⟩, eq⟩
  · rintro ⟨⟨balances, owned, signed⟩, eq⟩
    obtain ⟨spent, spending, paying⟩ := sequenced.mpr ⟨balances, eq⟩
    exact ⟨spent, ⟨spending, fun input mem => ⟨owned input mem, signed input mem⟩⟩, paying⟩

/-- A loop over transactions succeeds when every step does. -/
theorem BatchState.foldlM_eq_ok_iff {Error : Type} {property : BatchState → L2Tx → Prop}
    {step : BatchState → L2Tx → Except Error BatchState}
    (ran : ∀ state tx next, step state tx = .ok next ↔
      property state tx ∧ state.after crypto tx = next)
    {txs : List L2Tx} {final : BatchState} : txs.foldlM step state = .ok final ↔
      state.Each crypto property txs ∧ txs.foldl (after crypto) state = final := by
  induction txs generalizing state with
  | nil => simp [Each, pure, Except.pure]
  | cons tx rest ih =>
    simp only [foldlM_cons, bind_eq_ok, ran, ih, Each, foldl_cons]
    constructor
    · rintro ⟨_, ⟨holds, rfl⟩, others, eq⟩
      exact ⟨⟨holds, others⟩, eq⟩
    · rintro ⟨⟨holds, others⟩, eq⟩
      exact ⟨_, ⟨holds, rfl⟩, others, eq⟩

theorem BatchState.Each.of_forall {property : L2Tx → Prop} {txs : List L2Tx}
    (holds : ∀ tx ∈ txs, property tx) : state.Each crypto (fun _ => property) txs := by
  induction txs generalizing state with
  | nil => trivial
  | cons tx rest ih =>
    obtain ⟨first, others⟩ := forall_mem_cons.mp holds
    exact ⟨first, ih others⟩

theorem BatchState.Each.and_iff {first second : BatchState → L2Tx → Prop} {txs : List L2Tx} :
    state.Each crypto (fun state tx => first state tx ∧ second state tx) txs ↔
      state.Each crypto first txs ∧ state.Each crypto second txs := by
  induction txs generalizing state with
  | nil => simp [Each]
  | cons tx rest ih =>
    rw [Each, Each, Each, ih]
    exact and_and_and_comm

def Batch.start (batch : Batch) (utxos : List L2Utxo) : BatchState :=
  ⟨applyDeposits batch.deposits (.ofList utxos), []⟩

variable {iteration : HashOrder} {batch : Batch} {utxos : List L2Utxo}

theorem Sequencer.applyBatch_eq_ok_iff {result : List L2Utxo} :
    applyBatch crypto iteration batch utxos = .ok result ↔
      ∃ state, batch.txs.foldlM (applyTx crypto)
          (batch.start (sortUtxos utxos)) = .ok state ∧
        sortedValues iteration state.map = result := by
  simp only [applyBatch, Batch.start, bind_eq_ok, pure, Except.pure, Except.ok.injEq]

theorem Guest.processBatch_eq_ok_iff {journal : BatchJournal} :
    processBatch crypto iteration batch utxos = .ok journal ↔
      computeStateRoot crypto utxos = batch.prevStateRoot ∧
        ∃ state, batch.txs.foldlM (processTx crypto) (batch.start utxos) = .ok state ∧
          ∃ calldata, batch.toBorsh = some calldata ∧
            ({ sequence := batch.sequence
               prevStateRoot := batch.prevStateRoot
               newStateRoot := computeStateRoot crypto (sortedValues iteration state.map)
               batchHash := batch.hash crypto
               depositCount := UInt32.ofNat batch.deposits.length
               withdrawalCount := UInt32.ofNat batch.withdrawals.length
               withdrawalsHash := hashWithdrawals crypto batch.withdrawals
               l1AnchorBlock := batch.l1AnchorBlock
               daBundleId := crypto.sha3_384 calldata } : BatchJournal) =
              journal := by
  simp only [processBatch, Batch.start, bind_eq_ok, check_eq_ok, reject_eq_ok,
    unwrapOr_eq_ok, not_not, pure, Except.pure, Except.ok.injEq]

theorem Guest.processBatch_eq_error {error : RollupError}
    (rooted : computeStateRoot crypto utxos = batch.prevStateRoot)
    (failed : batch.txs.foldlM (processTx crypto) (batch.start utxos) = .error error) :
    processBatch crypto iteration batch utxos = .error error := by
  have passes : reject (computeStateRoot crypto utxos ≠ batch.prevStateRoot)
      (RollupError.stateRootMismatch batch.prevStateRoot
        (computeStateRoot crypto utxos)) = .ok () :=
    reject_eq_ok.mpr (not_not.mpr rooted)
  rw [processBatch, passes, ok_bind]
  change (batch.txs.foldlM (processTx crypto) (batch.start utxos) >>= _) = _
  rw [failed]
  rfl

/-- With the right previous root, sequencer and prover agree on a batch of
transactions that the mempool accepted: both succeed or neither does, and the
root of what the sequencer computes is the one the guest commits to. They do
exactly when a batch whose transactions all balance can be encoded and is spent
under the keys of its outputs. -/
theorem applyBatch_agrees_processBatch (crypto : RollupCrypto)
    (sequencerOrder guestOrder : HashOrder) (utxos : List L2Utxo) (batch : Batch)
    (accepted : ∀ tx ∈ batch.txs, ∃ pool next : Mempool, pool.push crypto tx = .ok next)
    (rooted : batch.prevStateRoot = computeStateRoot crypto (sortUtxos utxos)) :
    (((∃ result, Sequencer.applyBatch crypto sequencerOrder batch utxos = .ok result) ↔
          ∃ journal, Guest.main crypto guestOrder batch utxos = .ok journal) ∧
        ∀ result journal, Sequencer.applyBatch crypto sequencerOrder batch utxos = .ok result →
          Guest.main crypto guestOrder batch utxos = .ok journal →
            computeStateRoot crypto result = journal.newStateRoot) ↔
      ((batch.start (sortUtxos utxos)).Each crypto L2Tx.Balances batch.txs →
        (batch.start (sortUtxos utxos)).Each crypto (fun state tx => tx.Owned crypto state.map)
            batch.txs ∧
          batch.toBorsh.isSome = true) := by
  have signed : ∀ tx ∈ batch.txs, tx.Signed crypto := by
    intro tx mem
    obtain ⟨pool, next, pushed⟩ := accepted tx mem
    exact Mempool.signed_of_push pushed
  have applies : (∃ result, applyBatch crypto sequencerOrder batch utxos = .ok result) ↔
      (batch.start (sortUtxos utxos)).Each crypto L2Tx.Balances
        batch.txs := by
    constructor
    · rintro ⟨result, applied⟩
      obtain ⟨state, ran, -⟩ := applyBatch_eq_ok_iff.mp applied
      exact ((BatchState.foldlM_eq_ok_iff fun _ _ _ => applyTx_eq_ok_iff).mp ran).1
    · intro balances
      exact ⟨_, applyBatch_eq_ok_iff.mpr ⟨_, (BatchState.foldlM_eq_ok_iff fun _ _ _ =>
        applyTx_eq_ok_iff).mpr ⟨balances, rfl⟩, rfl⟩⟩
  have processes : (∃ journal, Guest.main crypto guestOrder batch utxos = .ok journal) ↔
      (batch.start (sortUtxos utxos)).Each crypto L2Tx.Balances batch.txs ∧
        (batch.start (sortUtxos utxos)).Each crypto (fun state tx => tx.Owned crypto state.map)
            batch.txs ∧
          batch.toBorsh.isSome = true := by
    constructor
    · rintro ⟨journal, processed⟩
      obtain ⟨-, state, ran, calldata, encoded, -⟩ := processBatch_eq_ok_iff.mp processed
      have each := ((BatchState.foldlM_eq_ok_iff fun _ _ _ => processTx_eq_ok_iff).mp ran).1
      obtain ⟨balances, checked⟩ := BatchState.Each.and_iff.mp each
      exact ⟨balances, (BatchState.Each.and_iff.mp checked).1, isSome_iff_exists.mpr ⟨_, encoded⟩⟩
    · rintro ⟨balances, owned, encodable⟩
      obtain ⟨calldata, encoded⟩ := isSome_iff_exists.mp encodable
      have each := BatchState.Each.and_iff.mpr
        ⟨balances, BatchState.Each.and_iff.mpr ⟨owned, .of_forall signed⟩⟩
      exact ⟨_, processBatch_eq_ok_iff.mpr ⟨rooted.symm, _, (BatchState.foldlM_eq_ok_iff
        fun _ _ _ => processTx_eq_ok_iff).mpr ⟨each, rfl⟩, calldata, encoded, rfl⟩⟩
  rw [applies, processes]
  constructor
  · rintro ⟨same, -⟩ balances
    exact (same.mp balances).2
  · intro condition
    refine ⟨⟨fun balances => ⟨balances, condition balances⟩, And.left⟩, ?_⟩
    intro result journal applied processed
    obtain ⟨state, ran, rfl⟩ := applyBatch_eq_ok_iff.mp applied
    obtain ⟨-, other, otherRan, _, -, rfl⟩ := processBatch_eq_ok_iff.mp processed
    have isState := ((BatchState.foldlM_eq_ok_iff fun _ _ _ => applyTx_eq_ok_iff).mp ran).2
    have isOther :=
      ((BatchState.foldlM_eq_ok_iff fun _ _ _ => processTx_eq_ok_iff).mp otherRan).2
    rw [sortedValues_eq sequencerOrder guestOrder state.map, ← isState, ← isOther]

/-! A stand-in for the cryptography: a key signs what starts with its first
byte, and hashes keep little of what they hash. -/

def toyCrypto : RollupCrypto where
  sha3_256 bytes := .ofPrefix 32 (leBytes 8 bytes.length)
  sha3_384 bytes := .ofPrefix 48 bytes
  verify key _ signature := key.bytes.head? = signature.bytes.head?

def toyKey (byte : UInt8) : FixedBytes 1312 := .replicate 1312 byte

def toyOrder : HashOrder := ⟨id, fun values => .refl values⟩

def toyUtxo : L2Utxo :=
  ⟨⟨.replicate 32 7, 0⟩, toyCrypto.sha3_384 (toyKey 1).bytes, 1000⟩

/-- A transaction of the holder of a key that spends the output. -/
def toyTx (byte : UInt8) (listed : List L2UtxoId) : L2Tx where
  body := ⟨listed, [⟨toyCrypto.sha3_384 (toyKey byte).bytes, 990⟩], 10⟩
  inputs := [⟨toyUtxo.id, toyKey byte, .replicate 2420 byte⟩]

def toyBatch (tx : L2Tx) : Batch where
  sequence := 1
  l1AnchorBlock := 100
  prevStateRoot := computeStateRoot toyCrypto (sortUtxos [toyUtxo])
  txs := [tx]
  deposits := []
  withdrawals := []

theorem toyTx_signed (byte : UInt8) (listed : List L2UtxoId) :
    (toyTx byte listed).Signed toyCrypto := by
  intro input mem
  cases mem_singleton.mp mem
  change decide ((List.replicate 1312 byte).head? = (List.replicate 2420 byte).head?) = true
  rw [head?_replicate, head?_replicate]
  exact decide_eq_true rfl

theorem toyTx_pushed (byte : UInt8) (listed : List L2UtxoId) : ∃ pool next : Mempool,
    pool.push toyCrypto (toyTx byte listed) = .ok next := by
  refine ⟨⟨[], []⟩, ⟨[toyTx byte listed], [(toyTx byte listed).txid toyCrypto]⟩, ?_⟩
  have total : (toyTx byte listed).body.outputTotal = some 1000 := by
    change checkedSumFrom 10 [990] = some 1000
    decide
  have verified : forEach (fun index (input : L2TxInput) =>
      reject (toyCrypto.verify input.verificationKey
        ((toyTx byte listed).body.sigHash toyCrypto) input.signature = false)
        (MempoolError.badSignature index)) (toyTx byte listed).inputs =
      .ok () := by
    refine (forEach_eq_ok_iff_forall (fun index input => ?_) _).mpr (toyTx_signed byte listed)
    rw [reject_eq_ok, Bool.not_eq_false]
  have valid : validateTx toyCrypto (toyTx byte listed) = .ok () := by
    simp only [validateTx, total, verified]
    rfl
  rw [Mempool.push, valid]
  rfl

theorem toyTx_owned {listed : List L2UtxoId} (held : map.get toyUtxo.id = some toyUtxo) :
    (toyTx 1 listed).Owned toyCrypto map := by
  intro input mem utxo got
  rw [toyTx, mem_singleton] at mem
  rw [mem] at got ⊢
  have eq : toyUtxo = utxo := Option.some.inj (held.symm.trans got)
  rw [← eq, toyUtxo]

theorem toyBatch_agrees : ∃ result journal, Sequencer.applyBatch toyCrypto toyOrder
      (toyBatch (toyTx 1 [toyUtxo.id])) [toyUtxo] = .ok result ∧
    Guest.main toyCrypto toyOrder (toyBatch (toyTx 1 [toyUtxo.id])) [toyUtxo] = .ok journal ∧
    computeStateRoot toyCrypto result = journal.newStateRoot := by
  obtain ⟨result, ran⟩ : ∃ result, applyBatch toyCrypto toyOrder
      (toyBatch (toyTx 1 [toyUtxo.id])) [toyUtxo] = .ok result :=
    ⟨_, rfl⟩
  obtain ⟨succeeds, sameRoot⟩ := (applyBatch_agrees_processBatch toyCrypto toyOrder toyOrder
    [toyUtxo] (toyBatch (toyTx 1 [toyUtxo.id]))
    (fun tx mem => mem_singleton.mp mem ▸ toyTx_pushed 1 _) rfl).mpr fun _ =>
      ⟨⟨toyTx_owned (by decide +kernel), trivial⟩, by decide +kernel⟩
  obtain ⟨journal, processed⟩ := succeeds.mp ⟨result, ran⟩
  exact ⟨result, journal, ran, processed, sameRoot result journal ran processed⟩

/-- The holder of another key spends the output. The mempool and the sequencer
accept this, the guest does not. -/
theorem toyBatch_disagrees : (∃ pool next : Mempool,
    pool.push toyCrypto (toyTx 2 [toyUtxo.id]) = .ok next) ∧
    (∃ result, Sequencer.applyBatch toyCrypto toyOrder
      (toyBatch (toyTx 2 [toyUtxo.id])) [toyUtxo] = .ok result) ∧
    Guest.main toyCrypto toyOrder (toyBatch (toyTx 2 [toyUtxo.id]))
      [toyUtxo] = .error (.addressMismatch 0) := by
  refine ⟨toyTx_pushed 2 _, ⟨_, rfl⟩, ?_⟩
  have ran : (toyBatch (toyTx 2 [toyUtxo.id])).txs.foldlM
      (processTx toyCrypto) ((toyBatch (toyTx 2 [toyUtxo.id])).start (sortUtxos [toyUtxo])) =
      .error (.addressMismatch 0) := by
    decide +kernel
  exact processBatch_eq_error rfl ran

end

variable {crypto : RollupCrypto}

/-- The bytes whose hash the inputs of a transaction sign. -/
def L2TxBody.signedBytes (body : L2TxBody) : List UInt8 :=
  domain "sophis-l2-sighash:" ++ body.toBorsh.getD []

theorem L2TxBody.eq_of_sigHash_eq {body other : L2TxBody} (encodable : body.toBorsh.isSome = true)
    (otherEncodable : other.toBorsh.isSome = true)
    (free : crypto.sha3_256 body.signedBytes = crypto.sha3_256 other.signedBytes →
      body.signedBytes = other.signedBytes) (eq : body.sigHash crypto = other.sigHash crypto) :
    body = other := by
  obtain ⟨encoded, isEncoded⟩ := isSome_iff_exists.mp encodable
  obtain ⟨otherEncoded, isOther⟩ := isSome_iff_exists.mp otherEncodable
  have bytes := free eq
  rw [signedBytes, signedBytes, isEncoded, isOther] at bytes
  have sameEncoded : encoded = otherEncoded := append_cancel_left bytes
  exact L2TxBody.eq_of_toBorsh_eq isEncoded (sameEncoded ▸ isOther)

/-- Another transaction with the same body and signatures, whatever it spends. -/
def L2Tx.Reuses (tx other : L2Tx) : Prop :=
  other.body = tx.body ∧ other.inputs.map (fun input => (input.verificationKey, input.signature)) =
    tx.inputs.map fun input => (input.verificationKey, input.signature)

theorem L2Tx.Reuses.signed {tx other : L2Tx} (reuses : tx.Reuses other)
    (signed : tx.Signed crypto) : other.Signed crypto := by
  intro input mem
  have isSigned := List.mem_map_of_mem (f := fun input : L2TxInput =>
    (input.verificationKey, input.signature)) mem
  rw [reuses.2, List.mem_map] at isSigned
  obtain ⟨original, isOriginal, eq⟩ := isSigned
  obtain ⟨sameKey, sameSignature⟩ := Prod.mk.inj eq
  rw [reuses.1, ← sameKey, ← sameSignature]
  exact signed original isOriginal

theorem toyBatch_processed (listed : List L2UtxoId) (ran : ((toyBatch (toyTx 1 listed)).txs.foldlM
      (Guest.processTx toyCrypto) ((toyBatch (toyTx 1 listed)).start
        (sortUtxos [toyUtxo]))).toOption.isSome = true)
    (encodable : (toyBatch (toyTx 1 listed)).toBorsh.isSome = true) :
    ∃ journal, Guest.processBatch toyCrypto toyOrder
      (toyBatch (toyTx 1 listed)) (sortUtxos [toyUtxo]) = .ok journal := by
  obtain ⟨state, isState⟩ := isSome_iff_exists.mp ran
  obtain ⟨calldata, encoded⟩ := isSome_iff_exists.mp encodable
  exact ⟨_, Guest.processBatch_eq_ok_iff.mpr ⟨rfl, state,
    toOption_eq_some_iff.mp isState, calldata, encoded, rfl⟩⟩

end Sophis
