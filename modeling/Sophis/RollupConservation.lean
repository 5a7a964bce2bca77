import Mathlib.Algebra.Order.BigOperators.Group.List
import Mathlib.Algebra.Order.Group.Nat
import Sophis.RollupTransition

namespace Sophis

open ExceptLoop Guest L2TxInput List MachineWord Sequencer

/-!
# Value on the rollup

What a batch does to the total amount of the unspent outputs. Transactions
move value and burn fees, deposits mint value. The withdrawals of a batch are
hashed into the journal and touch no output.
-/

def totalAmount (utxos : List L2Utxo) : Nat := (utxos.map fun utxo => utxo.amount.toNat).sum

def Deposit.minted (deposit : Deposit) : L2Utxo :=
  ⟨⟨deposit.l1TxId, deposit.l1OutputIndex⟩, deposit.l2Address, deposit.amount⟩

def L2Tx.created (crypto : RollupCrypto) (tx : L2Tx) : List L2Utxo :=
  tx.body.outputs.zipIdx.map fun entry =>
    ⟨⟨tx.txid crypto, UInt32.ofNat entry.2⟩, entry.1.address, entry.1.amount⟩

def Batch.deposited (batch : Batch) : Nat :=
  (batch.deposits.map fun deposit => deposit.amount.toNat).sum

def Batch.fees (batch : Batch) : Nat := (batch.txs.map fun tx => tx.body.fee.toNat).sum

def Batch.withdrawn (batch : Batch) : Nat :=
  (batch.withdrawals.map fun withdrawal => withdrawal.amount.toNat).sum

namespace UtxoMap

def total (map : UtxoMap) : Nat := totalAmount map.values

/-- The value that inserting outputs one after the other replaces. -/
def replaced : UtxoMap → List L2Utxo → Nat
  | _, [] => 0
  | map, utxo :: rest => map.amountAt utxo.id + (map.insert utxo).replaced rest

variable {map : UtxoMap} {id : L2UtxoId}

theorem get_remove_of_ne {other : L2UtxoId} (different : other ≠ id) :
    (map.remove id).get other = map.get other := by
  change (map.values.filter _).find? _ = map.values.find? _
  generalize map.values = values
  induction values with
  | nil => rfl
  | cons utxo rest ih =>
    by_cases isRemoved : utxo.id = id
    · rw [filter_cons_of_neg (by simp [isRemoved]), ih, find?_cons_of_neg (by
        simp only [isRemoved, decide_eq_true_eq]
        exact fun eq => different eq.symm)]
    · rw [filter_cons_of_pos (by simp [isRemoved]), find?_cons, find?_cons, ih]

/-- Removing an identifier takes away what the map holds under it. -/
theorem total_remove (map : UtxoMap) (id : L2UtxoId) :
    (map.remove id).total + map.amountAt id = map.total := by
  obtain ⟨values, distinct⟩ := map
  change totalAmount (values.filter fun utxo => utxo.id ≠ id) +
    ((values.find? fun utxo => utxo.id = id).map fun utxo => utxo.amount.toNat).getD 0 =
      totalAmount values
  induction values with
  | nil => rfl
  | cons utxo rest ih =>
    rw [map_cons, List.nodup_cons] at distinct
    by_cases isId : utxo.id = id
    · -- No other output has the identifier.
      have kept : rest.filter (fun other => other.id ≠ id) = rest := by
        refine filter_eq_self.mpr fun other mem => decide_eq_true fun eq => ?_
        exact distinct.1 (isId ▸ eq ▸ List.mem_map_of_mem mem)
      rw [filter_cons_of_neg (by simp [isId]), find?_cons_of_pos (by simp [isId]), kept]
      exact Nat.add_comm _ _
    · rw [filter_cons_of_pos (by simp [isId]), find?_cons_of_neg (by simp [isId]), totalAmount,
        totalAmount, map_cons, map_cons, sum_cons, sum_cons, Nat.add_assoc]
      exact congrArg _ (ih distinct.2)

/-- The outputs that are inserted replace what the map held under their
identifiers. -/
theorem total_inserts (map : UtxoMap) (created : List L2Utxo) :
    (created.foldl insert map).total + map.replaced created = map.total + totalAmount created := by
  induction created generalizing map with
  | nil => rfl
  | cons utxo rest ih =>
    have inserted : (map.insert utxo).total = utxo.amount.toNat + (map.remove utxo.id).total := rfl
    have removed := map.total_remove utxo.id
    have later := ih (map.insert utxo)
    rw [foldl_cons, replaced, totalAmount, map_cons, sum_cons]
    change _ = _ + (_ + totalAmount rest)
    omega

variable {ids : List L2UtxoId}

theorem held_remove (other : id ∉ ids) : (map.remove id).held ids = map.held ids := by
  refine congrArg List.sum (map_congr_left fun each mem => ?_)
  rw [amountAt, amountAt, get_remove_of_ne]
  rintro rfl
  exact other mem

theorem total_removes (map : UtxoMap) (nodup : ids.Nodup) :
    (ids.foldl remove map).total + map.held ids = map.total := by
  induction ids generalizing map with
  | nil => rfl
  | cons id rest ih =>
    obtain ⟨notLater, nodup⟩ := List.nodup_cons.mp nodup
    have removed := map.total_remove id
    have later := ih (map.remove id) nodup
    rw [held_remove notLater] at later
    rw [foldl_cons, held, map_cons, sum_cons]
    change _ + (_ + map.held rest) = _
    omega

end UtxoMap

variable {crypto : RollupCrypto}

theorem replaceOutputs_eq (tx : L2Tx) (map : UtxoMap) : replaceOutputs crypto tx map =
    (tx.created crypto).foldl UtxoMap.insert (tx.spentIds.foldl UtxoMap.remove map) := by
  rw [L2Tx.created, L2Tx.spentIds, foldl_map, foldl_map]
  rfl

theorem totalAmount_created (crypto : RollupCrypto) (tx : L2Tx) :
    totalAmount (tx.created crypto) = exactSum (tx.body.outputs.map L2TxOutput.amount) := by
  have amounts : (tx.created crypto).map (fun utxo => utxo.amount.toNat) =
      (tx.body.outputs.zipIdx.map Prod.fst).map (fun output => output.amount.toNat) := by
    rw [L2Tx.created, List.map_map, List.map_map]
    rfl
  rw [totalAmount, amounts, zipIdx_map_fst]
  simp only [exactSum, List.map_map]
  rfl

/-- The value that the outputs of a transaction replace. -/
def L2Tx.replaced (crypto : RollupCrypto) (tx : L2Tx) (map : UtxoMap) : Nat :=
  (tx.spentIds.foldl UtxoMap.remove map).replaced (tx.created crypto)

/-- The value that the outputs of transactions replace, one after the other. -/
def replacedBy (crypto : RollupCrypto) : UtxoMap → List L2Tx → Nat
  | _, [] => 0
  | map, tx :: rest =>
    tx.replaced crypto map + replacedBy crypto (replaceOutputs crypto tx map) rest

/-- A transaction burns its fee and what its outputs replace. -/
theorem L2Tx.Balances.total {state : BatchState} {tx : L2Tx} (balances : tx.Balances state)
    (crypto : RollupCrypto) :
    (replaceOutputs crypto tx state.map).total + tx.body.fee.toNat +
      tx.replaced crypto state.map = state.map.total := by
  have removed := state.map.total_removes balances.distinct
  have inserted := (tx.spentIds.foldl UtxoMap.remove state.map).total_inserts (tx.created crypto)
  have paid := balances.balanced
  rw [L2TxBody.paid, ← totalAmount_created crypto] at paid
  rw [replaceOutputs_eq, L2Tx.replaced]
  omega

theorem Guest.processTxs_total {state final : BatchState} {txs : List L2Tx}
    (ran : txs.foldlM (processTx crypto) state = .ok final) :
    final.map.total + (txs.map fun tx => tx.body.fee.toNat).sum +
      replacedBy crypto state.map txs = state.map.total := by
  induction txs generalizing state with
  | nil =>
    cases ran
    rfl
  | cons tx rest ih =>
    rw [foldlM_cons, bind_eq_ok] at ran
    obtain ⟨next, now, later⟩ := ran
    obtain ⟨⟨balances, -⟩, rfl⟩ := processTx_eq_ok_iff.mp now
    have nowTotal := balances.total crypto
    have laterTotal := ih later
    change _ + _ + replacedBy crypto (replaceOutputs crypto tx state.map) rest =
      (replaceOutputs crypto tx state.map).total at laterTotal
    rw [map_cons, sum_cons, replacedBy]
    omega

/-- The value of all outputs that a batch replaces: starting outputs, deposits
and created outputs whose identifier is used again before they are spent. -/
def Batch.replaced (crypto : RollupCrypto) (batch : Batch) (utxos : List L2Utxo) : Nat :=
  UtxoMap.empty.replaced (utxos ++ batch.deposits.map Deposit.minted) +
    replacedBy crypto (batch.start utxos).map batch.txs

theorem Batch.start_eq (batch : Batch) (utxos : List L2Utxo) :
    (batch.start utxos).map = (utxos ++ batch.deposits.map Deposit.minted).foldl UtxoMap.insert
      .empty := by
  rw [foldl_append, foldl_map]
  rfl

/-- A batch conserves value when the total of the new outputs, the fees and the
withdrawals are the total of the starting outputs and the deposits, so that the
value that left the outputs covers every withdrawal. It does exactly when it
withdraws as much as its outputs replace. -/
theorem processBatch_conserves (crypto : RollupCrypto) (iteration : HashOrder) (batch : Batch)
    (utxos : List L2Utxo) (journal : BatchJournal)
    (processed : Guest.processBatch crypto iteration batch utxos = .ok journal) :
    ∃ state, batch.txs.foldlM (Guest.processTx crypto) (batch.start utxos) = .ok state ∧
      journal.newStateRoot = computeStateRoot crypto (sortedValues iteration state.map) ∧
      ((state.map.total + batch.fees + batch.withdrawn = totalAmount utxos + batch.deposited ∧
          ∀ withdrawal ∈ batch.withdrawals, state.map.total + batch.fees +
            withdrawal.amount.toNat ≤ totalAmount utxos + batch.deposited) ↔
        batch.replaced crypto utxos = batch.withdrawn) := by
  obtain ⟨-, state, ran, _, -, rfl⟩ := processBatch_eq_ok_iff.mp processed
  have start := UtxoMap.empty.total_inserts (utxos ++ batch.deposits.map Deposit.minted)
  have minted : totalAmount (utxos ++ batch.deposits.map Deposit.minted) =
      totalAmount utxos + batch.deposited := by
    rw [totalAmount, map_append, sum_append, List.map_map]
    rfl
  have conserved := processTxs_total ran
  rw [← Batch.start_eq, minted] at start
  change _ = 0 + _ at start
  refine ⟨state, ran, rfl, ?_⟩
  rw [Batch.replaced]
  change state.map.total + batch.fees + _ = _ at conserved
  constructor
  · rintro ⟨total, -⟩
    omega
  · intro eq
    refine ⟨by omega, fun withdrawal mem => ?_⟩
    have covered : withdrawal.amount.toNat ≤ batch.withdrawn :=
      List.le_sum_of_mem (List.mem_map_of_mem mem)
    omega

/-- A payment of 990 with a fee of 10 out of 1000. -/
theorem toyBatch_conserves :
    ∃ state, (toyBatch (toyTx 1 [toyUtxo.id])).txs.foldlM (Guest.processTx toyCrypto)
          ((toyBatch (toyTx 1 [toyUtxo.id])).start (sortUtxos [toyUtxo])) =
        .ok state ∧
      state.map.total + 10 = 1000 := by
  obtain ⟨journal, processed⟩ := toyBatch_processed [toyUtxo.id]
    (by decide +kernel) (by decide +kernel)
  obtain ⟨state, ran, -, conserved⟩ := processBatch_conserves toyCrypto toyOrder _ _ journal
    processed
  exact ⟨state, ran, (conserved.mpr (by decide +kernel)).1⟩

def bridgeBatch (deposits : List Deposit) (withdrawals : List Withdrawal) : Batch where
  sequence := 1
  l1AnchorBlock := 100
  prevStateRoot := computeStateRoot toyCrypto []
  txs := []
  deposits
  withdrawals

theorem bridgeBatch_processed (deposits : List Deposit) (withdrawals : List Withdrawal)
    (encodable : (bridgeBatch deposits withdrawals).toBorsh.isSome = true) :
    ∃ journal, processBatch toyCrypto toyOrder
        (bridgeBatch deposits withdrawals) [] = .ok journal ∧
      journal.withdrawalCount = UInt32.ofNat withdrawals.length := by
  obtain ⟨calldata, encoded⟩ := Option.isSome_iff_exists.mp encodable
  exact ⟨_, processBatch_eq_ok_iff.mpr ⟨rfl, _, rfl, calldata, encoded, rfl⟩, rfl⟩

/-- A batch may commit to a withdrawal although nothing was destroyed, and of
two deposits with one identifier the first is lost. -/
theorem bridgeBatch_not_conserved : (∃ journal, Guest.processBatch toyCrypto toyOrder
          (bridgeBatch [] [⟨.replicate 32 1, .replicate 48 1, 5⟩]) [] =
        .ok journal ∧
      journal.withdrawalCount = 1 ∧
      ∀ state, ([] : List L2Tx).foldlM (Guest.processTx toyCrypto)
          ((bridgeBatch [] [⟨.replicate 32 1, .replicate 48 1, 5⟩]).start []) = .ok state →
        state.map.total + 5 ≠ 0) ∧
    ∃ journal, Guest.processBatch toyCrypto toyOrder (bridgeBatch
          [⟨.replicate 32 1, 0, .replicate 48 1, 5⟩,
            ⟨.replicate 32 1, 0, .replicate 48 2, 7⟩] []) [] =
        .ok journal ∧
      ∀ state, ([] : List L2Tx).foldlM (Guest.processTx toyCrypto) ((bridgeBatch
          [⟨.replicate 32 1, 0, .replicate 48 1, 5⟩,
            ⟨.replicate 32 1, 0, .replicate 48 2, 7⟩] []).start
          []) = .ok state →
        state.map.total ≠ 5 + 7 := by
  constructor
  · obtain ⟨journal, processed, counted⟩ :=
      bridgeBatch_processed [] [⟨.replicate 32 1, .replicate 48 1, 5⟩] (by decide +kernel)
    refine ⟨journal, processed, counted, ?_⟩
    rintro state -
    exact Nat.succ_ne_zero _
  · obtain ⟨journal, processed, -⟩ := bridgeBatch_processed
      [⟨.replicate 32 1, 0, .replicate 48 1, 5⟩,
        ⟨.replicate 32 1, 0, .replicate 48 2, 7⟩] [] (by decide +kernel)
    refine ⟨journal, processed, ?_⟩
    intro state ran
    cases ran
    decide +kernel

end Sophis
