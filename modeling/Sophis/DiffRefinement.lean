import Sophis.UtxoAlgebra

namespace Sophis

open ExceptLoop FiniteLedger ScoredPatch UtxoDiff

/-!
# Differences refine the ledger

`add_transaction` records the moves of transactions in a difference. The
ledger itself deletes the spent entries and inserts the created ones. As long
as a transaction spends what is there and creates nothing under the score that
the base already has for the outpoint, the recorded difference takes the base
to the same set.
-/

section

variable {base : UtxoSet} {diff : UtxoDiff} {outpoint : TransactionOutpoint} {entry : UtxoEntry}

/-- A difference that fits the base and leads to a given set. -/
def UtxoDiff.LeadsTo (base : UtxoSet) (diff : UtxoDiff) (current : UtxoSet) : Prop :=
  diff.Applicable base ∧ base.withDiff diff = current

theorem UtxoDiff.leadsTo_empty (base : UtxoSet) : LeadsTo base .empty base :=
  applicable_of_transition fun outpoint => Patch.Transition.keep (base.lookup outpoint)

variable (fits : diff.Applicable base)
include fits

theorem UtxoDiff.Applicable.leadsTo_of_cell (outpoint : TransactionOutpoint) {next : UtxoDiff}
    {current : UtxoSet}
    (here : Patch.Transition UtxoEntry.blockDaaScore (next.cell outpoint)
      (base.lookup outpoint) (current.lookup outpoint))
    (elsewhere : ∀ other, other ≠ outpoint → next.cell other = diff.cell other ∧
      current.lookup other = (base.withDiff diff).lookup other) :
    LeadsTo base next current := by
  refine applicable_of_transition fun other => ?_
  by_cases eq : other = outpoint
  · rwa [eq]
  · obtain ⟨sameCell, sameLookup⟩ := elsewhere other eq
    rw [sameCell, sameLookup]
    exact fits.transition other

theorem UtxoDiff.Applicable.removeEntry
    (unspent : (base.withDiff diff).lookup outpoint = some entry) :
    ∃ next, diff.removeEntry outpoint entry = .ok next ∧
      LeadsTo base next ((base.withDiff diff).erase outpoint) := by
  have before := fits.transition outpoint
  rw [unspent] at before
  unfold cell at before
  cases added : diff.add.lookup outpoint with
  | some own =>
    -- The difference added the entry itself and forgets it.
    rw [added] at before
    obtain rfl : entry = own := Option.some.inj before.result_eq
    refine ⟨{ diff with add := diff.add.erase outpoint }, ?_, fits.leadsTo_of_cell outpoint ?_ ?_⟩
    · simp [UtxoDiff.removeEntry, UtxoCollection.containsWithDaaScore, added]
    · rw [cell, AList.lookup_erase, Finmap.lookup_erase]
      generalize diff.remove.lookup outpoint = removed at before ⊢
      generalize base.lookup outpoint = held at before ⊢
      cases before with
      | create => exact .keep none
      | replace _ eq => exact .delete eq
    · intro other ne
      refine ⟨?_, Finmap.lookup_erase_ne ne⟩
      rw [cell, AList.lookup_erase_ne ne, cell]
  | none =>
    -- The base holds the entry, so it was not removed before.
    rw [added] at before
    have untouched : diff.remove.lookup outpoint = none ∧ base.lookup outpoint = some entry := by
      generalize diff.remove.lookup outpoint = removed at before ⊢
      generalize base.lookup outpoint = held at before ⊢
      cases before with
      | keep => exact ⟨rfl, rfl⟩
    refine ⟨{ diff with remove := diff.remove.insert outpoint entry }, ?_,
      fits.leadsTo_of_cell outpoint ?_ ?_⟩
    · simp [UtxoDiff.removeEntry, UtxoCollection.containsWithDaaScore,
        added, AList.lookup_eq_none.mp untouched.1]
    · rw [cell, added, AList.lookup_insert, untouched.2, Finmap.lookup_erase]
      exact .delete rfl
    · intro other ne
      refine ⟨?_, Finmap.lookup_erase_ne ne⟩
      rw [cell, AList.lookup_insert_ne ne, cell]

theorem UtxoDiff.Applicable.addEntry (absent : (base.withDiff diff).lookup outpoint = none)
    (rescored : ∀ held, base.lookup outpoint = some held →
      held.blockDaaScore ≠ entry.blockDaaScore) :
    ∃ next, diff.addEntry outpoint entry = .ok next ∧ LeadsTo base next
      ((base.withDiff diff).insert outpoint entry) := by
  have before := fits.transition outpoint
  rw [absent] at before
  unfold cell at before
  have notAdded : diff.add.lookup outpoint = none := by
    generalize diff.add.lookup outpoint = added at before ⊢
    generalize diff.remove.lookup outpoint = removed at before
    generalize base.lookup outpoint = held at before
    cases before <;> rfl
  rw [notAdded] at before
  refine ⟨{ diff with add := diff.add.insert outpoint entry }, ?_,
    fits.leadsTo_of_cell outpoint ?_ ?_⟩
  · have notRestored : diff.remove.containsWithDaaScore outpoint entry.blockDaaScore = false := by
      rw [UtxoCollection.containsWithDaaScore]
      generalize diff.remove.lookup outpoint = removed at before ⊢
      generalize base.lookup outpoint = held at before rescored
      cases before with
      | keep => rfl
      | delete eq => simpa [← eq] using rescored _ rfl
    simp [UtxoDiff.addEntry, notRestored, AList.lookup_eq_none.mp notAdded]
  · rw [cell, AList.lookup_insert, Finmap.lookup_insert]
    generalize diff.remove.lookup outpoint = removed at before ⊢
    generalize base.lookup outpoint = held at before ⊢
    cases before with
    | keep => exact .create entry
    | delete eq => exact .replace entry eq
  · intro other ne
    refine ⟨?_, Finmap.lookup_insert_of_ne _ ne⟩
    rw [cell, AList.lookup_insert_ne ne, cell]

end

variable {base : UtxoSet}

def Spendable (current : UtxoSet) (spent : TransactionOutpoint × UtxoEntry) : Prop :=
  current.lookup spent.1 = some spent.2

instance (current : UtxoSet) (spent : TransactionOutpoint × UtxoEntry) :
    Decidable (Spendable current spent) :=
  inferInstanceAs (Decidable (_ = _))

/-- An output under a fresh outpoint, or under one that the base held with
another DAA score. -/
def Creatable (base current : UtxoSet) (created : TransactionOutpoint × UtxoEntry) : Prop :=
  current.lookup created.1 = none ∧ ∀ held ∈ base.lookup created.1,
    held.blockDaaScore ≠ created.2.blockDaaScore

instance (base current : UtxoSet) (created : TransactionOutpoint × UtxoEntry) :
    Decidable (Creatable base current created) :=
  inferInstanceAs (Decidable (_ ∧ ∀ held ∈ _, _ ≠ _))

/-- A transaction and the DAA score at which it is accepted. -/
abbrev Acceptance := PopulatedTransaction × UInt64

/-- The ledger after a transaction: its inputs are deleted and its outputs
inserted. -/
def postTransaction (hashers : Hashers) (current : UtxoSet) (accepted : Acceptance) : UtxoSet :=
  post current accepted.1.spentEntries (accepted.1.tx.createdEntries hashers accepted.2)

/-- A transaction whose inputs, one after the other, are in the set and whose
outputs, one after the other, can be created. -/
def Postable (hashers : Hashers) (base current : UtxoSet) (accepted : Acceptance) : Prop :=
  Permitted Spendable (fun utxo spent => utxo.erase spent.1) current accepted.1.spentEntries ∧
    Permitted (Creatable base) (fun utxo created => utxo.insert created.1 created.2)
      (spend current (accepted.1.spentEntries.map Prod.fst))
      (accepted.1.tx.createdEntries hashers accepted.2)

instance (hashers : Hashers) (base current : UtxoSet) (accepted : Acceptance) :
    Decidable (Postable hashers base current accepted) :=
  inferInstanceAs (Decidable (_ ∧ _))

def addTransactions (hashers : Hashers) (diff : UtxoDiff)
    (sequence : List Acceptance) : Except UtxoAlgebraError UtxoDiff :=
  foldEach (fun _ current accepted => current.addTransaction hashers accepted.1 accepted.2)
    diff sequence

variable {diff : UtxoDiff}

section

variable (fits : diff.Applicable base)
include fits

theorem UtxoDiff.Applicable.removeEntries {spent : List (TransactionOutpoint × UtxoEntry)}
    (spends : Permitted Spendable (fun utxo item => utxo.erase item.1) (base.withDiff diff) spent) :
    ∃ next, foldEach (fun _ current item => UtxoDiff.removeEntry current item.1 item.2)
        diff spent = .ok next ∧
      LeadsTo base next (spend (base.withDiff diff) (spent.map Prod.fst)) := by
  rw [spend, List.foldl_map]
  refine foldEachFrom_simulates (LeadsTo base) ?_ ⟨fits, rfl⟩ spends 0
  rintro _ current _ item ⟨currentFits, rfl⟩ spendable
  exact currentFits.removeEntry spendable

theorem UtxoDiff.Applicable.addEntries {created : List (TransactionOutpoint × UtxoEntry)}
    (creates : Permitted (Creatable base)
      (fun utxo item => utxo.insert item.1 item.2) (base.withDiff diff)
      created) : ∃ next, foldEach (fun _ current item => UtxoDiff.addEntry current item.1 item.2)
          diff created = .ok next ∧
        LeadsTo base next (create (base.withDiff diff) created) := by
  refine foldEachFrom_simulates (LeadsTo base) ?_ ⟨fits, rfl⟩ creates 0
  rintro _ current _ item ⟨currentFits, rfl⟩ ⟨absent, rescored⟩
  exact currentFits.addEntry absent rescored

theorem UtxoDiff.Applicable.addTransaction {hashers : Hashers} {accepted : Acceptance}
    (posts : Postable hashers base (base.withDiff diff) accepted) :
    ∃ next, diff.addTransaction hashers accepted.1 accepted.2 = .ok next ∧
      LeadsTo base next (postTransaction hashers (base.withDiff diff) accepted) := by
  obtain ⟨spends, creates⟩ := posts
  obtain ⟨mid, removed, middleFits, spentAll⟩ := fits.removeEntries spends
  rw [← spentAll] at creates
  obtain ⟨next, added, leads⟩ := middleFits.addEntries creates
  refine ⟨next, ?_, ?_⟩
  · rw [UtxoDiff.addTransaction, removed, ok_bind, added]
  · rwa [postTransaction, post, ← spentAll]

end

/-- A sequence of transactions that can be posted is recorded without an error,
and the difference takes the base to the set that results from deleting and
inserting directly. -/
theorem addTransactions_refines (hashers : Hashers) (base : UtxoSet) (sequence : List Acceptance)
    (posts : Permitted (Postable hashers base) (postTransaction hashers) base sequence) :
    ∃ diff, addTransactions hashers .empty sequence = .ok diff ∧ base.withDiff diff =
      sequence.foldl (postTransaction hashers) base := by
  have recorded : ∃ diff, addTransactions hashers .empty sequence = .ok diff ∧
      LeadsTo base diff (sequence.foldl (postTransaction hashers) base) := by
    refine foldEachFrom_simulates (LeadsTo base) ?_ (leadsTo_empty base) posts 0
    rintro _ current _ accepted ⟨currentFits, rfl⟩ postable
    exact currentFits.addTransaction postable
  obtain ⟨diff, succeeds, -, eq⟩ := recorded
  exact ⟨diff, succeeds, eq⟩

/-- Spends the only outpoint and, where all identifiers collide, creates it
again. -/
def recreate (entry : UtxoEntry) : PopulatedTransaction where
  tx := {
    version := 0
    inputs := [⟨soleOutpoint, [], 0, 0⟩]
    outputs := [⟨entry.amount, entry.scriptPublicKey⟩]
    lockTime := 0
    subnetworkId := subnetworkIdNative
    gas := 0
    payload := []
    mass := 0 }
  entries := [entry]
  length_entries := rfl

/-- An outpoint of the base is created again twice, with two later scores. -/
theorem recreations_recorded : ∃ diff, addTransactions .zero .empty
        [(recreate (plainEntry 1 5), 7), (recreate (plainEntry 1 7), 9)] =
      .ok diff ∧
    UtxoSet.withDiff (soleEntry (plainEntry 1 5)).toFinmap diff =
      (soleEntry (plainEntry 1 9)).toFinmap := by
  obtain ⟨diff, recorded, eq⟩ := addTransactions_refines .zero (soleEntry (plainEntry 1 5)).toFinmap
    [(recreate (plainEntry 1 5), 7), (recreate (plainEntry 1 7), 9)] (by decide +kernel)
  exact ⟨diff, recorded, eq.trans (by decide +kernel)⟩

end Sophis
