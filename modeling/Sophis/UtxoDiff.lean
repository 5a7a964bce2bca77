import Sophis.BlockBody
import Sophis.FiniteLedger

namespace Sophis

open ExceptLoop FiniteLedger Finmap List Prod

/-!
# Differences of the set of unspent outputs

`UtxoDiff` of `consensus/core/src/utxo/utxo_diff.rs`: the entries a block adds
to and removes from the set of its selected parent, as transactions are
applied one by one.
-/

/-- Unspent outputs by outpoint. -/
abbrev UtxoSet := Ledger TransactionOutpoint UtxoEntry

/-- The outputs on one side of a diff. -/
abbrev UtxoCollection := AList fun _ : TransactionOutpoint => UtxoEntry

/-- Whatever answers which entry stands behind an outpoint. -/
abbrev UtxoView := TransactionOutpoint → Option UtxoEntry

def UtxoCollection.containsWithDaaScore (collection : UtxoCollection)
    (outpoint : TransactionOutpoint) (daaScore : UInt64) : Bool :=
  (collection.lookup outpoint).any fun entry => entry.blockDaaScore = daaScore

/-- Outputs to add and outputs to remove. -/
structure UtxoDiff where
  add : UtxoCollection
  remove : UtxoCollection
  deriving DecidableEq

/-- Why diffs do not fit together. -/
inductive UtxoAlgebraError where
  | duplicateRemovePoint (outpoint : TransactionOutpoint)
  | duplicateAddPoint (outpoint : TransactionOutpoint)
  | doubleRemoveCall (outpoint : TransactionOutpoint)
  | doubleAddCall (outpoint : TransactionOutpoint)
  | diffIntersectionPoint (outpoint : TransactionOutpoint) (text : String)
  | general (text : String)
  deriving Repr, DecidableEq

def PopulatedTransaction.spentEntries (populated : PopulatedTransaction) :
    List (TransactionOutpoint × UtxoEntry) :=
  populated.populatedInputs.map fun populatedInput =>
    (populatedInput.1.previousOutpoint, populatedInput.2)

def TransactionOutput.toEntry (output : TransactionOutput)
    (blockDaaScore : UInt64) (isCoinbase : Bool) : UtxoEntry :=
  ⟨output.value, output.scriptPublicKey, blockDaaScore, isCoinbase⟩

def Transaction.createdEntries (hashers : Hashers) (tx : Transaction)
    (blockDaaScore : UInt64) : List (TransactionOutpoint × UtxoEntry) :=
  tx.outputs.zipIdx.map fun (output, index) =>
    (⟨tx.id hashers, UInt32.ofNat index⟩, output.toEntry blockDaaScore tx.isCoinbase)

theorem PopulatedTransaction.spentEntries_map_fst (populated : PopulatedTransaction) :
    populated.spentEntries.map fst =
      populated.tx.inputs.map TransactionInput.previousOutpoint := by
  have zipped : populated.populatedInputs.map fst = populated.tx.inputs :=
    map_fst_zip (Nat.le_of_eq populated.length_entries.symm)
  rw [spentEntries, List.map_map, ← zipped, List.map_map]
  rfl

theorem PopulatedTransaction.spentEntries_map_snd (populated : PopulatedTransaction) :
    populated.spentEntries.map snd = populated.entries := by
  rw [spentEntries, List.map_map, ← populated.populatedInputs_map_snd]
  rfl

variable {hashers : Hashers} {tx : Transaction} {daaScore : UInt64}

/-- Everything a transaction creates carries its identifier. -/
theorem Transaction.transactionId_of_mem_createdEntries {outpoint : TransactionOutpoint}
    (mem : outpoint ∈ (tx.createdEntries hashers daaScore).map fst) :
    outpoint.transactionId = tx.id hashers := by
  rw [createdEntries, List.map_map] at mem
  obtain ⟨item, -, rfl⟩ := List.mem_map.mp mem
  rfl

theorem Transaction.createdEntries_distinct (bounded : tx.outputs.length ≤ 2 ^ 32) :
    ((tx.createdEntries hashers daaScore).map fst).Nodup := by
  have keys : (tx.createdEntries hashers daaScore).map fst =
      (List.range' 0 tx.outputs.length).map fun index => ⟨tx.id hashers, UInt32.ofNat index⟩ := by
    rw [createdEntries, List.map_map, ← zipIdx_map_snd, List.map_map]
    rfl
  rw [keys]
  refine (nodup_range' 1).map_on fun first firstMember second secondMember eq => ?_
  have firstBound := (mem_range'_1.mp firstMember).2
  have secondBound := (mem_range'_1.mp secondMember).2
  have indices := congrArg UInt32.toNat (TransactionOutpoint.mk.inj eq).2
  rwa [UInt32.toNat_ofNat', UInt32.toNat_ofNat',
    Nat.mod_eq_of_lt (by omega), Nat.mod_eq_of_lt (by omega)] at indices

namespace UtxoDiff

def empty : UtxoDiff := ⟨∅, ∅⟩

/-- An entry that the difference added itself is forgotten; any other is
recorded as removed, once. -/
def removeEntry (diff : UtxoDiff) (outpoint : TransactionOutpoint)
    (entry : UtxoEntry) : Except UtxoAlgebraError UtxoDiff :=
  if diff.add.containsWithDaaScore outpoint entry.blockDaaScore then
    .ok { diff with add := diff.add.erase outpoint }
  else if outpoint ∈ diff.remove then
    .error (.doubleRemoveCall outpoint)
  else
    .ok { diff with remove := diff.remove.insert outpoint entry }

/-- An entry that the difference removed with the same score is restored; any
other is recorded as added, once. -/
def addEntry (diff : UtxoDiff) (outpoint : TransactionOutpoint)
    (entry : UtxoEntry) : Except UtxoAlgebraError UtxoDiff :=
  if diff.remove.containsWithDaaScore outpoint entry.blockDaaScore then
    .ok { diff with remove := diff.remove.erase outpoint }
  else if outpoint ∈ diff.add then
    .error (.doubleAddCall outpoint)
  else
    .ok { diff with add := diff.add.insert outpoint entry }

/-- Spends the inputs of a transaction and creates its outputs as they
stand. -/
def addTransaction (hashers : Hashers) (diff : UtxoDiff)
    (populated : PopulatedTransaction) (blockDaaScore : UInt64) :
    Except UtxoAlgebraError UtxoDiff := do
  let removed ← foldEach (fun _ current spent => removeEntry current spent.1 spent.2) diff
    populated.spentEntries
  foldEach (fun _ current created => addEntry current created.1 created.2)
    removed (populated.tx.createdEntries hashers blockDaaScore)

def compose (base : UtxoView) (diff : UtxoDiff) : UtxoView := fun outpoint =>
    match diff.add.lookup outpoint with
    | some entry => some entry
    | none => if outpoint ∈ diff.remove then none else base outpoint

end UtxoDiff

/-- What a collection grows to when it gains some entries at most. -/
def UtxoCollection.Covers (before : UtxoCollection)
    (gained : List (TransactionOutpoint × UtxoEntry)) (after : UtxoCollection) : Prop :=
  ∀ outpoint entry, after.lookup outpoint = some entry →
    before.lookup outpoint = some entry ∨ (outpoint, entry) ∈ gained

variable {before middle after : UtxoCollection}
  {gained later : List (TransactionOutpoint × UtxoEntry)}

namespace UtxoCollection

theorem covers_self : before.Covers gained before := fun _ _ => .inl

theorem Covers.trans (first : before.Covers gained middle) (second : middle.Covers later after) :
    before.Covers (gained ++ later) after := by
  intro outpoint entry got
  rcases second outpoint entry got with prior | isLater
  · exact (first outpoint entry prior).imp_right fun mem => mem_append_left _ mem
  · exact .inr (mem_append_right _ isLater)

theorem covers_erase (erased : TransactionOutpoint) : before.Covers [] (before.erase erased) := by
  intro outpoint entry got
  by_cases eq : outpoint = erased
  · rw [eq, AList.lookup_erase] at got
    cases got
  · rw [AList.lookup_erase_ne eq] at got
    exact .inl got

theorem covers_insert (inserted : TransactionOutpoint × UtxoEntry) :
    before.Covers [inserted] (before.insert inserted.1 inserted.2) := by
  intro outpoint entry got
  by_cases eq : outpoint = inserted.1
  · subst eq
    rw [AList.lookup_insert] at got
    cases got
    exact .inr mem_cons_self
  · rw [AList.lookup_insert_ne eq] at got
    exact .inl got

end UtxoCollection

namespace UtxoDiff

open UtxoCollection

variable {hashers : Hashers} {diff next : UtxoDiff}

theorem covers_removeEntry {spent : TransactionOutpoint × UtxoEntry}
    (removed : diff.removeEntry spent.1 spent.2 = .ok next) :
    diff.add.Covers [] next.add ∧ diff.remove.Covers [spent] next.remove := by
  rw [removeEntry] at removed
  split at removed
  · cases removed
    exact ⟨covers_erase _, covers_self⟩
  · split at removed
    · cases removed
    · cases removed
      exact ⟨covers_self, covers_insert spent⟩

theorem covers_addEntry {created : TransactionOutpoint × UtxoEntry}
    (added : diff.addEntry created.1 created.2 = .ok next) :
    diff.add.Covers [created] next.add ∧ diff.remove.Covers [] next.remove := by
  rw [addEntry] at added
  split at added
  · cases added
    exact ⟨covers_self, covers_erase _⟩
  · split at added
    · cases added
    · cases added
      exact ⟨covers_insert created, covers_self⟩

/-- What a transaction creates is all that is added, what it spends all that is
removed. -/
theorem covers_addTransaction {populated : PopulatedTransaction} {daaScore : UInt64}
    (ran : diff.addTransaction hashers populated daaScore = .ok next) :
    diff.add.Covers (populated.tx.createdEntries hashers daaScore) next.add ∧
      diff.remove.Covers populated.spentEntries next.remove := by
  rw [addTransaction, bind_eq_ok] at ran
  obtain ⟨middle, spends, creates⟩ := ran
  obtain ⟨kept, spent⟩ := foldEach_invariant
    (fun processed current => diff.add.Covers [] current.add ∧
      diff.remove.Covers processed current.remove)
    (fun _ _ _ _ _ prior stepped => have step := covers_removeEntry stepped
      ⟨prior.1.trans step.1, prior.2.trans step.2⟩)
    ⟨covers_self, covers_self⟩ spends
  obtain ⟨created, unspent⟩ := foldEach_invariant
    (fun processed current => middle.add.Covers processed current.add ∧
      middle.remove.Covers [] current.remove)
    (fun _ _ _ _ _ prior stepped => have step := covers_addEntry stepped
      ⟨prior.1.trans step.1, prior.2.trans step.2⟩)
    ⟨covers_self, covers_self⟩ creates
  refine ⟨kept.trans created, ?_⟩
  simpa only [append_nil] using spent.trans unspent

end UtxoDiff

/-- Writes a difference to the set: deletes what it removes, then writes what
it adds. -/
def UtxoSet.withDiff (base : UtxoSet) (diff : UtxoDiff) : UtxoSet :=
  create (spend base diff.remove.keys) (diff.add.entries.map fun entry => (entry.1, entry.2))

/-- The set under a difference and the composed view are the same thing. -/
theorem UtxoSet.lookup_withDiff (base : UtxoSet) (diff : UtxoDiff)
    (outpoint : TransactionOutpoint) :
    (base.withDiff diff).lookup outpoint = diff.compose base.lookup outpoint := by
  have keys : (diff.add.entries.map fun entry => (entry.1, entry.2)).map fst =
      diff.add.keys := by
    simp [AList.keys, List.keys, Function.comp_def]
  rw [withDiff, UtxoDiff.compose]
  cases added : diff.add.lookup outpoint with
  | some entry =>
    refine lookup_create_of_mem (keys ▸ diff.add.keys_nodup) ?_
    have mem := AList.mem_lookup_iff.mp added
    exact List.mem_map.mpr ⟨⟨outpoint, entry⟩, mem, rfl⟩
  | none =>
    have absent : outpoint ∉ diff.add.keys := by
      intro mem
      have isSome := AList.lookup_isSome.mpr (AList.mem_keys.mpr mem)
      simp [added] at isSome
    rw [lookup_create_of_notMem (keys ▸ absent), lookup_spend]
    by_cases removed : outpoint ∈ diff.remove
    · simp [removed, AList.mem_keys.mp removed]
    · have notKey : outpoint ∉ diff.remove.keys := fun mem => removed (AList.mem_keys.mpr mem)
      simp [removed, notKey]

variable {base : UtxoSet} {diff : UtxoDiff} {outpoint : TransactionOutpoint}

open UtxoDiff UtxoSet

theorem UtxoSet.mem_withDiff : outpoint ∈ base.withDiff diff ↔
    outpoint ∈ diff.add ∨ (outpoint ∉ diff.remove ∧ outpoint ∈ base) := by
  rw [← lookup_isSome, lookup_withDiff, compose]
  cases added : diff.add.lookup outpoint with
  | some entry =>
    have isAdded : outpoint ∈ diff.add := AList.lookup_isSome.mp (by simp [added])
    simp [isAdded]
  | none =>
    have notAdded := AList.lookup_eq_none.mp added
    by_cases removed : outpoint ∈ diff.remove
    · simp [removed, notAdded]
    · simp [removed, notAdded, lookup_isSome]

/-- A difference that adds only what is not in the set and removes only what
is. -/
structure UtxoDiff.Fits (base : UtxoSet) (diff : UtxoDiff) : Prop where
  added_fresh : ∀ outpoint ∈ diff.add, outpoint ∉ base
  removed_present : ∀ outpoint ∈ diff.remove, outpoint ∈ base

theorem UtxoDiff.fits_empty (base : UtxoSet) : UtxoDiff.empty.Fits base where
  added_fresh := fun _ mem => absurd mem (AList.notMem_empty _)
  removed_present := fun _ mem => absurd mem (AList.notMem_empty _)

theorem UtxoSet.withDiff_empty (base : UtxoSet) : base.withDiff .empty = base := rfl

variable (fits : diff.Fits base)
include fits

theorem UtxoDiff.Fits.removeEntry {entry : UtxoEntry}
    (unspent : (base.withDiff diff).lookup outpoint = some entry) :
    ∃ next, diff.removeEntry outpoint entry = .ok next ∧ next.Fits base ∧
      base.withDiff next = (base.withDiff diff).erase outpoint := by
  rw [lookup_withDiff, compose] at unspent
  cases added : diff.add.lookup outpoint with
  | some own =>
    -- The difference added the entry, so the set itself never held it.
    rw [added, Option.some.injEq] at unspent
    subst unspent
    have isAdded : outpoint ∈ diff.add := AList.lookup_isSome.mp (by simp [added])
    have notRemoved : outpoint ∉ diff.remove := fun mem =>
      fits.added_fresh outpoint isAdded (fits.removed_present outpoint mem)
    refine ⟨{ diff with add := diff.add.erase outpoint }, ?_, ?_, ?_⟩
    · simp [UtxoDiff.removeEntry, UtxoCollection.containsWithDaaScore, added]
    · exact {
        added_fresh := fun other mem => fits.added_fresh other (AList.mem_erase.mp mem).2
        removed_present := fits.removed_present
      }
    · refine ext_lookup fun other => ?_
      by_cases eq : other = outpoint
      · subst eq
        rw [lookup_erase, lookup_withDiff, compose]
        simp [notRemoved, lookup_eq_none.mpr (fits.added_fresh other isAdded)]
      · rw [lookup_erase_ne eq, lookup_withDiff, lookup_withDiff,
          compose, compose, AList.lookup_erase_ne eq]
  | none =>
    rw [added] at unspent
    by_cases removed : outpoint ∈ diff.remove
    · simp [removed] at unspent
    · simp only [removed, if_false] at unspent
      refine ⟨{ diff with remove := diff.remove.insert outpoint entry }, ?_, ?_, ?_⟩
      · simp [UtxoDiff.removeEntry, UtxoCollection.containsWithDaaScore, added, removed]
      · refine { added_fresh := fits.added_fresh, removed_present := ?_ }
        intro other mem
        rcases (AList.mem_insert _).mp mem with eq | old
        · rw [eq]
          exact mem_of_lookup_eq_some unspent
        · exact fits.removed_present other old
      · refine ext_lookup fun other => ?_
        by_cases eq : other = outpoint
        · subst eq
          rw [lookup_erase, lookup_withDiff, compose]
          simp [added]
        · rw [lookup_erase_ne eq, lookup_withDiff, lookup_withDiff, compose, compose]
          simp [AList.mem_insert, eq]

theorem UtxoDiff.Fits.addEntry (new : outpoint ∉ base) (fresh : outpoint ∉ base.withDiff diff)
    (entry : UtxoEntry) : ∃ next, diff.addEntry outpoint entry = .ok next ∧ next.Fits base ∧
      base.withDiff next = (base.withDiff diff).insert outpoint entry := by
  have notAdded : outpoint ∉ diff.add := fun mem =>
    fresh (mem_withDiff.mpr (.inl mem))
  have notRemoved : outpoint ∉ diff.remove := fun mem =>
    new (fits.removed_present outpoint mem)
  have noRemoval : diff.remove.lookup outpoint = none := AList.lookup_eq_none.mpr notRemoved
  refine ⟨{ diff with add := diff.add.insert outpoint entry }, ?_, ?_, ?_⟩
  · simp [UtxoDiff.addEntry, UtxoCollection.containsWithDaaScore, noRemoval, notAdded]
  · refine { added_fresh := ?_, removed_present := fits.removed_present }
    intro other mem
    rcases (AList.mem_insert _).mp mem with eq | old
    · rwa [eq]
    · exact fits.added_fresh other old
  · refine ext_lookup fun other => ?_
    by_cases eq : other = outpoint
    · subst eq
      rw [lookup_insert, lookup_withDiff, compose]
      simp
    · rw [lookup_insert_of_ne _ eq, lookup_withDiff, lookup_withDiff,
        compose, compose, AList.lookup_insert_ne eq]

theorem UtxoDiff.Fits.removeEntries {spent : List (TransactionOutpoint × UtxoEntry)}
    (nodup : (spent.map fst).Nodup)
    (unspent : ∀ entry ∈ spent, (base.withDiff diff).lookup entry.1 = some entry.2) (start : Nat) :
    ∃ next, foldEachFrom (fun _ current entry => UtxoDiff.removeEntry current entry.1 entry.2)
        start diff spent = .ok next ∧
      next.Fits base ∧
      base.withDiff next = spend (base.withDiff diff) (spent.map fst) := by
  induction spent generalizing diff start with
  | nil => exact ⟨diff, rfl, fits, rfl⟩
  | cons entry rest ih =>
    rw [map_cons, List.nodup_cons] at nodup
    obtain ⟨middle, removed, middleFits, erased⟩ := fits.removeEntry (unspent entry mem_cons_self)
    have stillUnspent : ∀ other ∈ rest, (base.withDiff middle).lookup other.1 = some other.2 := by
      intro other mem
      have ne : other.1 ≠ entry.1 := fun eq => nodup.1 (eq ▸ List.mem_map_of_mem mem)
      rw [erased, lookup_erase_ne ne]
      exact unspent other (mem_cons_of_mem _ mem)
    obtain ⟨next, ran, nextFits, spentAll⟩ := ih middleFits nodup.2 stillUnspent (start + 1)
    refine ⟨next, ?_, nextFits, ?_⟩
    · rw [foldEachFrom, removed, ok_bind, ran]
    · rw [spentAll, erased]
      rfl

theorem UtxoDiff.Fits.addEntries {created : List (TransactionOutpoint × UtxoEntry)}
    (nodup : (created.map fst).Nodup)
    (new : ∀ entry ∈ created, entry.1 ∉ base ∧ entry.1 ∉ base.withDiff diff) (start : Nat) :
    ∃ next, foldEachFrom (fun _ current entry => UtxoDiff.addEntry current entry.1 entry.2)
        start diff created = .ok next ∧
      next.Fits base ∧
      base.withDiff next = create (base.withDiff diff) created := by
  induction created generalizing diff start with
  | nil => exact ⟨diff, rfl, fits, rfl⟩
  | cons entry rest ih =>
    rw [map_cons, List.nodup_cons] at nodup
    obtain ⟨neverInBase, fresh⟩ := new entry mem_cons_self
    obtain ⟨middle, added, middleFits, inserted⟩ := fits.addEntry neverInBase fresh entry.2
    have stillNew : ∀ other ∈ rest, other.1 ∉ base ∧ other.1 ∉ base.withDiff middle := by
      intro other mem
      obtain ⟨otherNotInBase, otherFresh⟩ := new other (mem_cons_of_mem _ mem)
      refine ⟨otherNotInBase, ?_⟩
      rw [inserted, mem_insert]
      rintro (eq | old)
      · exact nodup.1 (eq ▸ List.mem_map_of_mem mem)
      · exact otherFresh old
    obtain ⟨next, ran, nextFits, createdAll⟩ := ih middleFits nodup.2 stillNew (start + 1)
    refine ⟨next, ?_, nextFits, ?_⟩
    · rw [foldEachFrom, added, ok_bind, ran]
    · rw [createdAll, inserted]
      rfl

/-- Applying a transaction to the difference of a set moves its entries in the
set: what it spends must be unspent, and what it creates must be new. -/
theorem UtxoDiff.Fits.addTransaction {populated : PopulatedTransaction}
    (spentDistinct : (populated.spentEntries.map fst).Nodup)
    (unspent : ∀ entry ∈ populated.spentEntries, (base.withDiff diff).lookup entry.1 = some entry.2)
    (createdDistinct : ((populated.tx.createdEntries hashers daaScore).map fst).Nodup)
    (new : ∀ entry ∈ populated.tx.createdEntries hashers daaScore,
      entry.1 ∉ base ∧ entry.1 ∉ base.withDiff diff) :
    ∃ next, diff.addTransaction hashers populated daaScore = .ok next ∧ next.Fits base ∧
      base.withDiff next = post (base.withDiff diff) populated.spentEntries
        (populated.tx.createdEntries hashers daaScore) := by
  obtain ⟨middle, removed, middleFits, spentAll⟩ := fits.removeEntries spentDistinct unspent 0
  have stillNew : ∀ entry ∈ populated.tx.createdEntries hashers daaScore,
      entry.1 ∉ base ∧ entry.1 ∉ base.withDiff middle := by
    intro entry mem
    refine ⟨(new entry mem).1, ?_⟩
    rw [spentAll, mem_spend]
    exact fun unspentStill => (new entry mem).2 unspentStill.1
  obtain ⟨next, added, nextFits, createdAll⟩ := middleFits.addEntries createdDistinct stillNew 0
  refine ⟨next, ?_, nextFits, ?_⟩
  · rw [UtxoDiff.addTransaction, foldEach, removed, ok_bind, foldEach, added]
  · rw [createdAll, spentAll, post]

end Sophis
