import Sophis.ChainLedger
import Sophis.UtxoAlgebra

namespace Sophis

open FiniteLedger List ScoredPatch UtxoDiff

/-!
# Exact differences

The difference between two sets that holds exactly the entries in which they
differ. Such differences compose exactly where DAA scores tell the entries of
an outpoint apart. They do so in all sets that known transactions create: an
outpoint names its transaction, and the transaction determines the entry up to
its score.
-/

/-- The difference that leads from one set to another and holds nothing that is
in both. -/
def UtxoDiff.Between (diff : UtxoDiff) (base target : UtxoSet) : Prop :=
  ∀ outpoint, diff.cell outpoint = Patch.between (base.lookup outpoint) (target.lookup outpoint)

/-- Entries of one outpoint with one score are the same in all of some sets. -/
def EntriesDetermined (sets : List UtxoSet) : Prop :=
  ∀ outpoint, Patch.Determined UtxoEntry.blockDaaScore (sets.map fun utxo => utxo.lookup outpoint)

variable {first second diff : UtxoDiff} {base middle target : UtxoSet}

theorem UtxoDiff.Between.withDiff_eq (exactly : diff.Between base target) :
    base.withDiff diff = target := by
  refine Finmap.ext_lookup fun outpoint => ?_
  rw [UtxoSet.lookup_withDiff_cell, exactly outpoint]
  exact (Patch.transition_between UtxoEntry.blockDaaScore _ _).result_eq.symm

theorem UtxoDiff.Between.asReversed (exactly : diff.Between base target) :
    diff.asReversed.Between target base := by
  intro outpoint
  rw [← Patch.reverse_between, ← exactly outpoint]
  rfl

/-- Two exact differences in a row are composed without an error into an exact
one. -/
theorem UtxoDiff.Between.withDiffInPlace (before : first.Between base middle)
    (after : second.Between middle target) (determined : EntriesDetermined [base, middle, target]) :
    ∃ composed, first.withDiffInPlace second = .ok composed ∧ composed.Between base target := by
  refine ⟨first.merged second, withDiffInPlace_eq_ok_iff.mpr ⟨fun outpoint => ?_, rfl⟩,
    fun outpoint => ?_⟩
  · rw [before outpoint, after outpoint]
    exact (Patch.transition_between _ _ _).composable (Patch.transition_between _ _ _)
  · rw [cell_merged, before outpoint, after outpoint]
    exact Patch.compose_between (determined outpoint)

/-- A difference that fits a set and records what it removes is exact. -/
theorem UtxoDiff.Fits.between (fits : diff.Fits base)
    (recorded : ∀ outpoint entry, diff.remove.lookup outpoint = some entry →
      base.lookup outpoint = some entry) : diff.Between base (base.withDiff diff) := by
  intro outpoint
  rw [UtxoSet.lookup_withDiff_cell, cell, Patch.apply]
  cases added : diff.add.lookup outpoint with
  | some entry =>
    have notInBase := fits.added_fresh outpoint
      (AList.lookup_isSome.mp (Option.isSome_of_eq_some added))
    have notRemoved : diff.remove.lookup outpoint = none := AList.lookup_eq_none.mpr fun removed =>
        notInBase (fits.removed_present outpoint removed)
    rw [notRemoved, Finmap.lookup_eq_none.mpr notInBase]
    rfl
  | none =>
    cases removed : diff.remove.lookup outpoint with
    | some entry =>
      rw [recorded outpoint entry removed]
      rfl
    | none => simp [Patch.between]

section

variable {hashers : Hashers} {base : UtxoSet} {daaScore : UInt64} {diff next : UtxoDiff}
  {outpoint : TransactionOutpoint} {entry : UtxoEntry} {populated : PopulatedTransaction}

theorem DiffMove.records (move : DiffMove hashers base daaScore diff populated next)
    (recorded : ∀ outpoint entry, diff.remove.lookup outpoint = some entry →
      base.lookup outpoint = some entry) (got : next.remove.lookup outpoint = some entry) :
    base.lookup outpoint = some entry := by
  rcases (covers_addTransaction move.added).2 _ _ got with old | spent
  · exact recorded outpoint entry old
  · -- An outpoint that the difference added itself is not in the set.
    have inBase := move.next_fits.removed_present outpoint
      (AList.lookup_isSome.mp (Option.isSome_of_eq_some got))
    have notAdded : diff.add.lookup outpoint = none := AList.lookup_eq_none.mpr fun added =>
        move.fits.added_fresh outpoint added inBase
    have unspent := move.admissible.present (outpoint, entry) spent
    simp only [UtxoSet.lookup_withDiff, compose, notAdded] at unspent
    split at unspent
    · cases unspent
    · exact unspent

theorem DiffMoves.between {ran : List PopulatedTransaction}
    (moves : DiffMoves hashers base daaScore .empty ran next) :
    next.Between base (base.withDiff next) := by
  have invariant : ∀ {start}, DiffMoves hashers base daaScore start ran next → start.Fits base →
      (∀ outpoint entry, start.remove.lookup outpoint = some entry →
        base.lookup outpoint = some entry) →
      next.Fits base ∧ ∀ outpoint entry, next.remove.lookup outpoint = some entry →
        base.lookup outpoint = some entry := by
    clear moves
    intro start moves
    induction moves with
    | done => exact fun fits recorded => ⟨fits, recorded⟩
    | move step _ ih => exact fun _ recorded => ih step.next_fits fun _ _ => step.records recorded
  obtain ⟨fits, recorded⟩ := invariant moves (fits_empty base) fun _ _ got => nomatch got
  exact fits.between recorded

end

variable {hashers : Hashers} {params : Params} {known : Transaction → Prop}

/-- Every entry of a set was created by a known transaction. -/
def CreatedFrom (hashers : Hashers) (known : Transaction → Prop) (utxo : UtxoSet) : Prop :=
  ∀ outpoint entry, utxo.lookup outpoint = some entry → ∃ tx, known tx ∧
    ∃ daaScore, (outpoint, entry) ∈ tx.createdEntries hashers daaScore

theorem createdFrom_empty : CreatedFrom hashers known ∅ := by
  intro outpoint entry got
  rw [Finmap.lookup_empty] at got
  cases got

variable {daaScore : UInt64}

theorem DiffMoves.createdFrom {base : UtxoSet} {diff next : UtxoDiff}
    {ran : List PopulatedTransaction}
    (moves : DiffMoves hashers base daaScore diff ran next)
    (before : CreatedFrom hashers known (base.withDiff diff))
    (isKnown : ∀ populated ∈ ran, known populated.tx) :
    CreatedFrom hashers known (base.withDiff next) := by
  induction moves with
  | done => exact before
  | move step _ ih =>
    refine ih ?_ (forall_mem_cons.mp isKnown).2
    intro outpoint entry got
    rw [step.posted] at got
    rcases lookup_post_eq_some step.admissible got with old | new
    · exact before outpoint entry old
    · exact ⟨_, isKnown _ mem_cons_self, daaScore, new⟩

/-- Transactions that their identifiers tell apart, in the shape that body
validation gives them. -/
structure Identifiable (hashers : Hashers) (params : Params)
    (known : Transaction → Prop) : Prop where
  shape : ∀ tx, known tx → OrdinaryShape params.transactionValidator tx ∨
    CoinbaseShape params.transactionValidator tx
  scripts : ∀ tx, known tx → ∀ output ∈ tx.outputs, output.script.length < 2 ^ 64
  collisionFree : ∀ first second, known first → known second →
    first.id hashers = second.id hashers → writeTransaction first.encodingFlags first =
      writeTransaction second.encodingFlags second

theorem Identifiable.outputs_eq (identifiable : Identifiable hashers params known)
    (fits : params.CountsFitWords) {first second : Transaction} (isFirst : known first)
    (isSecond : known second) (sameId : first.id hashers = second.id hashers) :
    first.outputs = second.outputs ∧ first.isCoinbase = second.isCoinbase := by
  have eq := identifiable.collisionFree first second isFirst isSecond sameId
  have bounded (tx : Transaction) (isKnown : known tx) : tx.outputs.length < 2 ^ 64 := by
    have words := shape_outputs_fit fits (identifiable.shape tx isKnown)
    omega
  have outputs (sameSpace : (first.inputs.flatMap (writeInput first.encodingFlags)).length =
        (second.inputs.flatMap (writeInput second.encodingFlags)).length) :
      first.outputs = second.outputs :=
    outputs_of_writeTransaction sameSpace (bounded first isFirst) (bounded second isSecond)
      (identifiable.scripts first isFirst) (identifiable.scripts second isSecond) eq
  rcases identifiable.shape first isFirst with ordinary | coinbase
  · have firstFits := ordinary.inputs_bounded.trans_lt fits.inputs
    rcases identifiable.shape second isSecond with other | coinbase
    · have sameCount := (inputs_of_writeTransaction firstFits
        (other.inputs_bounded.trans_lt fits.inputs) eq).1
      refine ⟨outputs ?_, ordinary.notCoinbase.trans other.notCoinbase.symm⟩
      simp only [Transaction.encodingFlags, ordinary.notCoinbase, other.notCoinbase,
        Bool.false_eq_true, if_false, length_flatMap_writeInput, sameCount]
    · exact absurd eq.symm (writeTransaction_ne_of_noInputs
        coinbase.noInputs ordinary.inputs_nonempty firstFits)
  · rcases identifiable.shape second isSecond with ordinary | other
    · exact absurd eq (writeTransaction_ne_of_noInputs coinbase.noInputs ordinary.inputs_nonempty
        (ordinary.inputs_bounded.trans_lt fits.inputs))
    · refine ⟨outputs ?_, coinbase.isCoinbase.trans other.isCoinbase.symm⟩
      rw [coinbase.noInputs, other.noInputs]
      rfl

theorem Transaction.exists_output_of_mem_createdEntries {tx : Transaction}
    {outpoint : TransactionOutpoint} {entry : UtxoEntry}
    (mem : (outpoint, entry) ∈ tx.createdEntries hashers daaScore)
    (bounded : tx.outputs.length ≤ 2 ^ 32) :
    outpoint.transactionId = tx.id hashers ∧
      ∃ output, tx.outputs[outpoint.index.toNat]? = some output ∧
        entry = output.toEntry daaScore tx.isCoinbase := by
  obtain ⟨⟨output, index⟩, listed, eq⟩ := List.mem_map.mp mem
  cases eq
  have got := mem_zipIdx_iff_getElem?.mp listed
  have inRange := (List.getElem?_eq_some_iff.mp got).1
  refine ⟨rfl, output, ?_, rfl⟩
  rwa [UInt32.toNat_ofNat', Nat.mod_eq_of_lt (by omega)]

/-- An outpoint and a score determine the entry that a known transaction
creates. -/
theorem Identifiable.entriesDetermined (identifiable : Identifiable hashers params known)
    (fits : params.CountsFitWords) {sets : List UtxoSet}
    (created : ∀ utxo ∈ sets, CreatedFrom hashers known utxo) : EntriesDetermined sets := by
  intro outpoint entry other listed otherListed sameScore
  obtain ⟨utxo, inSets, got⟩ := List.mem_map.mp listed
  obtain ⟨otherUtxo, otherInSets, otherFound⟩ := List.mem_map.mp otherListed
  obtain ⟨tx, isKnown, daaScore, creates⟩ := created utxo inSets outpoint entry got
  obtain ⟨otherTx, otherKnown, otherScore, otherCreates⟩ :=
    created otherUtxo otherInSets outpoint other otherFound
  obtain ⟨isId, output, atIndex, rfl⟩ := Transaction.exists_output_of_mem_createdEntries creates
      (shape_outputs_fit fits (identifiable.shape tx isKnown))
  obtain ⟨otherIsId, otherOutput, otherAtIndex, rfl⟩ :=
    Transaction.exists_output_of_mem_createdEntries otherCreates
      (shape_outputs_fit fits (identifiable.shape otherTx otherKnown))
  obtain ⟨sameOutputs, sameKind⟩ := identifiable.outputs_eq fits isKnown
    otherKnown (isId.symm.trans otherIsId)
  rw [sameOutputs, otherAtIndex] at atIndex
  cases atIndex
  rw [TransactionOutput.toEntry, TransactionOutput.toEntry] at sameScore ⊢
  rw [sameKind, show daaScore = otherScore from sameScore]

end Sophis
