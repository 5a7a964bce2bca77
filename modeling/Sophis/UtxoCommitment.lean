import Mathlib.Algebra.Group.Pi.Basic
import Mathlib.Tactic.Abel
import Sophis.ParallelReduce
import Sophis.SkippedScripts

namespace Sophis

open ByteCodec FiniteLedger List Option ParallelReduce UtxoProcessingContext

/-!
# The commitment to the unspent outputs

The lattice hash of `crypto/muhash/src/lib.rs`, its use on transactions in
`consensus/core/src/muhash.rs`, and how `calculate_utxo_state` carries it along
with the difference. The workers of one merged block hash the transactions
they validate, and their partial hashes are combined.
-/

def lthashLanes : Nat := 1024

/-- A vector of 16-bit lanes. -/
abbrev MuHash := Fin lthashLanes → UInt16

variable (elementHash : List UInt8 → Hash)

/-- The lanes of an element: every 16 lanes are the hash of a counter and the
element. -/
def expandElement (data : List UInt8) : MuHash := fun lane =>
  u16At (elementHash (leBytes 4 (lane.val / 16) ++ data)).bytes (2 * (lane.val % 16))

def accumulate (data : List UInt8) (adding : Bool) (lanes : MuHash) : MuHash := fun lane =>
  if adding then lanes lane + expandElement elementHash data lane
  else lanes lane - expandElement elementHash data lane

def writeUtxo (outpoint : TransactionOutpoint) (entry : UtxoEntry) : List UInt8 :=
  outpoint.transactionId.bytes ++ leBytes 4 outpoint.index.toNat ++
    leBytes 8 entry.blockDaaScore.toNat ++ leBytes 8 entry.amount.toNat ++
    [if entry.isCoinbase then 1 else 0] ++
    leBytes 2 entry.scriptPublicKey.version.toNat ++
    writeVarBytes entry.scriptPublicKey.script

namespace MuHash

def new : MuHash := fun _ => 0

def combine (first second : MuHash) : MuHash := fun lane => first lane + second lane

def addUtxo (multiset : MuHash) (outpoint : TransactionOutpoint) (entry : UtxoEntry) : MuHash :=
  accumulate elementHash (writeUtxo outpoint entry) true multiset

/-- Removes what a transaction spends and adds what it creates. -/
def addTransaction (hashers : Hashers) (multiset : MuHash)
    (populated : PopulatedTransaction) (blockDaaScore : UInt64) : MuHash :=
  let removed := populated.spentEntries.foldl (fun current entry =>
      accumulate elementHash (writeUtxo entry.1 entry.2) false current)
    multiset
  (populated.tx.createdEntries hashers blockDaaScore).foldl
    (fun current entry => addUtxo elementHash current entry.1 entry.2) removed

def fromTransaction (hashers : Hashers) (populated : PopulatedTransaction)
    (blockDaaScore : UInt64) : MuHash :=
  addTransaction elementHash hashers new populated blockDaaScore

end MuHash

section

variable (elementHash : List UInt8 → Hash) (hashers : Hashers) (params : Params)

/-- Validates the transactions of a block and hashes the valid ones. Every
worker keeps its own list and hash. -/
def validateTransactionsWithMuhashInParallel
    (environment : ValidationEnvironment) (txs : List Transaction)
    (view : UtxoView) (povDaaScore : UInt64) (flags : TxValidationFlags)
    (splitting : Splitting) :
    Option (List (ValidatedTransaction × Nat) × MuHash) := do
  let validated ← validateTransactionsInParallel hashers params environment
    txs view povDaaScore flags
  return splitting.reduce (fun first second => (first.1 ++ second.1, first.2.combine second.2))
    ([], .new)
    (validated.map fun accepted =>
      ([accepted], .fromTransaction elementHash hashers accepted.1.populated povDaaScore))

/-- Merges one block and combines the hash of what it contributes. The cuts
are those of the next block to merge. -/
def mergeBlockWithMuhash (base : UtxoView) (povDaaScore : UInt64)
    (cuts : Nat → Splitting) (current : UtxoProcessingContext × MuHash)
    (merged : Block × TxValidationFlags) :
    Option (UtxoProcessingContext × MuHash) := do
  let (validated, innerMultiset) ← validateTransactionsWithMuhashInParallel elementHash hashers
    params current.1.environment merged.1.transactions (current.1.mergesetDiff.compose base)
    povDaaScore merged.2 (cuts current.1.acceptance.length)
  let next ← mergeValidated hashers params povDaaScore current.1 merged validated
  return (next, current.2.combine innerMultiset)

/-- The calculation of a state together with its multiset. -/
def calculateUtxoStateWithMuhash (environment : ValidationEnvironment)
    (base : UtxoView) (povDaaScore : UInt64) (selectedParent : Block)
    (mergeset : List Block) (cuts : Nat → Splitting) (multiset : MuHash) :
    Option (UtxoProcessingContext × MuHash) := do
  let coinbase ← selectedParent.coinbase?
  let validated ← ValidatedTransaction.newCoinbase coinbase
  let diff ← applyAll hashers povDaaScore .empty [validated]
  ((selectedParent, .skipScriptChecks) :: mergeset.map fun block => (block, .full)).foldlM
    (mergeBlockWithMuhash elementHash hashers params base povDaaScore cuts)
    (⟨environment, diff, [], []⟩, multiset.addTransaction elementHash hashers validated.populated
      povDaaScore)

end

section

variable (elementHash : List UInt8 → Hash)

/-- The sum of the elements of all unspent outputs. -/
def commitment (utxo : UtxoSet) : MuHash := weigh (fun outpoint entry =>
    expandElement elementHash (writeUtxo outpoint entry)) utxo

/-- The sum of the elements of some entries. -/
def elementSum (entries : List (TransactionOutpoint × UtxoEntry)) : MuHash :=
  (entries.map fun entry => expandElement elementHash (writeUtxo entry.1 entry.2)).sum

/-- What a transaction changes in the hash. -/
def PopulatedTransaction.hashChange (hashers : Hashers)
    (populated : PopulatedTransaction) (daaScore : UInt64) : MuHash :=
  elementSum elementHash (populated.tx.createdEntries hashers daaScore) -
    elementSum elementHash populated.spentEntries

variable {elementHash} {hashers : Hashers} {params : Params}

theorem accumulate_add (data : List UInt8) (lanes : MuHash) :
    accumulate elementHash data true lanes = lanes + expandElement elementHash data :=
  rfl

theorem accumulate_remove (data : List UInt8) (lanes : MuHash) :
    accumulate elementHash data false lanes = lanes - expandElement elementHash data :=
  rfl

section

variable (entries : List (TransactionOutpoint × UtxoEntry)) (multiset : MuHash)
include entries multiset

theorem foldl_addUtxo :
    entries.foldl (fun current entry => current.addUtxo elementHash entry.1 entry.2) multiset =
      multiset + elementSum elementHash entries := by
  induction entries generalizing multiset with
  | nil => exact (add_zero multiset).symm
  | cons entry rest ih =>
    rw [foldl_cons, ih, MuHash.addUtxo, accumulate_add, elementSum, elementSum, map_cons,
      sum_cons, add_assoc]

theorem foldl_removeUtxo : entries.foldl (fun current entry =>
        accumulate elementHash (writeUtxo entry.1 entry.2) false current)
      multiset =
    multiset - elementSum elementHash entries := by
  induction entries generalizing multiset with
  | nil => exact (sub_zero multiset).symm
  | cons entry rest ih =>
    rw [foldl_cons, ih, accumulate_remove, elementSum, elementSum, map_cons, sum_cons, sub_sub]

end

theorem MuHash.addTransaction_eq (multiset : MuHash) (populated : PopulatedTransaction)
    (daaScore : UInt64) :
    multiset.addTransaction elementHash hashers populated daaScore =
      multiset + populated.hashChange elementHash hashers daaScore := by
  rw [addTransaction, foldl_addUtxo, foldl_removeUtxo, PopulatedTransaction.hashChange]
  abel

variable {environment : ValidationEnvironment} {povDaaScore : UInt64}

theorem validateTransactionsWithMuhashInParallel_eq_some {txs : List Transaction} {view : UtxoView}
    {flags : TxValidationFlags} {validated : List (ValidatedTransaction × Nat)}
    (kept : validateTransactionsInParallel hashers params environment txs
      view povDaaScore flags = some validated) (splitting : Splitting) :
    validateTransactionsWithMuhashInParallel elementHash hashers params
        environment txs view povDaaScore flags splitting =
      some (validated, (validated.map fun accepted =>
        accepted.1.populated.hashChange elementHash hashers povDaaScore).sum) := by
  have hashed (accepted : ValidatedTransaction × Nat) :
      MuHash.fromTransaction elementHash hashers accepted.1.populated povDaaScore =
        accepted.1.populated.hashChange elementHash hashers povDaaScore := by
    rw [MuHash.fromTransaction, MuHash.addTransaction_eq]
    exact zero_add _
  have reduced := reduce_collect (fun accepted : ValidatedTransaction × Nat =>
      accepted.1.populated.hashChange elementHash hashers povDaaScore)
    splitting validated
  simp only [validateTransactionsWithMuhashInParallel, kept, hashed, bind_eq_bind, bind_some]
  exact congrArg some reduced

/-- What the accepted transactions of a calculation change in the hash. -/
def UtxoProcessingContext.hashChange (elementHash : List UInt8 → Hash)
    (hashers : Hashers) (context : UtxoProcessingContext)
    (daaScore : UInt64) : MuHash :=
  (context.accepted.map fun validated =>
    validated.populated.hashChange elementHash hashers daaScore).sum

variable {base : UtxoView} {context : UtxoProcessingContext}

theorem mergeBlockWithMuhash_eq_some {next : UtxoProcessingContext}
    {merged : Block × TxValidationFlags}
    (step : mergeBlock hashers params base povDaaScore context merged = some next)
    (cuts : Nat → Splitting) (multiset : MuHash) :
    mergeBlockWithMuhash elementHash hashers params base povDaaScore cuts
        (context, multiset) merged =
      some (next, multiset + (next.hashChange elementHash hashers povDaaScore -
        context.hashChange elementHash hashers povDaaScore)) := by
  obtain ⟨validated, kept, accepts⟩ := bind_eq_some_iff.mp step
  have inverted := accepts
  simp only [mergeValidated, bind_eq_bind, bind_eq_some_iff] at inverted
  obtain ⟨diff, -, fees, -, reward, -, eq⟩ := inverted
  have grown : next.hashChange elementHash hashers povDaaScore =
      context.hashChange elementHash hashers povDaaScore + (validated.map fun accepted =>
        accepted.1.populated.hashChange elementHash hashers povDaaScore).sum := by
    cases eq
    simp [hashChange, accepted, Function.comp_def]
  simp only [mergeBlockWithMuhash, validateTransactionsWithMuhashInParallel_eq_some kept, accepts,
    bind_eq_bind, bind_some, grown, add_sub_cancel_left]
  rfl

theorem mergeBlocksWithMuhash_eq_some {last : UtxoProcessingContext}
    {blocks : List (Block × TxValidationFlags)}
    (folded : blocks.foldlM (mergeBlock hashers params base povDaaScore) context = some last)
    (cuts : Nat → Splitting) (multiset : MuHash) :
    blocks.foldlM (mergeBlockWithMuhash elementHash hashers params base povDaaScore
        cuts) (context, multiset) =
      some (last, multiset + (last.hashChange elementHash hashers povDaaScore -
        context.hashChange elementHash hashers povDaaScore)) := by
  induction blocks generalizing context multiset with
  | nil =>
    cases folded
    simp
  | cons merged rest ih =>
    rw [foldlM_cons, bind_eq_bind, bind_eq_some_iff] at folded
    obtain ⟨mid, step, ran⟩ := folded
    rw [foldlM_cons, mergeBlockWithMuhash_eq_some step, bind_eq_bind, bind_some, ih ran,
      add_assoc, add_comm (mid.hashChange elementHash hashers povDaaScore - _),
      sub_add_sub_cancel]

variable {selectedParent : Block} {mergeset : List Block} {coinbase : Transaction}
  {validated : ValidatedTransaction}

theorem calculateUtxoStateWithMuhash_eq_some
    (ran : calculateUtxoState hashers params environment base
      povDaaScore selectedParent mergeset = some context)
    (first : selectedParent.coinbase? = some coinbase)
    (isNew : ValidatedTransaction.newCoinbase coinbase = some validated) (cuts : Nat → Splitting)
    (multiset : MuHash) :
    calculateUtxoStateWithMuhash elementHash hashers params environment base
        povDaaScore selectedParent mergeset cuts multiset =
      some (context, multiset + ((validated :: context.accepted).map fun accepted =>
        accepted.populated.hashChange elementHash hashers povDaaScore).sum) := by
  simp only [calculateUtxoState, first, isNew, bind_eq_bind, bind_some, bind_eq_some_iff] at ran
  obtain ⟨diff, applied, folded⟩ := ran
  simp only [calculateUtxoStateWithMuhash, first, isNew, applied, bind_eq_bind, bind_some]
  have nothingBefore : hashChange elementHash hashers ⟨environment, diff, [], []⟩ povDaaScore = 0 :=
    rfl
  rw [mergeBlocksWithMuhash_eq_some folded, MuHash.addTransaction_eq,
    nothingBefore, sub_zero, map_cons, sum_cons, add_assoc]
  rfl

/-- The multiset is calculated on the side. -/
theorem calculateUtxoState_of_withMuhash {cuts : Nat → Splitting} {multiset last : MuHash}
    (ran : calculateUtxoStateWithMuhash elementHash hashers params
      environment base povDaaScore selectedParent mergeset cuts multiset = some (context, last)) :
    calculateUtxoState hashers params environment base povDaaScore
      selectedParent mergeset = some context := by
  have folds : ∀ (blocks : List (Block × TxValidationFlags))
      (current : UtxoProcessingContext × MuHash),
      blocks.foldlM (mergeBlockWithMuhash elementHash hashers params base
          povDaaScore cuts) current = some (context, last) →
        blocks.foldlM (mergeBlock hashers params base povDaaScore) current.1 = some context := by
    intro blocks
    induction blocks with
    | nil =>
      intro current folded
      cases folded
      rfl
    | cons merged rest ih =>
      intro current folded
      rw [foldlM_cons, bind_eq_bind, bind_eq_some_iff] at folded
      obtain ⟨mid, step, continued⟩ := folded
      simp only [mergeBlockWithMuhash, bind_eq_bind, bind_eq_some_iff] at step
      obtain ⟨⟨validated, hashed⟩, validates, next, accepts, eq⟩ := step
      cases eq
      obtain ⟨kept, isKept, -⟩ := bind_eq_some_iff.mp validates
      cases (validateTransactionsWithMuhashInParallel_eq_some isKept _).symm.trans validates
      have merges : mergeBlock hashers params base povDaaScore current.1 merged = some next :=
        bind_eq_some_iff.mpr ⟨_, isKept, accepts⟩
      rw [foldlM_cons, merges, bind_eq_bind, bind_some]
      exact ih _ continued
  simp only [calculateUtxoStateWithMuhash, bind_eq_bind, bind_eq_some_iff] at ran
  obtain ⟨coinbase, first, validated, isNew, diff, applied, folded⟩ := ran
  simp only [calculateUtxoState, first, isNew, applied, bind_eq_bind, bind_some]
  exact folds _ _ folded

theorem DiffMoves.commitment_eq {base : UtxoSet} {daaScore : UInt64} {diff next : UtxoDiff}
    {ran : List PopulatedTransaction}
    (moves : DiffMoves hashers base daaScore diff ran next) :
    commitment elementHash (base.withDiff next) = commitment elementHash (base.withDiff diff) +
      (ran.map fun populated => populated.hashChange elementHash hashers daaScore).sum := by
  have changes (spent created : PopulatedTransaction → MuHash) (items : List PopulatedTransaction) :
      (items.map fun item => created item - spent item).sum =
        (items.map created).sum - (items.map spent).sum := by
    induction items with
    | nil => simp
    | cons item rest ih =>
      simp only [map_cons, sum_cons, ih]
      abel
  have moved := moves.weigh fun key entry =>
    expandElement elementHash (writeUtxo key entry)
  rw [commitment, commitment]
  simp only [PopulatedTransaction.hashChange, changes]
  rw [add_sub_assoc', eq_sub_iff_add_eq']
  exact moved.trans (add_comm _ _)

/-- A calculation that starts with the commitment to a set ends with the
commitment to its result. -/
theorem DiffMoves.calculated_commitment {base : UtxoSet}
    (moves : DiffMoves hashers base povDaaScore .empty
      ((validated :: context.accepted).map ValidatedTransaction.populated)
      context.mergesetDiff)
    (ran : calculateUtxoState hashers params environment base.lookup
      povDaaScore selectedParent mergeset = some context)
    (first : selectedParent.coinbase? = some coinbase)
    (isNew : ValidatedTransaction.newCoinbase coinbase = some validated) (cuts : Nat → Splitting) :
    calculateUtxoStateWithMuhash elementHash hashers params environment base.lookup povDaaScore
        selectedParent mergeset cuts (commitment elementHash base) =
      some (context, commitment elementHash (base.withDiff context.mergesetDiff)) := by
  rw [calculateUtxoStateWithMuhash_eq_some ran first isNew,
    moves.commitment_eq, List.map_map, UtxoSet.withDiff_empty]
  rfl

/-- On top of every chain whose multiset commits to its unspent outputs, a
calculation ends with the multiset that commits to its result, whatever blocks
it merges and however the workers divide them. -/
theorem multiset_commits_to_utxo (elementHash : List UInt8 → Hash) (external : External)
    (params : Params) (fits : params.CountsFitWords) (blocks : List Block) (state : ChainState)
    (run : ChainRun external params blocks state) (multiset : MuHash)
    (commits : multiset = commitment elementHash state.utxo) (mergeset : List Block)
    (bodies : ∀ block ∈ mergeset, ∃ bodyContext, BodyAccepted external params bodyContext block)
    (collisionFree : external.toHashers.CollisionFree
      ((mergeset ++ blocks).flatMap Block.transactions)) (environment : ValidationEnvironment)
    (povDaaScore : UInt64) (cuts : Nat → Splitting) (context : UtxoProcessingContext)
    (calculated : calculateUtxoState external.toHashers params environment
      state.utxo.lookup povDaaScore state.tip mergeset = some context) :
    calculateUtxoStateWithMuhash elementHash external.toHashers params environment state.utxo.lookup
        povDaaScore state.tip mergeset cuts multiset =
      some (context, commitment elementHash (state.utxo.withDiff context.mergesetDiff)) := by
  obtain ⟨history, invariant⟩ := run.invariant fits (collisionFree.mono (by
      rw [flatMap_append]
      exact subset_append_right _ _))
  obtain ⟨coinbase, validated, first, isNew, -, moves⟩ :=
    invariant.calculateUtxoState fits collisionFree bodies calculated
  rw [commits]
  exact moves.calculated_commitment calculated first isNew cuts

end

/-- A block that merges the deployment with the block it spends from. The
coinbase of the second block is created and spent in one calculation. -/
def mergedDeployment : Option UtxoProcessingContext :=
  calculateUtxoState deadlineExternal.toHashers immediateParams deadlineEnvironment
    secondState.utxo.lookup 1312863 secondState.tip [thirdBlock]

theorem mergedDeployment_accepted :
    mergedDeployment.map (fun context => context.accepted.map fun validated =>
        validated.populated.tx) =
      some [deadlineDeployment] := by
  decide +kernel

/-- Two workers hash the block of the deployment, one of them nothing. -/
theorem mergedDeployment_committed : ∃ context, mergedDeployment = some context ∧
    (context.accepted.map fun validated => validated.populated.tx) = [deadlineDeployment] ∧
    calculateUtxoStateWithMuhash fingerprint deadlineExternal.toHashers immediateParams
        deadlineEnvironment secondState.utxo.lookup 1312863 secondState.tip [thirdBlock]
        (fun _ => .cut 1 .whole .whole) (commitment fingerprint secondState.utxo) =
      some (context, commitment fingerprint (secondState.utxo.withDiff context.mergesetDiff)) := by
  obtain ⟨context, ran, ok⟩ := map_eq_some_iff.mp mergedDeployment_accepted
  refine ⟨context, ran, ok, ?_⟩
  exact multiset_commits_to_utxo fingerprint deadlineExternal immediateParams
    ⟨by decide, by decide⟩ _ secondState secondState_run _ rfl [thirdBlock]
    (fun block mem => by
      cases mem_singleton.mp mem
      exact ⟨_, thirdJoining.accepted⟩)
    (by unfold Hashers.CollisionFree; decide +kernel)
    deadlineEnvironment 1312863 _ context ran

end Sophis
