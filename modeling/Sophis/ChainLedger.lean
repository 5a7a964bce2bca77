import Sophis.TransactionIdentity
import Sophis.UtxoState

namespace Sophis

open ByteCodec ExceptLoop FiniteLedger List MachineWord Option PopulatedTransaction Prod

/-!
# The ledger behind a chain

What the unspent outputs of a chain state are made of. Every accepted
transaction moves entries of one ledger: it spends entries that are unspent and
creates entries under outpoints that never occurred before. The latter needs
distinct identifiers. An ordinary transaction has its own because its first
input is unspent, a coinbase because its payload declares a larger blue score
than all coinbases before it.
-/

/-- The counts that the encoding and the outpoints store in fixed-width words
fit them. -/
structure Params.CountsFitWords (params : Params) : Prop where
  inputs : params.transactionValidator.maxTxInputs < 2 ^ 64
  outputs : params.transactionValidator.maxTxOutputs ≤ 2 ^ 32

theorem mainnetParams_countsFitWords : mainnetParams.CountsFitWords where
  inputs := by decide
  outputs := by decide

section

theorem blueScore_of_deserialized {manager : CoinbaseManager} {payload : List UInt8}
    {data : CoinbaseData} (parsed : manager.deserializeCoinbasePayload payload = .ok data) :
    8 ≤ payload.length ∧ data.blueScore = u64At payload 0 := by
  simp only [CoinbaseManager.deserializeCoinbasePayload, bind_eq_ok,
    check_eq_ok, reject_eq_ok] at parsed
  obtain ⟨longEnough, -, -, -, eq⟩ := parsed
  cases eq
  have minimum : (8 : Nat) ≤ minPayloadLength := by decide
  exact ⟨minimum.trans (Nat.not_lt.mp longEnough), rfl⟩

/-- What body validation guarantees of the transactions of a block. -/
structure BlockShape (validator : TransactionValidator) (block : Block) : Prop where
  coinbase : ∀ tx, block.coinbase? = some tx → CoinbaseShape validator tx ∧
    u64At tx.payload 0 = block.header.blueScore
  ordinary : ∀ tx ∈ block.transactions.tail, OrdinaryShape validator tx
  distinct : block.spentOutpoints.Nodup

variable {external : External} {params : Params} {context : BodyContext} {block : Block}
  (accepted : BodyAccepted external params context block)
include accepted

theorem BodyAccepted.isolated :
    ∀ tx ∈ block.transactions, validateTxInIsolation external params.transactionValidator tx =
      .ok () := by
  obtain ⟨⟨mass, isolated⟩, -⟩ := accepted
  simp only [validateBodyInIsolation, bind_eq_ok, check_eq_ok] at isolated
  obtain ⟨-, -, -, transactions, -⟩ := isolated
  intro tx mem
  obtain ⟨index, got⟩ := mem_iff_getElem?.mp mem
  have checked := (forEachFrom_eq_ok_iff 0 block.transactions).mp transactions index tx got
  rwa [mapError_eq_ok] at checked

theorem BodyAccepted.shape : BlockShape params.transactionValidator block := by
  obtain ⟨coinbase, data, first, isCoinbase, parsed, declared, -⟩ := accepted.coinbase_payload
  have isolatedTx := accepted.isolated
  obtain ⟨⟨mass, isolated⟩, -⟩ := accepted
  simp only [validateBodyInIsolation, bind_eq_ok, check_eq_ok] at isolated
  obtain ⟨-, -, oneCoinbase, -, -, -, -, spends, -⟩ := isolated
  refine { coinbase := ?_, ordinary := ?_, distinct := ?_ }
  · intro tx head
    cases first.symm.trans head
    refine ⟨coinbaseShape_of_isolated (isolatedTx coinbase (mem_of_mem_head? first)) isCoinbase, ?_⟩
    rw [← declared, (blueScore_of_deserialized parsed).2]
  · intro tx mem
    refine ordinaryShape_of_isolated (isolatedTx tx (mem_of_mem_tail mem)) ?_
    simp only [checkOnlyOneCoinbase, bind_eq_ok, check_eq_ok] at oneCoinbase
    cases other : block.transactions.tail.findIdx? Transaction.isCoinbase with
    | some index => simp [other] at oneCoinbase
    | none => exact findIdx?_eq_none_iff.mp other tx mem
  · exact (rejectDuplicates_eq_ok_iff _).mp spends

end

variable {hashers : Hashers} {params : Params} {history : List Transaction} {utxo : UtxoSet}

section

/-- The unspent outputs are what a list of applied transactions left over:
each was created by one of them, and each input of one of them was created by
one of them and is gone. -/
structure LedgerInvariant (hashers : Hashers) (params : Params)
    (history : List Transaction) (utxo : UtxoSet) : Prop where
  shapes : ∀ tx ∈ history, OrdinaryShape params.transactionValidator tx ∨
    CoinbaseShape params.transactionValidator tx
  created : ∀ outpoint ∈ utxo, ∃ tx ∈ history, tx.id hashers = outpoint.transactionId
  spent : ∀ tx ∈ history, ∀ input ∈ tx.inputs, input.previousOutpoint ∉ utxo ∧ ∃ earlier ∈ history,
    earlier.id hashers = input.previousOutpoint.transactionId

/-- No applied transaction has the identifier of this one. -/
def Fresh (hashers : Hashers) (history : List Transaction) (tx : Transaction) : Prop :=
  ∀ earlier ∈ history, earlier.id hashers ≠ tx.id hashers

variable (inv : LedgerInvariant hashers params history utxo)
include inv

theorem LedgerInvariant.created_fresh {tx : Transaction} (fresh : Fresh hashers history tx)
    {daaScore : UInt64} {key : TransactionOutpoint}
    (mem : key ∈ (tx.createdEntries hashers daaScore).map fst) : key ∉ utxo := by
  intro unspent
  obtain ⟨prior, ran, sameId⟩ := inv.created key unspent
  refine fresh prior ran ?_
  rw [sameId, Transaction.transactionId_of_mem_createdEntries mem]

theorem LedgerInvariant.post {populated : PopulatedTransaction}
    (shape : OrdinaryShape params.transactionValidator populated.tx ∨
      CoinbaseShape params.transactionValidator populated.tx)
    (fresh : Fresh hashers history populated.tx)
    (unspent : ∀ entry ∈ populated.spentEntries, utxo.lookup entry.1 = some entry.2)
    (daaScore : UInt64) : LedgerInvariant hashers params (populated.tx :: history)
      (FiniteLedger.post utxo populated.spentEntries
        (populated.tx.createdEntries hashers daaScore)) := by
  -- A spent outpoint carries an applied identifier, so it is not created anew.
  have notCreated : ∀ key : TransactionOutpoint, (∃ prior ∈ history,
        prior.id hashers = key.transactionId) →
      key ∉ (populated.tx.createdEntries hashers daaScore).map fst := by
    rintro key ⟨prior, ran, sameId⟩ mem
    exact fresh prior ran (sameId.trans (Transaction.transactionId_of_mem_createdEntries mem))
  refine { shapes := ?_, created := ?_, spent := ?_ }
  · exact forall_mem_cons.mpr ⟨shape, inv.shapes⟩
  · intro key mem
    rcases mem_post.mp mem with ⟨old, -⟩ | new
    · exact exists_mem_cons_of_exists (inv.created key old)
    · exact ⟨populated.tx, mem_cons_self,
        (Transaction.transactionId_of_mem_createdEntries new).symm⟩
  · intro tx mem input isInput
    rcases mem_cons.mp mem with rfl | ran
    · have isSpent : input.previousOutpoint ∈ populated.spentEntries.map fst := by
        rw [populated.spentEntries_map_fst]
        exact List.mem_map_of_mem isInput
      obtain ⟨entry, inSpent, eq⟩ := List.mem_map.mp isSpent
      have present : input.previousOutpoint ∈ utxo := by
        rw [← eq]
        exact Finmap.mem_of_lookup_eq_some (unspent entry inSpent)
      obtain ⟨prior, ran, sameId⟩ := inv.created _ present
      refine ⟨fun remains => ?_, prior, mem_cons_of_mem _ ran, sameId⟩
      rcases mem_post.mp remains with ⟨-, notSpent⟩ | new
      · exact notSpent isSpent
      · exact notCreated _ ⟨prior, ran, sameId⟩ new
    · obtain ⟨gone, prior, before, sameId⟩ := inv.spent tx ran input isInput
      refine ⟨fun remains => ?_, prior, mem_cons_of_mem _ before, sameId⟩
      rcases mem_post.mp remains with ⟨old, -⟩ | new
      · exact gone old
      · exact notCreated _ ⟨prior, before, sameId⟩ new

end

section

variable {allTxs : List Transaction} {tx : Transaction}

/-- All applied coinbases declare a smaller blue score. -/
def CoinbasesBelow (history : List Transaction) (blueScore : Nat) : Prop :=
  ∀ tx ∈ history, tx.isCoinbase = true →
    8 ≤ tx.payload.length ∧ (u64At tx.payload 0).toNat < blueScore

variable {validator : TransactionValidator}

theorem CoinbaseShape.outputs_fit (shape : CoinbaseShape validator tx) :
    tx.outputs.length ≤ 2 ^ 32 := by
  have bounded := shape.outputs_bounded
  have word := validator.ghostdagK.toNat_lt
  omega

theorem CoinbaseShape.scripts_fit (shape : CoinbaseShape validator tx) :
    ∀ output ∈ tx.outputs, output.script.length < 2 ^ 64 := by
  intro output mem
  have short := shape.scripts_short output mem
  have word := validator.coinbasePayloadScriptPublicKeyMaxLen.toNat_lt
  omega

variable (inv : LedgerInvariant hashers params history utxo) (fits : params.CountsFitWords)
  (collisionFree : hashers.CollisionFree allTxs) (known : ∀ tx ∈ history, tx ∈ allTxs)
  (mem : tx ∈ allTxs)
include inv fits collisionFree known mem

theorem LedgerInvariant.fresh_ordinary (shape : OrdinaryShape params.transactionValidator tx)
    (unspent : ∀ input ∈ tx.inputs, input.previousOutpoint ∈ utxo) : Fresh hashers history tx := by
  intro prior ran sameId
  have eq := collisionFree prior (known prior ran) tx mem sameId
  have bounded := shape.inputs_bounded.trans_lt fits.inputs
  rcases inv.shapes prior ran with ordinary | coinbase
  · obtain ⟨first, rest, firstInputs⟩ := exists_cons_of_ne_nil ordinary.inputs_nonempty
    obtain ⟨second, others, secondInputs⟩ := exists_cons_of_ne_nil shape.inputs_nonempty
    have sameOutpoint := firstOutpoint_of_writeTransaction firstInputs
      secondInputs (ordinary.inputs_bounded.trans_lt fits.inputs) bounded eq
    have gone := (inv.spent prior ran first (by simp [firstInputs])).1
    rw [sameOutpoint] at gone
    exact gone (unspent second (by simp [secondInputs]))
  · exact writeTransaction_ne_of_noInputs coinbase.noInputs shape.inputs_nonempty bounded eq

theorem LedgerInvariant.fresh_coinbase (shape : CoinbaseShape params.transactionValidator tx)
    (payload : 8 ≤ tx.payload.length)
    (below : CoinbasesBelow history (u64At tx.payload 0).toNat) : Fresh hashers history tx := by
  intro prior ran sameId
  have eq := collisionFree prior (known prior ran) tx mem sameId
  rcases inv.shapes prior ran with ordinary | coinbase
  · exact writeTransaction_ne_of_noInputs shape.noInputs ordinary.inputs_nonempty
      (ordinary.inputs_bounded.trans_lt fits.inputs) eq.symm
  · obtain ⟨earlierPayload, smaller⟩ := below prior ran coinbase.isCoinbase
    have sameScore := payload_take_of_writeTransaction coinbase.noInputs shape.noInputs
      (coinbase.outputs_fit.trans_lt (by decide)) (shape.outputs_fit.trans_lt (by decide))
      coinbase.scripts_fit shape.scripts_fit earlierPayload payload eq
    simp only [u64At, slice, drop_zero, sameScore] at smaller
    exact Nat.lt_irrefl _ smaller

end

section

variable {base : UtxoSet} {history : List Transaction} {diff : UtxoDiff}

def PopulatedTransaction.spentWeight (weight : UtxoEntry → Nat)
    (populated : PopulatedTransaction) : Nat :=
  (populated.spentEntries.map fun entry => weight entry.2).sum

def Transaction.createdWeight (hashers : Hashers) (weight : UtxoEntry → Nat)
    (daaScore : UInt64) (tx : Transaction) : Nat :=
  ((tx.createdEntries hashers daaScore).map fun entry => weight entry.2).sum

/-- A difference under construction, with all transactions applied up to
now, those behind its base included. -/
structure Processing (hashers : Hashers) (params : Params) (base : UtxoSet)
    (history : List Transaction) (diff : UtxoDiff) : Prop where
  fits : diff.Fits base
  ledger : LedgerInvariant hashers params history (base.withDiff diff)
  baseCreated : ∀ outpoint ∈ base, ∃ tx ∈ history, tx.id hashers = outpoint.transactionId

theorem LedgerInvariant.processing (inv : LedgerInvariant hashers params history base) :
    Processing hashers params base history .empty where
  fits := UtxoDiff.fits_empty base
  ledger := inv
  baseCreated := inv.created

variable {tx : Transaction}

private theorem shape_distinct {validator : TransactionValidator}
    (shape : OrdinaryShape validator tx ∨ CoinbaseShape validator tx) :
    (tx.inputs.map TransactionInput.previousOutpoint).Nodup := by
  rcases shape with ordinary | coinbase
  · exact ordinary.inputs_distinct
  · rw [coinbase.noInputs]
    exact nodup_nil

theorem shape_outputs_fit (fits : params.CountsFitWords)
    (shape : OrdinaryShape params.transactionValidator tx ∨
      CoinbaseShape params.transactionValidator tx) : tx.outputs.length ≤ 2 ^ 32 := by
  rcases shape with ordinary | coinbase
  · exact ordinary.outputs_bounded.trans fits.outputs
  · exact coinbase.outputs_fit

/-- One transaction applied to a difference: it spends what is unspent under the
difference and creates outpoints that are new to it and to the set below. -/
structure DiffMove (hashers : Hashers) (base : UtxoSet) (daaScore : UInt64)
    (diff : UtxoDiff) (populated : PopulatedTransaction) (next : UtxoDiff) :
    Prop where
  fits : diff.Fits base
  next_fits : next.Fits base
  admissible : Admissible (base.withDiff diff) populated.spentEntries
    (populated.tx.createdEntries hashers daaScore)
  new : ∀ entry ∈ populated.tx.createdEntries hashers daaScore, entry.1 ∉ base
  added : diff.addTransaction hashers populated daaScore = .ok next
  posted : base.withDiff next = post (base.withDiff diff) populated.spentEntries
    (populated.tx.createdEntries hashers daaScore)

/-- A diff after a list of transactions was applied. -/
inductive DiffMoves (hashers : Hashers) (base : UtxoSet) (daaScore : UInt64) :
    UtxoDiff → List PopulatedTransaction → UtxoDiff → Prop where
  | done (diff : UtxoDiff) : DiffMoves hashers base daaScore diff [] diff
  | move {diff middle next : UtxoDiff} {populated : PopulatedTransaction}
    {rest : List PopulatedTransaction} :
    DiffMove hashers base daaScore diff populated middle →
    DiffMoves hashers base daaScore middle rest next →
    DiffMoves hashers base daaScore diff (populated :: rest) next

variable {daaScore : UInt64} {next : UtxoDiff}

theorem DiffMoves.append {mid : UtxoDiff} {first second : List PopulatedTransaction}
    (before : DiffMoves hashers base daaScore diff first mid)
    (after : DiffMoves hashers base daaScore mid second next) :
    DiffMoves hashers base daaScore diff (first ++ second) next := by
  induction before with
  | done => exact after
  | move step _ ih => exact .move step (ih after)

/-- Applied transactions change every weight by what they create minus what
they spend. -/
theorem DiffMoves.weigh {M : Type*} [AddCommMonoid M] {ran : List PopulatedTransaction}
    (moves : DiffMoves hashers base daaScore diff ran next)
    (weight : TransactionOutpoint → UtxoEntry → M) :
    (ran.map fun populated =>
        (populated.spentEntries.map fun entry => weight entry.1 entry.2).sum).sum +
        weigh weight (base.withDiff next) =
      (ran.map fun populated =>
        ((populated.tx.createdEntries hashers daaScore).map fun entry =>
          weight entry.1 entry.2).sum).sum +
        weigh weight (base.withDiff diff) := by
  induction moves with
  | done => rfl
  | move step _ ih =>
    have here := weigh_post weight step.admissible
    rw [← step.posted] at here
    rw [map_cons, map_cons, sum_cons, sum_cons, add_assoc, ih, add_left_comm, here, add_left_comm,
      add_assoc]

variable {accepted : List ValidatedTransaction}

theorem DiffMoves.total (moves : DiffMoves hashers base daaScore diff
      (accepted.map ValidatedTransaction.populated) next) (weight : UtxoEntry → Nat) :
    (accepted.map fun validated =>
        validated.populated.spentWeight weight).sum +
        total weight (base.withDiff next) =
      (accepted.map fun validated =>
        validated.populated.tx.createdWeight hashers weight daaScore).sum +
        total weight (base.withDiff diff) := by
  have moved := moves.weigh fun _ => weight
  rwa [List.map_map, List.map_map] at moved

theorem Processing.addTransaction (processing : Processing hashers params base history diff)
    (fits : params.CountsFitWords) {populated : PopulatedTransaction}
    (shape : OrdinaryShape params.transactionValidator populated.tx ∨
      CoinbaseShape params.transactionValidator populated.tx)
    (fresh : Fresh hashers history populated.tx)
    (unspent : ∀ entry ∈ populated.spentEntries, (base.withDiff diff).lookup entry.1 = some entry.2)
    (daaScore : UInt64) :
    ∃ next, Processing hashers params base (populated.tx :: history) next ∧
      DiffMove hashers base daaScore diff populated next := by
  have spentDistinct : (populated.spentEntries.map fst).Nodup := by
    rw [populated.spentEntries_map_fst]
    exact shape_distinct shape
  have createdDistinct : ((populated.tx.createdEntries hashers daaScore).map fst).Nodup :=
    Transaction.createdEntries_distinct (shape_outputs_fit fits shape)
  have new : ∀ entry ∈ populated.tx.createdEntries hashers daaScore,
      entry.1 ∉ base ∧ entry.1 ∉ base.withDiff diff := by
    intro entry mem
    have key : entry.1 ∈ (populated.tx.createdEntries hashers daaScore).map fst :=
      List.mem_map_of_mem mem
    refine ⟨fun inBase => ?_, processing.ledger.created_fresh fresh key⟩
    obtain ⟨prior, ran, sameId⟩ := processing.baseCreated entry.1 inBase
    exact fresh prior ran (sameId.trans (Transaction.transactionId_of_mem_createdEntries key))
  obtain ⟨next, added, nextFits, posted⟩ :=
    processing.fits.addTransaction spentDistinct unspent createdDistinct new
  refine ⟨next, { fits := nextFits, ledger := ?_, baseCreated := ?_ }, {
    fits := processing.fits
    next_fits := nextFits
    admissible := ⟨spentDistinct, unspent, createdDistinct, fun entry mem => (new entry mem).2⟩
    new := fun entry mem => (new entry mem).1
    added
    posted }⟩
  · rw [posted]
    exact processing.ledger.post shape fresh unspent daaScore
  · intro outpoint inBase
    exact exists_mem_cons_of_exists (processing.baseCreated outpoint inBase)

variable {allTxs : List Transaction}

/-- Transactions with unspent and pairwise distinct inputs are all applied.
The induction is on their list; each one leaves the inputs of the later ones
alone. -/
theorem Processing.applyAll (processing : Processing hashers params base history diff)
    (fits : params.CountsFitWords) (collisionFree : hashers.CollisionFree allTxs)
    (known : ∀ tx ∈ history, tx ∈ allTxs)
    (acceptedKnown : ∀ validated ∈ accepted, validated.populated.tx ∈ allTxs)
    (shapes : ∀ validated ∈ accepted,
      OrdinaryShape params.transactionValidator validated.populated.tx)
    (nodup : (accepted.flatMap fun validated =>
      validated.populated.spentEntries.map fst).Nodup)
    (unspent : ∀ validated ∈ accepted, ∀ entry ∈ validated.populated.spentEntries,
      (base.withDiff diff).lookup entry.1 = some entry.2) (daaScore : UInt64) :
    ∃ next, applyAll hashers daaScore diff accepted = some next ∧ Processing hashers params base
        ((accepted.map fun validated => validated.populated.tx).reverse ++ history) next ∧
      DiffMoves hashers base daaScore diff (accepted.map ValidatedTransaction.populated) next := by
  induction accepted generalizing diff history with
  | nil => exact ⟨diff, rfl, processing, .done _⟩
  | cons validated rest ih =>
    rw [flatMap_cons, nodup_append'] at nodup
    obtain ⟨-, laterDistinct, separate⟩ := nodup
    have own := unspent validated mem_cons_self
    have fresh : Fresh hashers history validated.populated.tx := by
      refine processing.ledger.fresh_ordinary fits collisionFree known
        (acceptedKnown validated mem_cons_self)
        (shapes validated mem_cons_self) fun input isInput => ?_
      have key : input.previousOutpoint ∈ validated.populated.spentEntries.map fst := by
        rw [spentEntries_map_fst]
        exact List.mem_map_of_mem isInput
      obtain ⟨entry, mem, eq⟩ := List.mem_map.mp key
      rw [← eq]
      exact Finmap.mem_of_lookup_eq_some (own entry mem)
    obtain ⟨mid, continued, move⟩ := processing.addTransaction fits
        (.inl (shapes validated mem_cons_self)) fresh own daaScore
    have stillUnspent : ∀ other ∈ rest, ∀ entry ∈ other.populated.spentEntries,
        (base.withDiff mid).lookup entry.1 = some entry.2 := by
      intro other later entry mem
      have present := unspent other (mem_cons_of_mem _ later) entry mem
      rw [move.posted, lookup_post_of_notMem, present]
      · intro alsoSpent
        exact separate alsoSpent (mem_flatMap.mpr ⟨other, later, List.mem_map_of_mem mem⟩)
      · intro created
        exact processing.ledger.created_fresh fresh created (Finmap.mem_of_lookup_eq_some present)
    obtain ⟨next, ran, finished, later⟩ := ih continued (by
        exact forall_mem_cons.mpr ⟨acceptedKnown validated mem_cons_self, known⟩)
      (forall_mem_cons.mp acceptedKnown).2
      (forall_mem_cons.mp shapes).2
      laterDistinct stillUnspent
    refine ⟨next, ?_, by simpa using finished, .move move later⟩
    rw [Sophis.applyAll, move.added]
    exact ran

end

section

variable {base : UtxoSet} {povDaaScore : UInt64} {history allTxs : List Transaction}

/-- What the steps of the calculation say about what they accepted, given the
block and the view the calculation started with. The first block is judged
against that view without its scripts, every other one fully. -/
def MergedAcceptance.Justified (hashers : Hashers) (params : Params)
    (povDaaScore : UInt64) (selectedParent : Block) (view : UtxoView)
    (merged : MergedAcceptance) : Prop :=
  ∀ accepted ∈ merged.transactions, (merged.flags = .skipScriptChecks ∧
      accepted.1.populated.tx ∈ selectedParent.transactions.tail ∧
      populate view accepted.1.populated.tx = some accepted.1.populated) ∨
    (merged.flags = .full ∧ ∃ current,
      validateTransactionInUtxoContext hashers params merged.environment
          accepted.1.populated.tx current povDaaScore .full =
        .ok accepted.1)

/-- A calculation on its way: the difference fits the transactions applied up
to now, and the acceptance lists account for it. -/
structure Merging (hashers : Hashers) (params : Params) (base : UtxoSet)
    (povDaaScore : UInt64) (selectedParent : Block) (start : UtxoDiff)
    (history : List Transaction) (context : UtxoProcessingContext) :
    Prop where
  processing : Processing hashers params base history context.mergesetDiff
  accounted : ∀ weight, (context.accepted.map fun validated =>
      validated.populated.spentWeight weight).sum +
      total weight (base.withDiff context.mergesetDiff) =
    (context.accepted.map fun validated =>
      validated.populated.tx.createdWeight hashers weight povDaaScore).sum +
      total weight (base.withDiff start)
  justified : ∀ merged ∈ context.acceptance,
    merged.Justified hashers params povDaaScore selectedParent (start.compose base.lookup)

/-- The blocks that a step may merge: the selected parent first, all others
with full checks. -/
def Mergeable (start : UtxoDiff) (selectedParent : Block)
    (context : UtxoProcessingContext) (merged : Block × TxValidationFlags) :
    Prop :=
  (merged = (selectedParent, .skipScriptChecks) ∧ context.mergesetDiff = start) ∨ merged.2 = .full

theorem zipIdx_tail_map_fst (txs : List Transaction) : txs.zipIdx.tail.map fst = txs.tail := by
  rw [map_tail, zipIdx_map_fst]

def appliedBefore (accepted : List ValidatedTransaction) : List Transaction :=
  (accepted.map fun validated => validated.populated.tx).reverse

theorem appliedBefore_append (first second : List ValidatedTransaction) :
    appliedBefore (first ++ second) = appliedBefore second ++ appliedBefore first := by
  simp [appliedBefore]

variable {accepted : List ValidatedTransaction}

theorem mem_appliedBefore {tx : Transaction} :
    tx ∈ appliedBefore accepted ↔ ∃ validated ∈ accepted, validated.populated.tx = tx := by
  simp [appliedBefore]

theorem known_of_appliedBefore (known : ∀ tx ∈ history, tx ∈ allTxs)
    (acceptedKnown : ∀ validated ∈ accepted, validated.populated.tx ∈ allTxs) :
    ∀ tx ∈ appliedBefore accepted ++ history, tx ∈ allTxs := by
  intro tx mem
  rcases mem_append.mp mem with new | old
  · obtain ⟨validated, isAccepted, rfl⟩ := mem_appliedBefore.mp new
    exact acceptedKnown validated isAccepted
  · exact known tx old

variable {environment : ValidationEnvironment} {view : UtxoView} {flags : TxValidationFlags}

theorem validateTransactionsInParallel_spec {txs : List Transaction}
    {validated : List (ValidatedTransaction × Nat)}
    (kept : validateTransactionsInParallel hashers params environment txs view
      povDaaScore flags = some validated) :
    (validated.map fun accepted => accepted.1.populated.tx).Sublist txs.tail ∧
      ∀ accepted ∈ validated, accepted.1.populated.tx ∈ txs.tail ∧
        validateTransactionInUtxoContext hashers params environment
            accepted.1.populated.tx view povDaaScore flags =
          .ok accepted.1 ∧
        populate view accepted.1.populated.tx = some accepted.1.populated := by
  obtain ⟨ordered, valid⟩ := keepValid_spec kept
  rw [zipIdx_tail_map_fst] at ordered
  refine ⟨ordered, fun accepted mem => ⟨?_, valid accepted mem, ?_⟩⟩
  · exact ordered.subset (List.mem_map_of_mem (f := fun item : ValidatedTransaction × Nat =>
    item.1.populated.tx) mem)
  · exact (validateTransactionInUtxoContext_eq_ok (valid accepted mem)).1

variable {selectedParent : Block} {start : UtxoDiff} {context next : UtxoProcessingContext}
  {merged : Block × TxValidationFlags} {coinbase : Transaction}

theorem payload_of_mergeBlock
    (step : Sophis.mergeBlock hashers params view povDaaScore context merged = some next)
    (first : merged.1.coinbase? = some coinbase) : 8 ≤ coinbase.payload.length := by
  simp only [Sophis.mergeBlock, mergeValidated, bind_eq_bind, bind_eq_some_iff] at step
  obtain ⟨-, -, -, -, fees, -, reward, rewarded, -⟩ := step
  rw [blockRewardData, first, bind_eq_bind, bind_some] at rewarded
  cases parsed : (CoinbaseManager.ofParams params).deserializeCoinbasePayload coinbase.payload with
  | error _ =>
    rw [parsed] at rewarded
    cases rewarded
  | ok data => exact (blueScore_of_deserialized parsed).1

section

variable (fits : params.CountsFitWords) (collisionFree : hashers.CollisionFree allTxs)
  (known : ∀ tx ∈ history, tx ∈ allTxs)
include fits collisionFree known

theorem Processing.applyValidated {diff : UtxoDiff}
    (processing : Processing hashers params base history diff)
    {block : Block} (shape : BlockShape params.transactionValidator block)
    (blockKnown : ∀ tx ∈ block.transactions, tx ∈ allTxs)
    {validated : List (ValidatedTransaction × Nat)}
    (kept : validateTransactionsInParallel hashers params environment
      block.transactions (diff.compose base.lookup) povDaaScore flags = some validated) :
    ∃ next, Sophis.applyAll hashers povDaaScore diff (validated.map fst) = some next ∧
      Processing hashers params base (appliedBefore (validated.map fst) ++ history) next ∧
      DiffMoves hashers base povDaaScore diff
        ((validated.map fst).map ValidatedTransaction.populated)
        next := by
  obtain ⟨ordered, valid⟩ := validateTransactionsInParallel_spec kept
  have nodup : ((validated.map fst).flatMap fun accepted =>
      accepted.populated.spentEntries.map fst).Nodup := by
    have inBlock := (ordered.trans (tail_sublist _)).flatMap
      fun tx => tx.inputs.map TransactionInput.previousOutpoint
    rw [flatMap_map] at inBlock
    simp only [flatMap_map, spentEntries_map_fst]
    exact shape.distinct.sublist inBlock
  have unspent : ∀ accepted ∈ validated.map fst, ∀ entry ∈ accepted.populated.spentEntries,
      (base.withDiff diff).lookup entry.1 = some entry.2 := by
    intro accepted mem entry isSpent
    obtain ⟨item, inValidated, rfl⟩ := List.mem_map.mp mem
    rw [UtxoSet.lookup_withDiff]
    exact view_of_mem_spentEntries (valid item inValidated).2.2 isSpent
  have ordinary : ∀ accepted ∈ validated.map fst,
      OrdinaryShape params.transactionValidator accepted.populated.tx ∧
        accepted.populated.tx ∈ allTxs := by
    intro accepted mem
    obtain ⟨item, inValidated, rfl⟩ := List.mem_map.mp mem
    have inTail := (valid item inValidated).1
    exact ⟨shape.ordinary _ inTail, blockKnown _ (mem_of_mem_tail inTail)⟩
  exact processing.applyAll fits collisionFree known (fun accepted mem => (ordinary accepted mem).2)
    (fun accepted mem => (ordinary accepted mem).1) nodup unspent povDaaScore

theorem Merging.mergeBlock
    (merging : Merging hashers params base povDaaScore selectedParent start history context)
    (shape : BlockShape params.transactionValidator merged.1)
    (blockKnown : ∀ tx ∈ merged.1.transactions, tx ∈ allTxs)
    (mergeable : Mergeable start selectedParent context merged)
    (step : Sophis.mergeBlock hashers params base.lookup povDaaScore context merged = some next) :
    ∃ ran : List ValidatedTransaction, (∀ accepted ∈ ran,
      accepted.populated.tx ∈ merged.1.transactions.tail) ∧
      Merging hashers params base povDaaScore selectedParent start
        (appliedBefore ran ++ history) next ∧
      next.accepted = context.accepted ++ ran ∧
      DiffMoves hashers base povDaaScore context.mergesetDiff
        (ran.map ValidatedTransaction.populated)
        next.mergesetDiff := by
  simp only [Sophis.mergeBlock, mergeValidated, bind_eq_bind, bind_eq_some_iff] at step
  obtain ⟨validated, kept, diff, ran, fees, -, reward, -, eq⟩ := step
  cases eq
  have valid := (validateTransactionsInParallel_spec kept).2
  obtain ⟨computed, applies, processed, moved⟩ :=
    merging.processing.applyValidated fits collisionFree known shape blockKnown kept
  cases ran.symm.trans applies
  refine ⟨validated.map fst, ?_,
    { processing := processed, accounted := ?_, justified := ?_ }, ?_, moved⟩
  · intro accepted mem
    obtain ⟨item, inValidated, rfl⟩ := List.mem_map.mp mem
    exact (valid item inValidated).1
  · intro weight
    have before := merging.accounted weight
    have here := moved.total weight
    simp only [UtxoProcessingContext.accepted, flatMap_append, flatMap_cons, flatMap_nil,
      append_nil, map_append, sum_append] at before here ⊢
    omega
  · intro acceptance mem
    rcases mem_append.mp mem with old | new
    · exact merging.justified acceptance old
    · cases mem_singleton.mp new
      intro accepted inValidated
      rcases mergeable with ⟨rfl, sameDiff⟩ | full
      · refine .inl ⟨rfl, (valid accepted inValidated).1, ?_⟩
        rw [← sameDiff]
        exact (valid accepted inValidated).2.2
      · refine .inr ⟨full, context.mergesetDiff.compose base.lookup, ?_⟩
        rw [← full]
        exact (valid accepted inValidated).2.1
  · simp only [UtxoProcessingContext.accepted, flatMap_append,
      flatMap_cons, flatMap_nil, append_nil]

theorem Merging.mergeBlocks {blocks : List Block}
    (merging : Merging hashers params base povDaaScore selectedParent start history context)
    (shapes : ∀ block ∈ blocks, BlockShape params.transactionValidator block)
    (blocksKnown : ∀ block ∈ blocks, ∀ tx ∈ block.transactions, tx ∈ allTxs)
    (folded : (blocks.map fun block => (block, TxValidationFlags.full)).foldlM
      (Sophis.mergeBlock hashers params base.lookup povDaaScore)
      context = some next) :
    ∃ ran : List ValidatedTransaction, (∀ accepted ∈ ran, ∃ block ∈ blocks,
      accepted.populated.tx ∈ block.transactions.tail) ∧
      Merging hashers params base povDaaScore selectedParent start
        (appliedBefore ran ++ history) next ∧
      next.accepted = context.accepted ++ ran ∧
      DiffMoves hashers base povDaaScore context.mergesetDiff
        (ran.map ValidatedTransaction.populated)
        next.mergesetDiff := by
  induction blocks generalizing context history with
  | nil =>
    cases folded
    exact ⟨[], forall_mem_nil _, merging, (append_nil _).symm, .done _⟩
  | cons block rest ih =>
    rw [map_cons, foldlM_cons, bind_eq_bind, bind_eq_some_iff] at folded
    obtain ⟨mid, step, continued⟩ := folded
    have isKnown := blocksKnown block mem_cons_self
    obtain ⟨first, own, mergedFirst, firstAccepted, firstMoves⟩ :=
      merging.mergeBlock fits collisionFree known
        (shapes block mem_cons_self) isKnown (.inr rfl) step
    have firstKnown : ∀ tx ∈ appliedBefore first ++ history, tx ∈ allTxs :=
      known_of_appliedBefore known fun validated isFirst =>
        isKnown _ (mem_of_mem_tail (own validated isFirst))
    obtain ⟨others, later, mergedAll, othersAccepted, othersMoves⟩ := ih firstKnown mergedFirst
        (forall_mem_cons.mp shapes).2 (forall_mem_cons.mp blocksKnown).2 continued
    refine ⟨first ++ others, ?_, ?_, ?_, ?_⟩
    · intro accepted mem
      rcases mem_append.mp mem with isFirst | isLater
      · exact ⟨block, mem_cons_self, own accepted isFirst⟩
      · exact exists_mem_cons_of_exists (later accepted isLater)
    · rw [appliedBefore_append, append_assoc]
      exact mergedAll
    · rw [othersAccepted, firstAccepted, append_assoc]
    · rw [map_append]
      exact firstMoves.append othersMoves

end

/-- The difference with which a calculation starts: the coinbase of the
selected parent and nothing else. -/
structure CoinbaseApplied (hashers : Hashers) (base : UtxoSet)
    (povDaaScore : UInt64) (coinbase : Transaction) (start : UtxoDiff) :
    Prop where
  extends_base : ∀ outpoint entry, base.lookup outpoint = some entry →
    start.compose base.lookup outpoint = some entry
  total_eq : ∀ weight, total weight (base.withDiff start) =
    coinbase.createdWeight hashers weight povDaaScore + total weight base

variable {validated : ValidatedTransaction}

theorem newCoinbase_eq_some (isNew : ValidatedTransaction.newCoinbase coinbase = some validated) :
    validated.populated.tx = coinbase ∧ validated.populated.spentEntries = [] := by
  rw [ValidatedTransaction.newCoinbase] at isNew
  split at isNew
  · cases isNew
    exact ⟨rfl, by simp [spentEntries, populatedInputs]⟩
  · cases isNew

variable (inv : LedgerInvariant hashers params history base) (fits : params.CountsFitWords)
include inv fits

theorem LedgerInvariant.applyCoinbase (shape : CoinbaseShape params.transactionValidator coinbase)
    (fresh : Fresh hashers history coinbase)
    (isNew : ValidatedTransaction.newCoinbase coinbase = some validated) (povDaaScore : UInt64) :
    ∃ start, applyAll hashers povDaaScore .empty [validated] = some start ∧
      CoinbaseApplied hashers base povDaaScore coinbase start ∧
      Processing hashers params base (coinbase :: history) start ∧
      DiffMove hashers base povDaaScore .empty validated.populated start := by
  obtain ⟨rfl, nothingSpent⟩ := newCoinbase_eq_some isNew
  obtain ⟨next, processing, move⟩ := inv.processing.addTransaction fits (.inr shape) fresh
      (fun entry mem => absurd (nothingSpent ▸ mem) not_mem_nil) povDaaScore
  have ran : applyAll hashers povDaaScore .empty [validated] = some next := by
    simp only [applyAll, move.added]
  refine ⟨next, ran, { extends_base := ?_, total_eq := ?_ }, processing, move⟩
  · intro key entry present
    rw [← UtxoSet.lookup_withDiff, move.posted, lookup_post_of_notMem,
      UtxoSet.withDiff_empty, present]
    · simp [nothingSpent]
    · intro created
      exact inv.created_fresh fresh created (Finmap.mem_of_lookup_eq_some present)
  · intro weight
    have moves := (DiffMoves.move move (.done next)).weigh fun _ => weight
    simp only [map_cons, map_nil, sum_cons, sum_nil, nothingSpent, Nat.add_zero, Nat.zero_add,
      UtxoSet.withDiff_empty] at moves
    exact moves

variable (collisionFree : hashers.CollisionFree allTxs) (known : ∀ tx ∈ history, tx ∈ allTxs)
include collisionFree known

theorem LedgerInvariant.startMerging
    (parentShape : BlockShape params.transactionValidator selectedParent)
    (parentKnown : ∀ tx ∈ selectedParent.transactions, tx ∈ allTxs)
    (below : CoinbasesBelow history selectedParent.header.blueScore.toNat)
    (first : selectedParent.coinbase? = some coinbase) (payload : 8 ≤ coinbase.payload.length)
    (isNew : ValidatedTransaction.newCoinbase coinbase = some validated) (povDaaScore : UInt64) :
    ∃ start, applyAll hashers povDaaScore .empty [validated] = some start ∧
      CoinbaseApplied hashers base povDaaScore coinbase start ∧
      DiffMove hashers base povDaaScore .empty validated.populated start ∧
      (∀ tx ∈ coinbase :: history, tx ∈ allTxs) ∧
      ∀ environment, Merging hashers params base povDaaScore selectedParent start
        (coinbase :: history) ⟨environment, start, [], []⟩ := by
  have coinbaseKnown := parentKnown coinbase (mem_of_mem_head? first)
  obtain ⟨shape, declared⟩ := parentShape.coinbase coinbase first
  have fresh := inv.fresh_coinbase fits collisionFree known
    coinbaseKnown shape payload (by rwa [declared])
  obtain ⟨start, ran, coinbaseApplied, processing, move⟩ :=
    inv.applyCoinbase fits shape fresh isNew povDaaScore
  refine ⟨start, ran, coinbaseApplied, move, ?_, fun environment => {
    processing
    accounted := fun weight => rfl
    justified := forall_mem_nil _ }⟩
  exact forall_mem_cons.mpr ⟨coinbaseKnown, known⟩

/-- What a whole calculation does: it applies the coinbase of the selected
parent, then what it accepts from the selected parent and the mergeset. -/
theorem LedgerInvariant.calculateUtxoState {mergeset : List Block}
    (shapes : ∀ block ∈ selectedParent :: mergeset, BlockShape params.transactionValidator block)
    (blocksKnown : ∀ block ∈ selectedParent :: mergeset, ∀ tx ∈ block.transactions, tx ∈ allTxs)
    (below : CoinbasesBelow history selectedParent.header.blueScore.toNat)
    (ran : Sophis.calculateUtxoState hashers params environment base.lookup
      povDaaScore selectedParent mergeset = some context) :
    ∃ coinbase start validated, selectedParent.coinbase? = some coinbase ∧
      8 ≤ coinbase.payload.length ∧
      ValidatedTransaction.newCoinbase coinbase = some validated ∧
      CoinbaseApplied hashers base povDaaScore coinbase start ∧
      (∀ accepted ∈ context.accepted, ∃ block ∈ selectedParent :: mergeset,
        accepted.populated.tx ∈ block.transactions.tail) ∧
      Merging hashers params base povDaaScore selectedParent start
        (appliedBefore context.accepted ++ coinbase :: history) context ∧
      DiffMoves hashers base povDaaScore .empty ((validated :: context.accepted).map
          ValidatedTransaction.populated)
        context.mergesetDiff := by
  simp only [Sophis.calculateUtxoState, bind_eq_bind, bind_eq_some_iff, foldlM_cons] at ran
  obtain ⟨coinbase, first, validated, isNew, start, applied, mid, mergedParent, folded⟩ := ran
  have parentKnown := blocksKnown selectedParent mem_cons_self
  have parentShape := shapes selectedParent mem_cons_self
  have payload := payload_of_mergeBlock mergedParent first
  obtain ⟨computed, applies, coinbaseApplied, move, knownBefore, begun⟩ :=
    inv.startMerging fits collisionFree known parentShape parentKnown
      below first payload isNew povDaaScore
  cases applied.symm.trans applies
  obtain ⟨ownApplied, own, parentMerged, parentAccepted, parentMoves⟩ :=
    (begun environment).mergeBlock fits collisionFree knownBefore parentShape parentKnown
      (.inl ⟨rfl, rfl⟩) mergedParent
  have ownKnown : ∀ tx ∈ appliedBefore ownApplied ++ coinbase :: history, tx ∈ allTxs :=
    known_of_appliedBefore knownBefore fun accepted isOwn =>
      parentKnown _ (mem_of_mem_tail (own accepted isOwn))
  obtain ⟨others, later, mergedAll, othersAccepted, othersMoves⟩ :=
    parentMerged.mergeBlocks fits collisionFree ownKnown (forall_mem_cons.mp shapes).2
      (forall_mem_cons.mp blocksKnown).2 folded
  have nothingBefore : UtxoProcessingContext.accepted ⟨environment, start, [], []⟩ = [] := rfl
  rw [parentAccepted, nothingBefore, nil_append] at othersAccepted
  rw [othersAccepted]
  refine ⟨coinbase, start, validated, first, payload, isNew, coinbaseApplied, ?_, ?_, ?_⟩
  · intro accepted mem
    rcases mem_append.mp mem with isOwn | isLater
    · exact ⟨selectedParent, mem_cons_self, own accepted isOwn⟩
    · exact exists_mem_cons_of_exists (later accepted isLater)
  · rw [appliedBefore_append, append_assoc]
    exact mergedAll
  · rw [map_cons, map_append]
    exact .move move (parentMoves.append othersMoves)

end

variable {external : External} {params : Params} {blocks : List Block}
  {state next : ChainState} {candidate : ChainCandidate}
  {context : UtxoProcessingContext} {history : List Transaction}

/-- What a full validation of an accepted transaction was run on. -/
structure Judgement where
  environment : ValidationEnvironment
  daaScore : UInt64
  populated : PopulatedTransaction

def Judgement.Passed (hashers : Hashers) (params : Params) (judgement : Judgement) : Prop :=
  ∃ fee, (validatePopulatedTransactionAndGetFee
      (params.contextualValidator hashers judgement.environment.svm)
      judgement.environment.scheduling judgement.populated
      judgement.daaScore .full none).run.evaluate judgement.environment.verify =
    .ok fee

/-- The full validations behind what a step accepts. The transactions of the
selected parent, which the step takes without their scripts, were judged when
the selected parent was verified. -/
def ChainState.judgements (state : ChainState) (povDaaScore : UInt64)
    (context : UtxoProcessingContext) : List Judgement :=
  context.acceptance.flatMap fun merged =>
    merged.transactions.map fun accepted =>
      if merged.flags = .skipScriptChecks then
        ⟨state.verification, state.tip.header.daaScore, accepted.1.populated⟩
      else
        ⟨merged.environment, povDaaScore, accepted.1.populated⟩

theorem ChainState.judgements_map {α : Type} (state : ChainState) (povDaaScore : UInt64)
    (context : UtxoProcessingContext) (read : PopulatedTransaction → α) :
    ((state.judgements povDaaScore context).map fun judgement => read judgement.populated) =
      context.accepted.map fun validated => read validated.populated := by
  rw [judgements, UtxoProcessingContext.accepted, map_flatMap, map_flatMap]
  congr 1
  funext merged
  rw [List.map_map, List.map_map]
  refine map_congr_left fun accepted _ => ?_
  simp only [Function.comp_apply]
  split <;> rfl

variable {hashers : Hashers}

/-- A step that succeeds has a calculated state and a fully verified block. -/
theorem ChainState.extend_eq_some
    (extended : state.extend hashers params candidate = some (context, next)) :
    calculateUtxoState hashers params candidate.environment state.utxo.lookup
        candidate.block.header.daaScore state.tip candidate.mergeset = some context ∧
      next = ⟨candidate.block, state.utxo.withDiff context.mergesetDiff, context.environment⟩ ∧
      ∀ tx ∈ candidate.block.transactions.tail, ∃ validated,
        validateTransactionInUtxoContext hashers params context.environment tx
            (context.mergesetDiff.compose state.utxo.lookup) candidate.block.header.daaScore .full =
          .ok validated := by
  simp only [ChainState.extend, bind_eq_bind, bind_eq_some_iff] at extended
  obtain ⟨computed, ran, ⟨⟩, verified, eq⟩ := extended
  cases eq
  refine ⟨ran, rfl, fun tx mem => ?_⟩
  rw [toOption_eq_some_iff] at verified
  simp only [verifyExpectedUtxoState, bind_eq_ok, check_eq_ok,
    orPanic_eq_ok, reject_eq_ok, Nat.not_lt] at verified
  obtain ⟨coinbase, -, -, validated, kept, complete⟩ := verified
  exact validated_of_keepValid_length kept (by simpa using complete) (by rwa [zipIdx_tail_map_fst])

/-- What holds of every chain: its unspent outputs are what its accepted
transactions left over, every coinbase among them is older than the tip, and
the transactions of the tip were all verified. -/
structure ChainInvariant (hashers : Hashers) (params : Params)
    (blocks : List Block) (state : ChainState)
    (history : List Transaction) : Prop where
  ledger : LedgerInvariant hashers params history state.utxo
  known : ∀ tx ∈ history, tx ∈ blocks.flatMap Block.transactions
  tip_mem : state.tip ∈ blocks
  tip_shape : BlockShape params.transactionValidator state.tip
  below : CoinbasesBelow history state.tip.header.blueScore.toNat
  tip_verified : ∀ tx ∈ state.tip.transactions.tail, ∃ validated,
    validateTransactionInUtxoContext hashers params state.verification tx
        state.utxo.lookup state.tip.header.daaScore .full =
      .ok validated

/-- How a step changes every total: by what the judged transactions create and
spend, and by what the coinbase of the old tip creates. -/
structure StepAccounted (hashers : Hashers) (params : Params)
    (povDaaScore : UInt64) (state next : ChainState)
    (context : UtxoProcessingContext) (coinbase : Transaction) : Prop where
  moved : ∀ weight, ((state.judgements povDaaScore context).map fun judgement =>
      judgement.populated.spentWeight weight).sum +
      total weight next.utxo =
    ((state.judgements povDaaScore context).map fun judgement =>
      judgement.populated.tx.createdWeight hashers weight povDaaScore).sum +
      (coinbase.createdWeight hashers weight povDaaScore + total weight state.utxo)
  judged : ∀ judgement ∈ state.judgements povDaaScore context, judgement.Passed hashers params

theorem ChainInvariant.judged_of_tip
    (inv : ChainInvariant hashers params blocks state history) {view : UtxoView}
    (larger : ∀ key entry, state.utxo.lookup key = some entry →
      view key = some entry) {populated : PopulatedTransaction}
    (mem : populated.tx ∈ state.tip.transactions.tail)
    (got : populate view populated.tx = some populated) :
    Judgement.Passed hashers params ⟨state.verification, state.tip.header.daaScore, populated⟩ := by
  obtain ⟨validated, accepted⟩ := inv.tip_verified _ mem
  obtain ⟨own, passed⟩ := validateTransactionInUtxoContext_eq_ok accepted
  have eq := (populate_mono larger own).symm.trans got
  rw [Option.some.injEq] at eq
  exact ⟨validated.calculatedFee, eq ▸ passed⟩

variable {mergeset : List Block}

section

variable (inv : ChainInvariant hashers params blocks state history)
include inv

/-- The tip and the blocks merged with it have the shape of accepted bodies. -/
theorem ChainInvariant.merged_shape
    (bodies : ∀ block ∈ mergeset, ∃ bodyContext, BodyAccepted external params bodyContext block) :
    ∀ block ∈ state.tip :: mergeset, BlockShape params.transactionValidator block := by
  intro block mem
  rcases mem_cons.mp mem with rfl | inMergeset
  · exact inv.tip_shape
  · obtain ⟨bodyContext, accepted⟩ := bodies block inMergeset
    exact accepted.shape

theorem ChainInvariant.merged_known (mergeset : List Block) :
    ∀ block ∈ state.tip :: mergeset, ∀ tx ∈ block.transactions,
      tx ∈ (mergeset ++ blocks).flatMap Block.transactions := by
  intro block mem tx inBlock
  refine mem_flatMap.mpr ⟨block, ?_, inBlock⟩
  rcases mem_cons.mp mem with rfl | inMergeset
  · exact mem_append_right _ inv.tip_mem
  · exact mem_append_left _ inMergeset

theorem ChainInvariant.history_known (mergeset : List Block) :
    ∀ tx ∈ history, tx ∈ (mergeset ++ blocks).flatMap Block.transactions := by
  intro tx mem
  rw [flatMap_append]
  exact mem_append_right _ (inv.known tx mem)

end

section

variable (inv : ChainInvariant external.toHashers params blocks state history)
  (fits : params.CountsFitWords)
include inv fits

theorem ChainInvariant.join (collisionFree : external.toHashers.CollisionFree
      ((candidate.mergeset ++ blocks).flatMap Block.transactions))
    (joins : JoinsChain external params state candidate context next) :
    ∃ coinbase later, state.tip.coinbase? = some coinbase ∧ StepAccounted external.toHashers params
        candidate.block.header.daaScore state next context coinbase ∧
      ChainInvariant external.toHashers params
        (candidate.block :: candidate.mergeset ++ blocks) next later := by
  obtain ⟨ran, rfl, verified⟩ := ChainState.extend_eq_some joins.extended
  have shapes := inv.merged_shape fun block mem =>
    joins.bodies block (mem_cons_of_mem _ mem)
  have mergedTx := inv.merged_known candidate.mergeset
  have knownTx := inv.history_known candidate.mergeset
  obtain ⟨coinbase, start, -, first, payload, -, coinbaseApplied, own,
    merging, -⟩ := inv.ledger.calculateUtxoState fits collisionFree
      knownTx shapes mergedTx inv.below ran
  refine ⟨coinbase, appliedBefore context.accepted ++ coinbase :: history, first, ?_, ?_⟩
  · refine { moved := fun weight => ?_, judged := ?_ }
    · have change := merging.accounted weight
      rw [coinbaseApplied.total_eq] at change
      rw [state.judgements_map _ _ (spentWeight weight),
        state.judgements_map _ _ fun populated =>
          populated.tx.createdWeight external.toHashers weight candidate.block.header.daaScore]
      exact change
    · intro judgement mem
      obtain ⟨acceptance, inAcceptance, inMap⟩ := mem_flatMap.mp mem
      obtain ⟨item, inItems, rfl⟩ := List.mem_map.mp inMap
      rcases merging.justified acceptance inAcceptance item inItems with
        ⟨skipped, inTip, got⟩ | ⟨full, view, validated⟩
      · rw [if_pos skipped]
        exact inv.judged_of_tip coinbaseApplied.extends_base inTip got
      · rw [if_neg (by simp [full])]
        exact ⟨_, (validateTransactionInUtxoContext_eq_ok validated).2⟩
  · have grows : state.tip.header.blueScore.toNat < candidate.block.header.blueScore.toNat := by
      have pos := length_pos_of_mem joins.selectedParent_blue
      rw [joins.blueScore_eq]
      omega
    exact {
      ledger := merging.processing.ledger
      known := by
        intro tx mem
        rw [cons_append, flatMap_cons]
        refine mem_append_right _ ?_
        rcases mem_append.mp mem with new | old
        · obtain ⟨accepted, isAccepted, rfl⟩ := mem_appliedBefore.mp new
          obtain ⟨block, isMerged, inTail⟩ := own accepted isAccepted
          exact mergedTx block isMerged _ (mem_of_mem_tail inTail)
        · rcases mem_cons.mp old with rfl | older
          · exact mergedTx state.tip mem_cons_self tx (mem_of_mem_head? first)
          · exact knownTx tx older
      tip_mem := mem_cons_self
      tip_shape := by
        obtain ⟨bodyContext, accepted⟩ := joins.bodies candidate.block mem_cons_self
        exact accepted.shape
      below := by
        intro tx mem isCoinbase
        rcases mem_append.mp mem with new | old
        · obtain ⟨accepted, isAccepted, rfl⟩ := mem_appliedBefore.mp new
          obtain ⟨block, isMerged, inTail⟩ := own accepted isAccepted
          have ordinary := (shapes block isMerged).ordinary _ inTail
          rw [ordinary.notCoinbase] at isCoinbase
          cases isCoinbase
        · rcases mem_cons.mp old with rfl | older
          · rw [(inv.tip_shape.coinbase tx first).2]
            exact ⟨payload, grows⟩
          · obtain ⟨longEnough, smaller⟩ := inv.below tx older isCoinbase
            exact ⟨longEnough, smaller.trans grows⟩
      tip_verified := by
        intro tx mem
        have views : (fun key => (state.utxo.withDiff context.mergesetDiff).lookup key) =
            context.mergesetDiff.compose state.utxo.lookup :=
          funext fun key => UtxoSet.lookup_withDiff _ _ key
        rw [views]
        exact verified tx mem
    }

theorem ChainInvariant.calculateUtxoState (collisionFree : external.toHashers.CollisionFree
      ((mergeset ++ blocks).flatMap Block.transactions))
    (bodies : ∀ block ∈ mergeset, ∃ bodyContext, BodyAccepted external params bodyContext block)
    {environment : ValidationEnvironment} {povDaaScore : UInt64}
    (ran : Sophis.calculateUtxoState external.toHashers params environment
      state.utxo.lookup povDaaScore state.tip mergeset = some context) :
    ∃ coinbase validated, state.tip.coinbase? = some coinbase ∧
      ValidatedTransaction.newCoinbase coinbase = some validated ∧
      (∀ accepted ∈ context.accepted, ∃ block ∈ state.tip :: mergeset,
        accepted.populated.tx ∈ block.transactions.tail) ∧
      DiffMoves external.toHashers state.utxo povDaaScore .empty
        ((validated :: context.accepted).map ValidatedTransaction.populated)
        context.mergesetDiff := by
  obtain ⟨coinbase, -, validated, first, -, isNew, -, own, -, moves⟩ :=
    inv.ledger.calculateUtxoState fits collisionFree (inv.history_known mergeset)
      (inv.merged_shape bodies) (inv.merged_known mergeset) inv.below ran
  exact ⟨coinbase, validated, first, isNew, own, moves⟩

end

theorem genesisCoinbase_shape (validator : TransactionValidator) (payload : List UInt8) :
    CoinbaseShape validator (genesisCoinbase payload) where
  isCoinbase := rfl
  noInputs := rfl
  outputs_bounded := Nat.zero_le _
  scripts_short := forall_mem_nil _

theorem chainInvariant_genesis {header : Header} {payload : List UInt8}
    (environment : ValidationEnvironment) (declared : u64At payload 0 = header.blueScore) :
    ChainInvariant hashers params [⟨header, [genesisCoinbase payload]⟩]
      ⟨⟨header, [genesisCoinbase payload]⟩, ∅, environment⟩ [] where
  ledger := {
    shapes := forall_mem_nil _
    created := fun _ mem => absurd mem Finmap.notMem_empty
    spent := forall_mem_nil _
  }
  known := forall_mem_nil _
  tip_mem := mem_cons_self
  tip_shape := {
    coinbase := by
      intro tx first
      cases first
      exact ⟨genesisCoinbase_shape _ payload, declared⟩
    ordinary := forall_mem_nil _
    distinct := nodup_nil
  }
  below := forall_mem_nil _
  tip_verified := forall_mem_nil _

theorem ChainRun.invariant (run : ChainRun external params blocks state)
    (fits : params.CountsFitWords)
    (collisionFree : external.toHashers.CollisionFree (blocks.flatMap Block.transactions)) :
    ∃ history, ChainInvariant external.toHashers params blocks state history := by
  induction run with
  | genesis header payload environment declared =>
    exact ⟨[], chainInvariant_genesis environment declared⟩
  | join prior joins ih =>
    rw [cons_append, flatMap_cons] at collisionFree
    have merged := collisionFree.mono (subset_append_right _ _)
    obtain ⟨history, inv⟩ := ih (merged.mono (by
      rw [flatMap_append]
      exact subset_append_right _ _))
    obtain ⟨coinbase, later, -, -, extended⟩ := inv.join fits merged joins
    exact ⟨later, extended⟩

end Sophis
