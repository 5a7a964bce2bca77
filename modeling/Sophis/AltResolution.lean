import Sophis.UtxoDiff
import Sophis.UtxoValidation

namespace Sophis

open ExceptLoop

/-!
# What a lookup-table reference becomes

An output may name an entry of a lookup table instead of spelling out a script.
The validator resolves it when it accepts the transaction. Is the entry then
created that of a direct payment to the table entry?
-/

def AltEntryRecord.scriptPublicKey (entry : AltEntryRecord) : ScriptPublicKey :=
  ⟨entry.spkVersion, entry.spkScript⟩

def TransactionOutput.payingTo (output : TransactionOutput)
    (spk : ScriptPublicKey) : TransactionOutput :=
  { output with scriptPublicKey := spk }

variable {index : Nat} {output : TransactionOutput}

theorem resolved_of_checkAltReference {svm : SvmContext} {altStore : AltStore}
    (isReference : classifyAltScript output.script = some .reference)
    (accepted : checkAltReference svm altStore index output = .ok ()) :
    ∃ reference entry element, parseAltReference output.script = .ok reference ∧
      altStore reference.handle = some entry ∧
      svm.createdOnChain entry = true ∧
      entry.entries[reference.index.toNat]? = some element := by
  rw [checkAltReference, if_neg (not_not.mpr isReference), bind_eq_ok] at accepted
  obtain ⟨reference, parsed, resolved⟩ := accepted
  rw [mapError_eq_ok] at parsed
  cases kept : altStore reference.handle with
  | none => simp [kept] at resolved
  | some entry =>
    simp only [kept, bind_eq_ok, check_eq_ok, reject_eq_ok, Bool.not_eq_true] at resolved
    obtain ⟨onChain, inRange⟩ := resolved
    -- The count is compared after truncation to 16 bits, which only
    -- makes it smaller.
    have bounded : reference.index.toNat < entry.entries.length := by
      rw [UInt16.not_le, UInt16.lt_iff_toNat_lt, AltEntry.entryCount,
        UInt16.toNat_ofNat'] at inRange
      exact Nat.lt_of_lt_of_le inRange (Nat.mod_le _ _)
    exact ⟨reference, entry, entry.entries.get ⟨_, bounded⟩, parsed, kept,
      by simpa using onChain, List.getElem?_eq_getElem bounded⟩

/-- Every accepted reference resolves, and the entry created for it is that of
a direct payment to the resolved script exactly when the table entry already
spells out the reference itself. -/
theorem reference_created_as_direct_payment_iff (hashers : Hashers) (svm : SvmContext)
    (altStore : AltStore) (tx : Transaction) (daaScore : UInt64) (index : Nat)
    (output : TransactionOutput) (installed : svm.altStore = some altStore)
    (accepted : checkAltReferences (some svm) tx = .ok ())
    (placed : tx.outputs[index]? = some output)
    (isReference : classifyAltScript output.script = some .reference) :
    ∃ reference entry element, parseAltReference output.script = .ok reference ∧
      altStore reference.handle = some entry ∧
      entry.entries[reference.index.toNat]? = some element ∧
      ((tx.createdEntries hashers daaScore)[index]? = some (⟨tx.id hashers, UInt32.ofNat index⟩,
          (output.payingTo element.scriptPublicKey).toEntry daaScore tx.isCoinbase) ↔
        element.spkVersion = output.version ∧ element.spkScript = output.script) := by
  rw [checkAltReferences, installed] at accepted
  have checked := (forEachFrom_eq_ok_iff 0 tx.outputs).mp accepted index output placed
  obtain ⟨reference, entry, element, parsed, kept, -, got⟩ :=
    resolved_of_checkAltReference isReference checked
  refine ⟨reference, entry, element, parsed, kept, got, ?_⟩
  simp only [Transaction.createdEntries, List.getElem?_map, List.getElem?_zipIdx, placed,
    Option.map_some, Nat.zero_add, Option.some.injEq, Prod.mk.injEq]
  constructor
  · rintro ⟨-, sameEntry⟩
    have sameKey : output.scriptPublicKey = element.scriptPublicKey :=
      congrArg UtxoEntry.scriptPublicKey sameEntry
    simp [TransactionOutput.version, TransactionOutput.script, sameKey,
      AltEntryRecord.scriptPublicKey]
  · rintro ⟨sameVersion, sameScript⟩
    refine ⟨trivial, ?_⟩
    have sameKey : element.scriptPublicKey = output.scriptPublicKey := by
      rw [AltEntryRecord.scriptPublicKey, sameVersion, sameScript]
      rfl
    rw [sameKey]
    rfl

def openTableHandle : AltHandle := ⟨[82, 246, 249, 43, 190, 76], rfl⟩

def openTable (creatingBlock : Hash) (creatingDaaScore : UInt64) : AltEntry where
  handle := openTableHandle
  entries := [⟨0, [0x51]⟩]
  creatingBlockHash := creatingBlock
  creatingDaaScore := creatingDaaScore

/-- A contract context that only knows the stores a reference check reads. -/
def tableContext (altStore : AltStore) (chain : SelectedChainStore) : SvmContext where
  executor := ⟨fun _ _ _ _ => .ok false⟩
  store := fun _ => none
  daStore := none
  lkgBlueScore := none
  altStore := some altStore
  selectedChainStore := some chain
  headersDaaScore := none
  pruningPoint := none
  pendingChainBlocks := []

/-- The node whose chain block, with hash zero, created the table. -/
def openTableContext : SvmContext := tableContext
    (AltStore.indexAltCreations (fun _ => none) [⟨openTableHandle, openTable zeroHash 1⟩])
    (.initWithPruningPoint zeroHash)

def openTableReference : ScriptPublicKey :=
  ⟨0, altDiscriminatorReference :: openTableHandle.bytes ++ [0]⟩

def referencePayment : Transaction := { (unsignedSpend ⟨0, [0x51]⟩).tx with
    version := 1
    outputs := [⟨999999999000, openTableReference⟩] }

def referencePaymentHashers : Hashers := { Hashers.zero with
    transactionIdHash := fun _ =>
      ⟨[248, 68, 64, 229, 188, 77, 46, 118, 123, 177, 120, 16, 28, 184, 80, 88, 40, 17, 105, 25,
        230, 52, 161, 28, 14, 154, 245, 183, 167, 167, 98, 110], rfl⟩ }

/-- The payment meets every hypothesis, so the comparison applies to it. -/
theorem referencePayment_created_iff :
    ∃ reference entry element, parseAltReference openTableReference.script = .ok reference ∧
      AltStore.indexAltCreations (fun _ => none)
          [⟨openTableHandle, openTable zeroHash 1⟩] reference.handle =
        some entry ∧
      entry.entries[reference.index.toNat]? = some element ∧
      ((referencePayment.createdEntries referencePaymentHashers 2)[0]? =
          some (⟨referencePayment.id referencePaymentHashers, UInt32.ofNat 0⟩,
            (TransactionOutput.payingTo ⟨999999999000, openTableReference⟩
              element.scriptPublicKey).toEntry 2 referencePayment.isCoinbase) ↔
        element.spkVersion = TransactionOutput.version ⟨999999999000, openTableReference⟩ ∧
          element.spkScript = TransactionOutput.script ⟨999999999000, openTableReference⟩) :=
  reference_created_as_direct_payment_iff referencePaymentHashers openTableContext _
    referencePayment 2 0 _ rfl (by decide +kernel) rfl (by decide +kernel)

/-- The payment is accepted by both validators, but the entry created for it
keeps the reference bytes: the script engine rejects the spend that it accepts
from a direct payment to the table entry. -/
theorem referencePayment_not_resolved :
    validateTxInIsolation ⟨referencePaymentHashers, ⟨fun _ => []⟩⟩
          mainnetParams.transactionValidator referencePayment =
        .ok () ∧
      checkAltReferences (some openTableContext) referencePayment = .ok () ∧
      (referencePayment.createdEntries referencePaymentHashers 2)[0]?.map
          (fun created => created.2.scriptPublicKey) =
        some openTableReference ∧
      openTableReference ≠ ⟨0, [0x51]⟩ ∧
      (validatePopulatedTransactionAndGetFee (mainnetParams.contextualValidator .zero none) .inOrder
          (unsignedSpend openTableReference) 1 .full none).run.evaluate (fun _ => false) =
        .error (.raised (.signatureEmpty (.invalidOpcode "Opcode<0xfd>\x7b data:[] \x7d"))) ∧
      (validatePopulatedTransactionAndGetFee (mainnetParams.contextualValidator .zero none) .inOrder
          (unsignedSpend ⟨0, [0x51]⟩) 1 .full none).run.evaluate (fun _ => false) =
        .ok 1000 := by
  refine ⟨?_, ?_, ?_, ?_, ?_, ?_⟩ <;> decide +kernel

end Sophis
