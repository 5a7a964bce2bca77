import Sophis.AltResolution
import Sophis.NodeHistory

namespace Sophis

open ByteCodec ExceptLoop FirstWriterStore List Option

/-!
# Reference verdicts and the history of a node

A reference is judged by the first block this node ever committed for its
table, and by where the node finds that block now: on its stored selected
chain, in the batch it is working on, or below its pruning point. The verdict
is that of the selected chain alone as long as the node committed the
table-creating blocks of this chain and no others, and kept them in sight.
-/

def committedBlocks (events : List NodeEvent) : List ChainBlock := events.filterMap fun event =>
    match event with
    | .commitUtxoState block => some block
    | _ => none

variable (hashers : Hashers)

def tableBlocks (blocks : List ChainBlock) : List ChainBlock :=
  blocks.filter fun block => block.altCreations hashers ≠ []

/-- The tables of a chain: each handle belongs to the first block of the chain
that creates it. -/
def chainTables (chain : List ChainBlock) : AltStore :=
  firstWritten (chain.flatMap (ChainBlock.altWrites hashers))

theorem flatMap_altWrites_tableBlocks (blocks : List ChainBlock) :
    (tableBlocks hashers blocks).flatMap (ChainBlock.altWrites hashers) =
      blocks.flatMap (ChainBlock.altWrites hashers) := by
  induction blocks with
  | nil => rfl
  | cons block rest ih =>
    by_cases creates : block.altCreations hashers = []
    · have nothing : block.altWrites hashers = [] := by
        rw [ChainBlock.altWrites, creates, map_nil]
      rw [tableBlocks, filter_cons_of_neg (by simp [creates]), ← tableBlocks, ih, flatMap_cons,
        nothing, nil_append]
    · rw [tableBlocks, filter_cons_of_pos (by simp [creates]), ← tableBlocks, flatMap_cons, ih,
        flatMap_cons]

theorem creator_of_mem_altWrites {hashers : Hashers} {block : ChainBlock} {handle : AltHandle}
    {entry : AltEntry} (mem : (handle, entry) ∈ block.altWrites hashers) :
    entry.creatingBlockHash = block.hash ∧ entry.creatingDaaScore = block.daaScore := by
  obtain ⟨creation, created, eq⟩ := List.mem_map.mp mem
  cases eq
  obtain ⟨tx, -, inOutputs⟩ := mem_flatMap.mp created
  obtain ⟨output, -, indexed⟩ := mem_filterMap.mp inOutputs
  rw [altCreationIndex?] at indexed
  split at indexed
  · cases indexed
  · cases parsed : parseAltCreationHeader hashers output.script with
    | error _ =>
      rw [parsed] at indexed
      cases indexed
    | ok header =>
      rw [parsed] at indexed
      obtain ⟨entries, -, eq⟩ := bind_eq_some_iff.mp indexed
      cases eq
      exact ⟨rfl, rfl⟩

section

variable {hashers : Hashers} {node : Node} {genesis : Hash} {events : List NodeEvent}

theorem flatMap_altWrites_committedBlocks (events : List NodeEvent) :
    events.flatMap (NodeEvent.altWrites hashers) =
      (committedBlocks events).flatMap (ChainBlock.altWrites hashers) := by
  induction events with
  | nil => rfl
  | cons event rest ih =>
    rw [flatMap_cons, ih]
    cases event <;> rfl

theorem altStore_of_run (ran : (Node.initial genesis).run hashers events = some node) :
    node.altStore = chainTables hashers (committedBlocks events) := by
  funext handle
  rw [chainTables, ← flatMap_altWrites_committedBlocks]
  exact Node.firstWritten_of_run (fun _ => rfl) (fun _ _ _ => Node.altStore_step) ran handle

end

section

variable {hashers : Hashers} {headersDaaScore : Hash → Option UInt64}
  {genesis : Hash} {chain : List ChainBlock}

/-- Where a node takes a block as part of the selected chain. -/
def Node.Sees (headersDaaScore : Hash → Option UInt64) (node : Node) (block : ChainBlock) : Prop :=
  (node.selectedChain.getByHash block.hash).isSome = true ∨ block.hash ∈ node.pendingChainBlocks ∨
    ∃ horizon, headersDaaScore node.pruningPoint = some horizon ∧ block.daaScore < horizon

/-- When a step cannot lose sight of a block: a new tip keeps it, or takes it
over from the pending batch; the pruning point does not move back; and what is
pruned from the chain is below the pruning point. -/
def NodeEvent.KeepsInSight (headersDaaScore : Hash → Option UInt64)
    (block : ChainBlock) (node : Node) : NodeEvent → Prop
  | .commitVirtualState path _ =>
    block.hash ∉ path.removed ∧ (block.hash ∈ node.pendingChainBlocks →
      (node.selectedChain.getByHash block.hash).isSome = true ∨ block.hash ∈ path.added)
  | .advancePruningPoint point =>
    ∀ horizon, headersDaaScore node.pruningPoint = some horizon →
      ∃ moved, headersDaaScore point = some moved ∧ horizon ≤ moved
  | .pruneSelectedChain root =>
    ∀ rootIndex index, node.selectedChain.getByHash root = some rootIndex →
      index < rootIndex.toNat → node.selectedChain.getByIndex (UInt64.ofNat index) =
          some block.hash →
        ∃ horizon, headersDaaScore node.pruningPoint = some horizon ∧ block.daaScore < horizon
  | .calculateUtxoState _ | .commitUtxoState _ | .pruneCarriers _ => True

theorem Node.Sees.step {node next : Node} {block : ChainBlock} {event : NodeEvent}
    (sees : node.Sees headersDaaScore block) (keeps : event.KeepsInSight headersDaaScore block node)
    (stepped : node.step hashers event = some next) : next.Sees headersDaaScore block := by
  cases event with
  | calculateUtxoState ok =>
    cases stepped
    exact sees
  | commitUtxoState committed =>
    cases stepped
    rcases sees with stored | pending | below
    · exact .inl stored
    · exact .inr (.inl (mem_cons_of_mem _ pending))
    · exact .inr (.inr below)
  | commitVirtualState path blueScore =>
    obtain ⟨kept, takenOver⟩ := keeps
    obtain ⟨selectedChain, ran, eq⟩ := bind_eq_some_iff.mp stepped
    cases eq
    have onChain : (selectedChain.getByHash block.hash).isSome = true ↔ _ :=
      SelectedChainStore.isSome_getByHash_applyChanges_iff ran
    rcases sees with stored | pending | below
    · exact .inl (onChain.mpr (.inl ⟨kept, stored⟩))
    · exact .inl (onChain.mpr ((takenOver pending).imp_left fun stored => ⟨kept, stored⟩))
    · exact .inr (.inr below)
  | advancePruningPoint point =>
    cases stepped
    rcases sees with stored | pending | ⟨horizon, got, below⟩
    · exact .inl stored
    · exact .inr (.inl pending)
    · obtain ⟨moved, atPoint, higher⟩ := keeps horizon got
      exact .inr (.inr ⟨moved, atPoint, UInt64.lt_of_lt_of_le below higher⟩)
  | pruneSelectedChain root =>
    obtain ⟨selectedChain, pruned, eq⟩ := bind_eq_some_iff.mp stepped
    cases eq
    obtain ⟨rootIndex, got, eq⟩ := bind_eq_some_iff.mp pruned
    cases eq
    rcases sees with stored | pending | below
    · by_cases isPruned : ∃ index < rootIndex.toNat,
        node.selectedChain.getByIndex (UInt64.ofNat index) = some block.hash
      · obtain ⟨index, smaller, atIndex⟩ := isPruned
        exact .inr (.inr (keeps rootIndex index got smaller atIndex))
      · refine .inl ?_
        rwa [SelectedChainStore.getByHash_pruneBelowIndex fun lower smaller atIndex =>
          isPruned ⟨lower, smaller, atIndex⟩]
    · exact .inr (.inl pending)
    · exact .inr (.inr below)
  | pruneCarriers pruned =>
    cases stepped
    exact sees

def Node.KeepsInSight (hashers : Hashers)
    (headersDaaScore : Hash → Option UInt64) (blocks : List ChainBlock) :
    Node → List NodeEvent → Prop
  | _, [] => True
  | node, event :: events =>
    (∀ block ∈ blocks, event.KeepsInSight headersDaaScore block node) ∧
      ∀ next, node.step hashers event = some next →
        next.KeepsInSight hashers headersDaaScore blocks events

/-- Histories in which a node committed the table-creating blocks of a chain,
in its order and no others, and never lost sight of them. -/
structure Undisturbed (hashers : Hashers)
    (headersDaaScore : Hash → Option UInt64) (chain : List ChainBlock)
    (genesis : Hash) (events : List NodeEvent) : Prop where
  committed : tableBlocks hashers (committedBlocks events) = tableBlocks hashers chain
  inSight : (Node.initial genesis).KeepsInSight hashers headersDaaScore
    (tableBlocks hashers chain) events

theorem sees_of_run {blocks : List ChainBlock} {events : List NodeEvent} {node final : Node}
    (kept : node.KeepsInSight hashers headersDaaScore blocks events)
    (ran : node.run hashers events = some final) {block : ChainBlock} (mem : block ∈ blocks)
    (sees : node.Sees headersDaaScore block ∨ block ∈ committedBlocks events) :
    final.Sees headersDaaScore block := by
  induction events generalizing node with
  | nil =>
    cases ran
    exact sees.resolve_right not_mem_nil
  | cons event rest ih =>
    obtain ⟨next, stepped, continued⟩ := bind_eq_some_iff.mp ran
    obtain ⟨keeps, keptLater⟩ := kept
    refine ih (keptLater next stepped) continued ?_
    rcases sees with already | committed
    · exact .inl (already.step (keeps block mem) stepped)
    · cases event with
      | commitUtxoState own =>
        rcases mem_cons.mp committed with rfl | later
        · cases stepped
          exact .inl (.inr (.inl mem_cons_self))
        · exact .inr later
      | calculateUtxoState _ | commitVirtualState _ _
      | advancePruningPoint _ | pruneSelectedChain _ | pruneCarriers _ => exact .inr committed

end

section

def checkReferenceAgainst (tables : AltStore) (index : Nat)
    (output : TransactionOutput) : TxResult Unit :=
  if classifyAltScript output.script ≠ some .reference then
    .ok ()
  else do
    let reference ← (parseAltReference output.script).mapError
      fun error => .altReferenceMalformed index error.message
    match tables reference.handle with
    | none => throw (.altReferenceDanglingHandle index (hex reference.handle.bytes))
    | some entry =>
      reject (entry.entryCount ≤ reference.index.toUInt16)
        (.altReferenceIndexOutOfRange index reference.index entry.entryCount)

/-- The verdict that depends on a chain only: references resolve in the tables
that its blocks create. -/
def chainVerdict (hashers : Hashers) (chain : List ChainBlock) (tx : Transaction) : TxResult Unit :=
  forEach (checkReferenceAgainst (chainTables hashers chain)) tx.outputs

theorem checkAltReference_eq (svm : SvmContext) (altStore : AltStore) (index : Nat)
    (output : TransactionOutput) :
    checkAltReference svm altStore index output = checkReferenceAgainst
      (fun handle => (altStore handle).filter svm.createdOnChain) index
      output := by
  rw [checkAltReference, checkReferenceAgainst]
  by_cases isReference : classifyAltScript output.script = some .reference
  · simp only [isReference, ne_eq, not_true_eq_false, if_false]
    cases parseAltReference output.script with
    | error _ => rfl
    | ok reference =>
      cases kept : altStore reference.handle with
      | none => simp [kept, Except.mapError, ok_bind]
      | some entry =>
        cases onChain : svm.createdOnChain entry with
        | false =>
          simp [kept, onChain, Option.filter, Except.mapError, ok_bind, reject]
          rfl
        | true => simp [kept, onChain, Option.filter, Except.mapError, ok_bind, reject]
  · simp [isReference]

variable {hashers : Hashers} {headersDaaScore : Hash → Option UInt64} {node : Node}

theorem createdOnChain_of_sees {block : ChainBlock} {entry : AltEntry}
    (sees : node.Sees headersDaaScore block) (creator : entry.creatingBlockHash = block.hash)
    (score : entry.creatingDaaScore = block.daaScore) (executor : ContractExecutor) :
    (node.svm executor headersDaaScore).createdOnChain entry = true := by
  rw [SvmContext.createdOnChain]
  rcases sees with kept | pending | ⟨horizon, got, below⟩
  · simp [Node.svm, creator, kept]
  · simp [Node.svm, creator, pending]
  · simp [Node.svm, SvmContext.belowHorizon, got, score, below]

variable {chain : List ChainBlock} {genesis : Hash} {events : List NodeEvent}

section

variable (undisturbed : Undisturbed hashers headersDaaScore chain genesis events)
  (ran : (Node.initial genesis).run hashers events = some node) (executor : ContractExecutor)
include undisturbed ran executor

theorem Undisturbed.acceptedTables_eq (handle : AltHandle) :
    (node.altStore handle).filter (node.svm executor headersDaaScore).createdOnChain =
      chainTables hashers chain handle := by
  have sameTables : chainTables hashers (committedBlocks events) = chainTables hashers chain := by
    rw [chainTables, ← flatMap_altWrites_tableBlocks, undisturbed.committed,
      flatMap_altWrites_tableBlocks, ← chainTables]
  rw [altStore_of_run ran, sameTables]
  cases got : chainTables hashers chain handle with
  | none => rfl
  | some entry =>
    rw [chainTables, ← flatMap_altWrites_tableBlocks] at got
    obtain ⟨block, inTables, written⟩ := mem_flatMap.mp (mem_of_firstWritten got)
    obtain ⟨creator, score⟩ := creator_of_mem_altWrites written
    have committed : block ∈ committedBlocks events :=
      mem_of_mem_filter (undisturbed.committed ▸ inTables)
    have sees := sees_of_run undisturbed.inSight ran inTables (.inr committed)
    exact filter_eq_some_iff.mpr ⟨rfl, createdOnChain_of_sees sees creator score executor⟩

theorem Undisturbed.checkAltReferences_eq (tx : Transaction) :
    checkAltReferences (some (node.svm executor headersDaaScore)) tx =
      chainVerdict hashers chain tx := by
  have tables := funext (undisturbed.acceptedTables_eq ran executor)
  have checks : checkAltReference (node.svm executor headersDaaScore) node.altStore =
      checkReferenceAgainst (chainTables hashers chain) := by
    funext index output
    rw [checkAltReference_eq, tables]
  rw [chainVerdict, ← checks]
  rfl

end

/-- Two nodes with undisturbed histories over one chain give every transaction
the same verdict, which is that of the chain. -/
theorem altVerdict_of_undisturbed (hashers : Hashers) (headersDaaScore : Hash → Option UInt64)
    (chain : List ChainBlock) (genesis : Hash) (events otherEvents : List NodeEvent)
    (node other : Node) (executor otherExecutor : ContractExecutor)
    (ran : (Node.initial genesis).run hashers events = some node)
    (otherRan : (Node.initial genesis).run hashers otherEvents = some other)
    (undisturbed : Undisturbed hashers headersDaaScore chain genesis events)
    (otherUndisturbed : Undisturbed hashers headersDaaScore chain genesis otherEvents)
    (tx : Transaction) :
    checkAltReferences (some (node.svm executor headersDaaScore)) tx =
        checkAltReferences (some (other.svm otherExecutor headersDaaScore)) tx ∧
      checkAltReferences (some (node.svm executor headersDaaScore)) tx =
        chainVerdict hashers chain tx := by
  have own := undisturbed.checkAltReferences_eq ran executor tx
  have others := otherUndisturbed.checkAltReferences_eq otherRan otherExecutor tx
  exact ⟨own.trans others.symm, own⟩

end

/-! Two blocks on top of the genesis both accept the transaction that creates
a table. A node that saw the losing block first keeps it as the creator of
the table, and rejects the references that other nodes accept. -/

/-- The hash functions with the digest of the entries of the table. -/
def tableHashers : Hashers := { Hashers.zero with
    sha3 := fun _ =>
      ⟨[82, 246, 249, 43, 190, 76, 234, 151, 156, 165, 22, 195, 88, 245, 37, 79, 101, 8, 141, 73,
        112, 241, 97, 49, 254, 18, 124, 8, 252, 79, 238, 228, 103, 243, 31, 154, 63, 233, 63, 90,
        97, 195, 219, 178, 55, 236, 71, 4], rfl⟩ }

/-- Creates the table whose one entry is the script `OpTrue`. -/
def tableCreation : Transaction := { (unsignedSpend ⟨0, [0x51]⟩).tx with
    version := 1
    outputs := [ ⟨0, ⟨0, altDiscriminatorCreation :: altMagic ++ [0, 0, 1] ++
      leBytes 4 5 ++ openTableHandle.bytes ++ [0, 0, 1, 0, 0x51]⟩⟩] }

def losingBlock : ChainBlock where
  hash := FixedBytes.replicate 32 1
  daaScore := 1
  blueScore := 1
  accepted := [tableCreation]

def winningBlock : ChainBlock where
  hash := FixedBytes.replicate 32 2
  daaScore := 1
  blueScore := 1
  accepted := [tableCreation]

/-- The node received the winning block first. -/
def steadyHistory : List NodeEvent := [.commitUtxoState winningBlock,
    .commitVirtualState ⟨[], [winningBlock.hash]⟩ 2]

/-- The node received the losing block first. -/
def reorganisedHistory : List NodeEvent := [.commitUtxoState losingBlock,
    .commitVirtualState ⟨[], [losingBlock.hash]⟩ 2,
    .commitUtxoState winningBlock,
    .commitVirtualState ⟨[losingBlock.hash], [winningBlock.hash]⟩ 2]

def tableHeaders (hash : Hash) : Option UInt64 := if hash = zeroHash then some 0 else some 1

/-- The tip, the pruning point and the verdict on a payment to the table after
a history. -/
def verdictAfter (events : List NodeEvent) :
    Option (Option (UInt64 × Hash) × Hash × TxResult Unit) :=
  ((Node.initial zeroHash).run tableHashers events).map fun node =>
    (node.selectedChain.getTip, node.pruningPoint,
      checkAltReferences (some (node.svm idleExecutor tableHeaders)) referencePayment)

/-- A block that competes with the winning one and creates nothing. -/
def emptyBlock : ChainBlock where
  hash := FixedBytes.replicate 32 3
  daaScore := 1
  blueScore := 1
  accepted := []

/-- The node received the empty block first. -/
def switchedHistory : List NodeEvent := [.commitUtxoState emptyBlock,
    .commitVirtualState ⟨[], [emptyBlock.hash]⟩ 2,
    .commitUtxoState winningBlock,
    .commitVirtualState ⟨[emptyBlock.hash], [winningBlock.hash]⟩ 2]

theorem mem_tableBlocks_winningBlock {block : ChainBlock}
    (mem : block ∈ tableBlocks tableHashers [winningBlock]) : block = winningBlock :=
  mem_singleton.mp (mem_of_mem_filter mem)

theorem steadyHistory_undisturbed :
    Undisturbed tableHashers tableHeaders [winningBlock] zeroHash steadyHistory where
  committed := rfl
  inSight := by
    refine ⟨fun _ _ => trivial, fun _ step => ?_⟩
    cases step
    refine ⟨fun block mem => ?_, fun _ _ => trivial⟩
    cases mem_tableBlocks_winningBlock mem
    exact ⟨not_mem_nil, fun _ => .inr mem_cons_self⟩

theorem switchedHistory_undisturbed :
    Undisturbed tableHashers tableHeaders [winningBlock] zeroHash switchedHistory where
  committed := by decide +kernel
  inSight := by
    refine ⟨fun _ _ => trivial, fun _ step => ?_⟩
    cases step
    refine ⟨fun block mem => ?_, fun _ _ => ⟨fun _ _ => trivial,
      fun _ _ => ⟨fun block mem => ?_, fun _ _ => trivial⟩⟩⟩
    · cases mem_tableBlocks_winningBlock mem
      refine ⟨not_mem_nil, fun pending => absurd pending ?_⟩
      decide
    · cases mem_tableBlocks_winningBlock mem
      refine ⟨?_, fun _ => .inr mem_cons_self⟩
      decide

/-- Switching over from a block without tables changes no verdict. -/
theorem switched_node_agrees :
    ∃ node other, (Node.initial zeroHash).run tableHashers steadyHistory = some node ∧
      (Node.initial zeroHash).run tableHashers switchedHistory = some other ∧
      checkAltReferences (some (node.svm idleExecutor tableHeaders)) referencePayment =
        checkAltReferences (some (other.svm idleExecutor tableHeaders)) referencePayment := by
  have steady : ((Node.initial zeroHash).run tableHashers steadyHistory).isSome = true := by
    decide +kernel
  have switched : ((Node.initial zeroHash).run tableHashers switchedHistory).isSome = true := by
    decide +kernel
  obtain ⟨node, ran⟩ := isSome_iff_exists.mp steady
  obtain ⟨other, otherRan⟩ := isSome_iff_exists.mp switched
  exact ⟨node, other, ran, otherRan,
    (altVerdict_of_undisturbed tableHashers tableHeaders [winningBlock] zeroHash steadyHistory
      switchedHistory node other idleExecutor idleExecutor ran otherRan steadyHistory_undisturbed
      switchedHistory_undisturbed referencePayment).1⟩

/-- Both nodes end with the same chain and pruning point, but only one of them
accepts the payment. -/
theorem reorganised_node_rejects_reference :
    verdictAfter steadyHistory = some (some (1, winningBlock.hash), zeroHash, .ok ()) ∧
      verdictAfter reorganisedHistory = some (some (1, winningBlock.hash), zeroHash,
        .error (.altReferenceDanglingHandle 0 "52f6f92bbe4c")) := by
  constructor <;> decide +kernel

end Sophis
