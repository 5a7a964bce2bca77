import Sophis.CalculationAborts
import Sophis.ExactDiff
import Sophis.ParentTree
import Sophis.UtxoCommitment

namespace Sophis

open Function List Option ParentTree

/-!
# Chains of a DAG and what is stored about them

The blocks of a DAG form a tree by their selected parents. The stores keep the
status, the difference and the multiset of chain blocks. Stores that tell the
history of their chains determine the unspent outputs of every valid block by
replay.
-/

section

/-- The blocks of a DAG that have accepted bodies. The parent of a block in
the tree is its selected parent; the mergeset is the rest of what its GHOSTDAG
data colours, in consensus order. Scripts are shorter than a machine word can
count, as all vectors in memory are. -/
structure BlockDag (external : External) (params : Params) (Node : Type)
    extends ParentTree.Tree Node where
  block : Node → Block
  ghostdag : Node → GhostdagData
  mergeset : Node → List Node
  nonDaa : Node → List Hash
  genesis : ∃ payload data, (block root).transactions = [genesisCoinbase payload] ∧
    (CoinbaseManager.ofParams params).deserializeCoinbasePayload payload = .ok data ∧
    data.blueScore = (block root).header.blueScore
  bodies : ∀ node, node ≠ root → ∃ context, BodyAccepted external params context (block node)
  root_not_merged : ∀ node, root ∉ mergeset node
  selectedParent_blue : ∀ node, node ≠ root →
    (block (parent node)).header.hash ∈ (ghostdag node).mergesetBlues
  coloured_merged : ∀ node, node ≠ root →
    ∀ hash ∈ (ghostdag node).mergesetBlues ++ (ghostdag node).mergesetReds,
      ∃ merged ∈ parent node :: mergeset node, (block merged).header.hash = hash
  blueScore_eq : ∀ node, node ≠ root → (block node).header.blueScore.toNat =
    (block (parent node)).header.blueScore.toNat + (ghostdag node).mergesetBlues.length
  scripts_fit : ∀ node, ∀ tx ∈ (block node).transactions,
    ∀ output ∈ tx.outputs, output.script.length < 2 ^ 64

def BlockDag.blocks {external : External} {params : Params} {Node : Type}
    (dag : BlockDag external params Node) (nodes : List Node) : List Block :=
  nodes.map dag.block

/-- What a node knows about the validity of a block. -/
inductive BlockStatus where
  | invalid
  | utxoValid
  | utxoPendingVerification
  | disqualifiedFromChain
  | headerOnly
  deriving Repr, DecidableEq

/-- The stores that hold the verified state of blocks. -/
structure UtxoStores (Node : Type) where
  statuses : Node → Option BlockStatus
  utxoDiffs : Node → Option UtxoDiff
  utxoMultisets : Node → Option MuHash

variable {Node : Type} [DecidableEq Node]

def UtxoStores.setStatus (stores : UtxoStores Node) (node : Node)
    (status : BlockStatus) : UtxoStores Node :=
  { stores with
    statuses := update stores.statuses node (some status) }

def UtxoStores.commitUtxoState (stores : UtxoStores Node) (node : Node)
    (mergesetDiff : UtxoDiff) (multiset : MuHash) : UtxoStores Node where
  statuses := update stores.statuses node (some .utxoValid)
  utxoDiffs := update stores.utxoDiffs node (some mergesetDiff)
  utxoMultisets := update stores.utxoMultisets node (some multiset)

end

variable {elementHash : List UInt8 → Hash} {external : External} {params : Params} {Node : Type}
  {dag : BlockDag external params Node}

section

def BlockDag.Known (dag : BlockDag external params Node) (tx : Transaction) : Prop :=
  ∃ node, tx ∈ (dag.block node).transactions

/-- The identifier hash does not collide on the transactions of the DAG. -/
def BlockDag.CollisionFree (dag : BlockDag external params Node) : Prop :=
  ∀ first second, dag.Known first → dag.Known second →
    first.id external.toHashers = second.id external.toHashers →
      writeTransaction first.encodingFlags first = writeTransaction second.encodingFlags second

theorem BlockDag.CollisionFree.list (collisionFree : dag.CollisionFree) {blocks : List Block}
    (ofDag : ∀ block ∈ blocks, ∃ node, dag.block node = block) :
    external.toHashers.CollisionFree (blocks.flatMap Block.transactions) := by
  have isKnown (tx : Transaction) (mem : tx ∈ blocks.flatMap Block.transactions) :
      dag.Known tx := by
    obtain ⟨block, listed, inBlock⟩ := mem_flatMap.mp mem
    obtain ⟨node, rfl⟩ := ofDag block listed
    exact ⟨node, inBlock⟩
  intro first inFirst second inSecond
  exact collisionFree first second (isKnown first inFirst) (isKnown second inSecond)

theorem BlockDag.shape_of_known {tx : Transaction} (isKnown : dag.Known tx) :
    OrdinaryShape params.transactionValidator tx ∨
      CoinbaseShape params.transactionValidator tx := by
  obtain ⟨node, mem⟩ := isKnown
  by_cases isRoot : node = dag.root
  · obtain ⟨payload, -, only, -⟩ := dag.genesis
    rw [isRoot, only] at mem
    cases mem_singleton.mp mem
    exact .inr (genesisCoinbase_shape _ payload)
  · obtain ⟨context, ok⟩ := dag.bodies node isRoot
    cases transactions : (dag.block node).transactions with
    | nil =>
      rw [transactions] at mem
      cases mem
    | cons coinbase others =>
      rw [transactions] at mem
      rcases mem_cons.mp mem with rfl | later
      · refine .inr (ok.shape.coinbase tx ?_).1
        rw [Block.coinbase?, transactions]
        rfl
      · refine .inl (ok.shape.ordinary tx ?_)
        rw [transactions]
        exact later

theorem BlockDag.readable (dag : BlockDag external params Node) (node : Node) :
    (dag.block node).Readable params := by
  by_cases isRoot : node = dag.root
  · obtain ⟨payload, data, only, parsed, -⟩ := dag.genesis
    refine ⟨genesisCoinbase payload, data, ?_, parsed⟩
    rw [isRoot, Block.coinbase?, only]
    rfl
  · obtain ⟨context, ok⟩ := dag.bodies node isRoot
    exact ok.readable

theorem BlockDag.CollisionFree.identifiable (collisionFree : dag.CollisionFree) :
    Identifiable external.toHashers params dag.Known where
  shape _ := BlockDag.shape_of_known
  scripts tx := fun ⟨node, mem⟩ => dag.scripts_fit node tx mem
  collisionFree := collisionFree

/-- A set of unspent outputs that verified blocks of the DAG lead to, the last
one of them this one. -/
def BlockDag.Reaches (dag : BlockDag external params Node) (node : Node) (utxo : UtxoSet) : Prop :=
  ∃ blocks verification, ChainRun external params blocks ⟨dag.block node, utxo, verification⟩ ∧
    ∀ block ∈ blocks, ∃ other, dag.block other = block

theorem BlockDag.reaches_root (dag : BlockDag external params Node) : dag.Reaches dag.root ∅ := by
  obtain ⟨payload, data, only, parsed, declared⟩ := dag.genesis
  rw [(blueScore_of_deserialized parsed).2] at declared
  have shape : dag.block dag.root = ⟨(dag.block dag.root).header, [genesisCoinbase payload]⟩ := by
    rw [← only]
  refine ⟨[dag.block dag.root], ⟨none, .inOrder, fun _ => false⟩, ?_, ?_⟩
  · rw [shape]
    exact .genesis _ payload _ declared
  · intro block mem
    exact ⟨dag.root, (mem_singleton.mp mem).symm⟩

variable {merged : List Node}

theorem BlockDag.bodies_of_merged (ne : dag.root ∉ merged) :
    ∀ block ∈ dag.blocks merged, ∃ context, BodyAccepted external params context block := by
  intro block mem
  obtain ⟨node, listed, rfl⟩ := List.mem_map.mp mem
  refine dag.bodies node ?_
  rintro rfl
  exact ne listed

variable {node : Node} {utxo : UtxoSet} (reaches : dag.Reaches node utxo)
  (fits : params.CountsFitWords) (collisionFree : dag.CollisionFree)

include reaches fits collisionFree

theorem BlockDag.Reaches.invariant (merged : List Node) :
    ∃ blocks verification history, ChainInvariant external.toHashers params blocks
        ⟨dag.block node, utxo, verification⟩ history ∧
      external.toHashers.CollisionFree
        ((dag.blocks merged ++ blocks).flatMap Block.transactions) := by
  obtain ⟨blocks, verification, run, ofDag⟩ := reaches
  have allOfDag : ∀ block ∈ dag.blocks merged ++ blocks, ∃ other, dag.block other = block := by
    intro block mem
    rcases mem_append.mp mem with isMerged | old
    · obtain ⟨other, -, eq⟩ := List.mem_map.mp isMerged
      exact ⟨other, eq⟩
    · exact ofDag block old
  obtain ⟨history, invariant⟩ := run.invariant fits (collisionFree.list ofDag)
  exact ⟨blocks, verification, history, invariant, collisionFree.list allOfDag⟩

variable {environment : ValidationEnvironment} {povDaaScore : UInt64}

theorem BlockDag.Reaches.calculation_aborts (ne : dag.root ∉ merged)
    (aborted : calculateUtxoState external.toHashers params environment
      utxo.lookup povDaaScore (dag.block node) (dag.blocks merged) = none) :
    ∃ other ∈ node :: merged, MergeAborts external.toHashers params povDaaScore
      (dag.block other) := by
  obtain ⟨blocks, verification, history, invariant, identified⟩ :=
    reaches.invariant fits collisionFree merged
  have readable : ∀ block ∈ (node :: merged).map dag.block, block.Readable params := by
    intro block mem
    obtain ⟨other, -, rfl⟩ := List.mem_map.mp mem
    exact dag.readable other
  obtain ⟨block, mem, aborts⟩ : ∃ block ∈ (node :: merged).map dag.block,
      MergeAborts external.toHashers params povDaaScore block :=
    invariant.ledger.calculateUtxoState_aborts fits identified (invariant.history_known _)
      (invariant.merged_shape (dag.bodies_of_merged ne))
      (invariant.merged_known _) readable invariant.below aborted
  obtain ⟨other, isMerged, rfl⟩ := List.mem_map.mp mem
  exact ⟨other, isMerged, aborts⟩

/-- What a calculation on top of a chain of the DAG does: its difference is
exact, creates from known transactions, and the commitment follows it. -/
structure CalculationExact (elementHash : List UInt8 → Hash)
    (dag : BlockDag external params Node) (base : UtxoSet)
    (environment : ValidationEnvironment) (povDaaScore : UInt64)
    (node : Node) (merged : List Node) (context : UtxoProcessingContext) :
    Prop where
  between : context.mergesetDiff.Between base (base.withDiff context.mergesetDiff)
  createdFrom : CreatedFrom external.toHashers dag.Known base →
    CreatedFrom external.toHashers dag.Known (base.withDiff context.mergesetDiff)
  commits : ∀ cuts, calculateUtxoStateWithMuhash elementHash external.toHashers params
      environment base.lookup povDaaScore (dag.block node)
      (dag.blocks merged) cuts (commitment elementHash base) =
    some (context, commitment elementHash (base.withDiff context.mergesetDiff))

theorem BlockDag.Reaches.calculation (ne : dag.root ∉ merged) {context : UtxoProcessingContext}
    (ran : calculateUtxoState external.toHashers params environment
      utxo.lookup povDaaScore (dag.block node) (dag.blocks merged) = some context) :
    CalculationExact elementHash dag utxo environment povDaaScore node merged context := by
  obtain ⟨blocks, verification, history, invariant, identified⟩ :=
    reaches.invariant fits collisionFree merged
  obtain ⟨coinbase, validated, first, isNew, own, moves⟩ :=
    invariant.calculateUtxoState fits identified (dag.bodies_of_merged ne) ran
  have isKnown : ∀ populated ∈ (validated :: context.accepted).map ValidatedTransaction.populated,
      dag.Known populated.tx := by
    intro populated mem
    obtain ⟨ok, listed, rfl⟩ := List.mem_map.mp mem
    rcases mem_cons.mp listed with rfl | isAccepted
    · rw [(newCoinbase_eq_some isNew).1]
      exact ⟨node, mem_of_mem_head? first⟩
    · obtain ⟨block, isMerged, inTail⟩ := own ok isAccepted
      rcases mem_cons.mp isMerged with rfl | inMergeset
      · exact ⟨node, mem_of_mem_tail inTail⟩
      · obtain ⟨other, -, rfl⟩ := List.mem_map.mp inMergeset
        exact ⟨other, mem_of_mem_tail inTail⟩
  exact {
    between := moves.between
    createdFrom := fun before => moves.createdFrom before isKnown
    commits := moves.calculated_commitment ran first isNew }

end

variable {stores : UtxoStores Node} {floor : Node}

/-- The unspent outputs of a block: the stored differences replayed along its
chain. -/
def BlockDag.utxoOf (dag : BlockDag external params Node)
    (stores : UtxoStores Node) (node : Node) : UtxoSet :=
  dag.replay (∅ : UtxoSet) (fun utxo lower => utxo.withDiff ((stores.utxoDiffs lower).getD .empty))
    node

/-- A difference with which the block was once verified on top of a set. -/
def BlockDag.Verified (dag : BlockDag external params Node)
    (base : UtxoSet) (node : Node) (diff : UtxoDiff) : Prop :=
  ∃ environment context, calculateUtxoState external.toHashers params environment base.lookup
      (dag.block node).header.daaScore (dag.block (dag.parent node))
      (dag.blocks (dag.mergeset node)) = some context ∧
    verifyExpectedUtxoState external.toHashers params context base.lookup
      (dag.block node) (dag.ghostdag node) (dag.nonDaa node) = .ok () ∧
    context.mergesetDiff = diff

open UtxoStores

/-- A block whose difference is stored. -/
def UtxoStores.Valid (stores : UtxoStores Node) (node : Node) : Prop :=
  (stores.utxoDiffs node).isSome = true

theorem UtxoStores.utxoDiffs_commit_of_ne [DecidableEq Node] {node other : Node} {diff : UtxoDiff}
    {multiset : MuHash} (ne : other ≠ node) :
    (stores.commitUtxoState node diff multiset).utxoDiffs other = stores.utxoDiffs other :=
  update_of_ne ne ..

theorem UtxoStores.valid_commit_iff [DecidableEq Node] {node other : Node} {diff : UtxoDiff}
    {multiset : MuHash} :
    (stores.commitUtxoState node diff multiset).Valid other ↔
      other = node ∨ stores.Valid other := by
  by_cases eq : other = node
  · simp [Valid, commitUtxoState, eq]
  · simp [Valid, commitUtxoState, eq]

/-- Stores that tell the history of their chains: the blocks that are UTXO
valid are those with a difference, every difference was verified on the
replayed set of the selected parent, and the multisets commit to the replayed
sets. Multisets are deleted below a final block, so they are expected from a
floor on only. -/
structure UtxoStores.Consistent (elementHash : List UInt8 → Hash)
    (dag : BlockDag external params Node) (floor : Node)
    (stores : UtxoStores Node) : Prop where
  status_known : ∀ node, (stores.statuses node).isSome = true
  valid_iff : ∀ node, stores.statuses node = some .utxoValid ↔ stores.Valid node
  root_diff : stores.utxoDiffs dag.root = some .empty
  parent_valid : ∀ node, node ≠ dag.root → stores.Valid node → stores.Valid (dag.parent node)
  verified : ∀ node diff, node ≠ dag.root → stores.utxoDiffs node = some diff →
    dag.Verified (dag.utxoOf stores (dag.parent node)) node diff
  multiset_eq : ∀ node, floor ∈ dag.chain node → stores.Valid node → stores.utxoMultisets node =
    some (commitment elementHash (dag.utxoOf stores node))

variable {node : Node} {diff : UtxoDiff}

theorem BlockDag.utxoOf_of_ne (ne : node ≠ dag.root)
    (kept : stores.utxoDiffs node = some diff) :
    dag.utxoOf stores node = (dag.utxoOf stores (dag.parent node)).withDiff diff := by
  rw [utxoOf, dag.replay_of_ne ne, kept]
  rfl

theorem BlockDag.utxoOf_congr {other : UtxoStores Node}
    (agree : ∀ lower ∈ dag.chain node, stores.utxoDiffs lower = other.utxoDiffs lower) :
    dag.utxoOf stores node = dag.utxoOf other node :=
  dag.replay_congr fun lower mem utxo => by rw [agree lower mem]

theorem BlockDag.Reaches.extend {base : UtxoSet} (reaches : dag.Reaches (dag.parent node) base)
    (ne : node ≠ dag.root) (verified : dag.Verified base node diff) :
    dag.Reaches node (base.withDiff diff) := by
  obtain ⟨blocks, verification, run, ofDag⟩ := reaches
  obtain ⟨environment, context, ran, passed, rfl⟩ := verified
  have joins : JoinsChain external params ⟨dag.block (dag.parent node), base, verification⟩
      ⟨dag.block node, dag.ghostdag node, dag.blocks (dag.mergeset node),
        dag.nonDaa node, environment⟩
      context
      ⟨dag.block node, base.withDiff context.mergesetDiff, context.environment⟩ := {
    bodies := by
      intro block mem
      rcases mem_cons.mp mem with rfl | isMerged
      · exact dag.bodies node ne
      · exact dag.bodies_of_merged (dag.root_not_merged node) block isMerged
    selectedParent_blue := dag.selectedParent_blue node ne
    blueScore_eq := dag.blueScore_eq node ne
    extended := by
      simp only [ChainState.extend, ran, passed, bind_eq_bind, bind_some]
      rfl }
  refine ⟨_, _, .join run joins, ?_⟩
  intro block mem
  rcases mem_append.mp mem with new | old
  · rcases mem_cons.mp new with rfl | isMerged
    · exact ⟨node, rfl⟩
    · obtain ⟨other, -, eq⟩ := List.mem_map.mp isMerged
      exact ⟨other, eq⟩
  · exact ofDag block old

variable (consistent : stores.Consistent elementHash dag floor)
include consistent

theorem UtxoStores.Consistent.utxoOf_root : dag.utxoOf stores dag.root = ∅ := by
  rw [BlockDag.utxoOf, dag.replay_root, consistent.root_diff]
  rfl

/-- Everything below a valid block is valid. -/
theorem UtxoStores.Consistent.valid_of_mem_chain {lower : Node} (valid : stores.Valid node)
    (mem : lower ∈ dag.chain node) : stores.Valid lower := by
  induction node, mem using Tree.climb with
  | start => exact valid
  | upwards node ne _ _ ih => exact ih (consistent.parent_valid node ne valid)

theorem UtxoStores.Consistent.reaches (valid : stores.Valid node) :
    dag.Reaches node (dag.utxoOf stores node) := by
  induction node using dag.ascend with
  | atRoot =>
    rw [consistent.utxoOf_root]
    exact dag.reaches_root
  | upwards node ne ih =>
    obtain ⟨diff, kept⟩ := isSome_iff_exists.mp valid
    rw [BlockDag.utxoOf_of_ne ne kept]
    exact (ih (consistent.parent_valid node ne valid)).extend ne
      (consistent.verified node diff ne kept)

section

variable (fits : params.CountsFitWords) (collisionFree : dag.CollisionFree)
include fits collisionFree

variable {node : Node} {diff : UtxoDiff}

/-- A verified difference is exact and creates from known transactions. -/
theorem UtxoStores.Consistent.verified_exact (parentValid : stores.Valid (dag.parent node))
    (verified : dag.Verified (dag.utxoOf stores (dag.parent node)) node diff) :
    diff.Between (dag.utxoOf stores (dag.parent node))
        ((dag.utxoOf stores (dag.parent node)).withDiff diff) ∧
      (CreatedFrom external.toHashers dag.Known (dag.utxoOf stores (dag.parent node)) →
        CreatedFrom external.toHashers dag.Known
          ((dag.utxoOf stores (dag.parent node)).withDiff diff)) := by
  obtain ⟨environment, context, ran, -, rfl⟩ := verified
  have exactly : CalculationExact elementHash dag _ environment _ _ _ context :=
    (consistent.reaches parentValid).calculation fits collisionFree (dag.root_not_merged node) ran
  exact ⟨exactly.between, exactly.createdFrom⟩

theorem UtxoStores.Consistent.createdFrom (valid : stores.Valid node) :
    CreatedFrom external.toHashers dag.Known (dag.utxoOf stores node) := by
  induction node using dag.ascend with
  | atRoot =>
    rw [consistent.utxoOf_root]
    exact createdFrom_empty
  | upwards node ne ih =>
    obtain ⟨diff, kept⟩ := isSome_iff_exists.mp valid
    have parentValid := consistent.parent_valid node ne valid
    rw [BlockDag.utxoOf_of_ne ne kept]
    exact (consistent.verified_exact fits collisionFree parentValid
      (consistent.verified node diff ne kept)).2 (ih parentValid)

theorem UtxoStores.Consistent.stored_between (ne : node ≠ dag.root)
    (kept : stores.utxoDiffs node = some diff) :
    diff.Between (dag.utxoOf stores (dag.parent node)) (dag.utxoOf stores node) := by
  have valid : stores.Valid node := isSome_of_eq_some kept
  rw [BlockDag.utxoOf_of_ne ne kept]
  exact (consistent.verified_exact fits collisionFree (consistent.parent_valid node ne valid)
    (consistent.verified node diff ne kept)).1

end

variable [DecidableEq Node]

theorem UtxoStores.Consistent.setStatus (notValid : stores.utxoDiffs node = none) :
    (stores.setStatus node .disqualifiedFromChain).Consistent elementHash dag floor := by
  refine {
    status_known := fun other => ?_
    valid_iff := fun other => ?_
    root_diff := consistent.root_diff
    parent_valid := consistent.parent_valid
    verified := consistent.verified
    multiset_eq := consistent.multiset_eq }
  · by_cases eq : other = node
    · simp [UtxoStores.setStatus, eq]
    · simpa [UtxoStores.setStatus, eq] using consistent.status_known other
  · by_cases eq : other = node
    · simp [UtxoStores.setStatus, Valid, eq, notValid]
    · simpa [UtxoStores.setStatus, Valid, eq] using consistent.valid_iff other

/-- A new difference does not change the sets that were there. -/
theorem UtxoStores.Consistent.utxoOf_commit (new : stores.utxoDiffs node = none) (diff : UtxoDiff)
    (multiset : MuHash) {other : Node} (valid : stores.Valid other) :
    dag.utxoOf (stores.commitUtxoState node diff multiset) other = dag.utxoOf stores other := by
  refine BlockDag.utxoOf_congr fun lower mem => ?_
  have isValid := consistent.valid_of_mem_chain valid mem
  have ne : lower ≠ node := by
    rintro rfl
    rw [Valid, new] at isValid
    cases isValid
  exact update_of_ne ne _ _

theorem UtxoStores.Consistent.commit (notRoot : node ≠ dag.root)
    (new : stores.utxoDiffs node = none) (parentValid : stores.Valid (dag.parent node))
    (verified : dag.Verified (dag.utxoOf stores (dag.parent node)) node diff) {multiset : MuHash}
    (commits : multiset = commitment elementHash
      ((dag.utxoOf stores (dag.parent node)).withDiff diff)) :
    (stores.commitUtxoState node diff multiset).Consistent elementHash dag floor ∧
      dag.utxoOf (stores.commitUtxoState node diff multiset) node =
        (dag.utxoOf stores (dag.parent node)).withDiff diff := by
  have kept {other : Node} (valid : stores.Valid other) :=
    consistent.utxoOf_commit new diff multiset valid
  have own : (stores.commitUtxoState node diff multiset).utxoDiffs node = some diff :=
    update_self _ _ _
  have grown : dag.utxoOf (stores.commitUtxoState node diff multiset) node =
      (dag.utxoOf stores (dag.parent node)).withDiff diff := by
    rw [BlockDag.utxoOf_of_ne notRoot own, kept parentValid]
  have was {other : Node} (ne : other ≠ node)
      (valid : (stores.commitUtxoState node diff multiset).Valid other) : stores.Valid other :=
    (valid_commit_iff.mp valid).resolve_left ne
  refine ⟨{
    status_known := fun other => ?_
    valid_iff := fun other => ?_
    root_diff := (utxoDiffs_commit_of_ne (Ne.symm notRoot)).trans consistent.root_diff
    parent_valid := fun other otherNotRoot valid => ?_
    verified := fun other otherDiff otherNotRoot stored => ?_
    multiset_eq := fun other aboveFloor valid => ?_ }, grown⟩
  · by_cases eq : other = node
    · simp [commitUtxoState, eq]
    · simpa [commitUtxoState, eq] using consistent.status_known other
  · by_cases eq : other = node
    · simp [commitUtxoState, Valid, eq]
    · simpa [commitUtxoState, Valid, eq] using consistent.valid_iff other
  · refine valid_commit_iff.mpr (.inr ?_)
    by_cases eq : other = node
    · exact eq ▸ parentValid
    · exact consistent.parent_valid other otherNotRoot (was eq valid)
  · by_cases eq : other = node
    · subst eq
      cases own.symm.trans stored
      rwa [kept parentValid]
    · rw [utxoDiffs_commit_of_ne eq] at stored
      rw [kept (consistent.parent_valid other otherNotRoot (isSome_of_eq_some stored))]
      exact consistent.verified other otherDiff otherNotRoot stored
  · by_cases eq : other = node
    · subst eq
      rw [grown, ← commits]
      exact update_self _ _ _
    · rw [kept (was eq valid)]
      exact (update_of_ne eq _ _).trans (consistent.multiset_eq other aboveFloor (was eq valid))

end Sophis
