import Sophis.CompactFilter
import Sophis.QuietDag

namespace Sophis

open ByteCodec Function List Option SelectedChainStore

/-!
# The chain of filter headers

`index_filters_in_block` of `virtual_processor/processor.rs` stores a filter and
a filter header with every chain block whose state is committed. The header
before it is looked up in the selected chain, which the same resolve moves only
later, when it commits virtual.
-/

/-- An encoded filter and its hash. -/
structure BlockFilter where
  filterBytes : List UInt8
  filterHash : FixedBytes 32
  deriving Repr, DecidableEq

/-- A link of the chain of filters. -/
structure BlockFilterHeader where
  prevHeader : FixedBytes 32
  filterHash : FixedBytes 32
  filterHeader : FixedBytes 32
  deriving Repr, DecidableEq

/-- Filters and their headers by block. -/
structure BlockFiltersStore where
  filters : Hash → Option BlockFilter
  headers : Hash → Option BlockFilterHeader

namespace BlockFiltersStore

def empty : BlockFiltersStore := ⟨fun _ => none, fun _ => none⟩

def indexFilter (store : BlockFiltersStore) (blockHash : Hash)
    (filter : BlockFilter) (header : BlockFilterHeader) :
    BlockFiltersStore where
  filters := update store.filters blockHash (some filter)
  headers := update store.headers blockHash (some header)

end BlockFiltersStore

/-- The positions of the accepted transactions of a merged block. -/
structure MergesetBlockAcceptance (Node : Type) where
  block : Node
  acceptedTransactions : List Nat
  deriving Repr, DecidableEq

/-- The transactions accepted per merged block. -/
abbrev AcceptanceData (Node : Type) := List (MergesetBlockAcceptance Node)

/-- The header of the chain block before this one, if this one is already on the
selected chain. -/
def previousFilterHeader (selectedChain : SelectedChainStore)
    (store : BlockFiltersStore) (chainBlockHash : Hash) : FixedBytes 32 :=
  match selectedChain.getByHash chainBlockHash with
  | none => .replicate 32 0
  | some index =>
    if 0 < index then
      match selectedChain.getByIndex (index - 1) with
      | none => .replicate 32 0
      | some previous =>
        ((store.headers previous).map BlockFilterHeader.filterHeader).getD (.replicate 32 0)
    else
      .replicate 32 0

variable {Node : Type}

def outputScripts (transactions : Node → Option (List Transaction))
    (acceptance : AcceptanceData Node) : List (List UInt8) :=
  acceptance.flatMap fun merged =>
    match transactions merged.block with
    | none => []
    | some txs =>
      (merged.acceptedTransactions.filterMap fun index =>
        txs[index]?).flatMap fun tx => tx.outputs.map fun output => output.script

variable (hashers : Hashers)

def indexFiltersInBlock (transactions : Node → Option (List Transaction))
    (selectedChain : SelectedChainStore) (store : BlockFiltersStore)
    (chainBlockHash : Hash) (acceptance : AcceptanceData Node)
    (spentScripts : List (List UInt8)) : Option BlockFiltersStore := do
  let filterBytes ← buildBasicFilter hashers chainBlockHash
    (outputScripts transactions acceptance ++ spentScripts)
  let hash := filterHash hashers filterBytes
  let prevHeader := previousFilterHeader selectedChain store chainBlockHash
  return store.indexFilter chainBlockHash ⟨filterBytes, hash⟩
    ⟨prevHeader, hash, buildFilterHeader hashers prevHeader hash⟩

section

variable {external : External} {params : Params} {Node : Type} (dag : BlockDag external params Node)

def BlockDag.hash (node : Node) : Hash := (dag.block node).header.hash

def BlockDag.transactions (node : Node) : Option (List Transaction) :=
  some (dag.block node).transactions

/-- The acceptance data of a chain block: what its calculation accepted from the
selected parent, the coinbase before it, and from the mergeset. -/
def BlockDag.acceptanceData (node : Node) (context : UtxoProcessingContext) : AcceptanceData Node :=
  ((dag.parent node :: dag.mergeset node).zip context.acceptance).zipIdx.map
    fun ((merged, accepted), position) =>
      ⟨merged, (if position = 0 then [0] else []) ++ accepted.transactions.map Prod.snd⟩

def UtxoDiff.spentScripts (diff : UtxoDiff) : List (List UInt8) :=
  diff.remove.entries.map fun removed => removed.2.scriptPublicKey.script

variable [DecidableEq Node]

/-- The blocks that leave and join the selected chain with a new sink. -/
def BlockDag.calculateChainPath (source target : Node) : ChainPath where
  removed := ((dag.chain source).takeWhile fun node => node ∉ dag.chain target).map dag.hash
  added := (((dag.chain target).takeWhile fun node => node ∉ dag.chain source).reverse).map dag.hash

/-- A processor together with the filter store. -/
structure IndexedState (Node : Type) where
  processor : ProcessorState Node
  selectedChain : SelectedChainStore
  filters : BlockFiltersStore

/-- The indexing that goes with the commit of a chain block. -/
def commitFilters (stores : UtxoStores Node)
    (selectedChain : SelectedChainStore) (filters : BlockFiltersStore)
    (commit : Node × AcceptanceData Node) : Option BlockFiltersStore :=
  indexFiltersInBlock external.toHashers dag.transactions selectedChain filters (dag.hash commit.1)
    commit.2 ((stores.utxoDiffs commit.1).getD .empty).spentScripts

variable (elementHash : List UInt8 → Hash) (relations : DagRelations Node)

/-- One resolve: it commits every chain block that it verifies, in whatever
order, and moves the selected chain to the new sink afterwards. -/
structure ResolvesIndexed (state : IndexedState Node) (commits : List (Node × AcceptanceData Node))
    (next : IndexedState Node) : Prop where
  resolved : ∃ resolution, resolveVirtual elementHash dag relations state.processor resolution =
    .ok next.processor
  once : (commits.map Prod.fst).Nodup
  verified : ∀ node, node ∈ commits.map Prod.fst ↔ ¬ state.processor.stores.Valid node ∧
    next.processor.stores.Valid node
  accepted : ∀ commit ∈ commits, ∃ environment base context,
    calculateUtxoState external.toHashers params environment base
        (dag.block commit.1).header.daaScore (dag.block (dag.parent commit.1))
        (dag.blocks (dag.mergeset commit.1)) = some context ∧
      next.processor.stores.utxoDiffs commit.1 = some context.mergesetDiff ∧
      commit.2 = dag.acceptanceData commit.1 context
  indexed : commits.foldlM (commitFilters dag next.processor.stores state.selectedChain)
    state.filters = some next.filters
  selected : state.selectedChain.applyChanges
    (dag.calculateChainPath state.processor.virtualState.sink
      next.processor.virtualState.sink) = some next.selectedChain

/-- Sequences of resolves from the genesis on. The genesis is committed before
there is a selected chain. -/
inductive IndexedRun : IndexedState Node → Prop where
  | genesis {filters : BlockFiltersStore} :
    indexFiltersInBlock external.toHashers dag.transactions ⟨fun _ => none, fun _ => none, none⟩
      .empty (dag.hash dag.root) [] [] = some filters →
    IndexedRun ⟨dag.genesisState, .initWithPruningPoint (dag.hash dag.root), filters⟩
  | resolve {state next : IndexedState Node}
    {commits : List (Node × AcceptanceData Node)} :
    IndexedRun state →
    ResolvesIndexed dag elementHash relations state commits next →
    IndexedRun next

/-- What a light client checks of the header of a block: it is made from the one
stored for the selected parent. The genesis has a stored header too. -/
def BlockDag.LinksFilterHeader (filters : BlockFiltersStore) (node : Node) : Prop :=
  ∃ header previous, filters.headers (dag.hash node) = some header ∧
    filters.headers (dag.hash (dag.parent node)) = some previous ∧
    header.prevHeader = previous.filterHeader ∧
    header.filterHeader = buildFilterHeader external.toHashers header.prevHeader header.filterHash

end

section

variable {hashers : Hashers} {external : External} {params : Params}
  {Node : Type} {dag : BlockDag external params Node}

/-- A stored header that starts a chain of headers. -/
def BlockFiltersStore.StartsAt (store : BlockFiltersStore)
    (hashers : Hashers) (hash : Hash) : Prop :=
  ∃ header, store.headers hash = some header ∧ header.prevHeader = .replicate 32 0 ∧
    header.filterHeader = buildFilterHeader hashers header.prevHeader header.filterHash

variable {selectedChain : SelectedChainStore} {hash : Hash}

variable {store next : BlockFiltersStore}

theorem BlockFiltersStore.StartsAt.indexFiltersInBlock
    {transactions : Node → Option (List Transaction)} {blockHash : Hash}
    {acceptance : AcceptanceData Node} {spentScripts : List (List UInt8)}
    (notSelected : selectedChain.getByHash blockHash = none)
    (indexed : Sophis.indexFiltersInBlock hashers transactions selectedChain
      store blockHash acceptance spentScripts = some next)
    (covered : hash = blockHash ∨ store.StartsAt hashers hash) : next.StartsAt hashers hash := by
  rw [Sophis.indexFiltersInBlock, bind_eq_bind, bind_eq_some_iff] at indexed
  obtain ⟨filterBytes, -, eq⟩ := indexed
  cases eq
  by_cases isBlock : hash = blockHash
  · subst isBlock
    exact ⟨_, update_self _ _ _, by rw [previousFilterHeader, notSelected], rfl⟩
  · obtain ⟨header, kept, starts⟩ := covered.resolve_left isBlock
    exact ⟨header, (update_of_ne isBlock _ _).trans kept, starts⟩

theorem BlockFiltersStore.StartsAt.commitFilters {stores : UtxoStores Node}
    {commits : List (Node × AcceptanceData Node)}
    (notSelected : ∀ node ∈ commits.map Prod.fst, selectedChain.getByHash (dag.hash node) = none)
    (indexed : commits.foldlM (Sophis.commitFilters dag stores selectedChain) store = some next)
    {node : Node}
    (covered : node ∈ commits.map Prod.fst ∨ store.StartsAt external.toHashers (dag.hash node)) :
    next.StartsAt external.toHashers (dag.hash node) := by
  induction commits generalizing store with
  | nil =>
    cases indexed
    exact covered.resolve_left not_mem_nil
  | cons commit rest ih =>
    rw [foldlM_cons, bind_eq_bind, bind_eq_some_iff] at indexed
    obtain ⟨mid, once, others⟩ := indexed
    rw [map_cons, forall_mem_cons] at notSelected
    refine ih notSelected.2 others ?_
    rw [map_cons, mem_cons, or_right_comm] at covered
    refine covered.symm.imp_right fun prior => ?_
    exact .indexFiltersInBlock notSelected.1 once (prior.imp_left (congrArg dag.hash))

variable [DecidableEq Node] {elementHash : List UInt8 → Hash} {relations : DagRelations Node}

/-- What every sequence of resolves keeps: the selected chain has committed
blocks only, and the header of every committed block starts a chain. -/
structure IndexedState.Restarting (dag : BlockDag external params Node)
    (state : IndexedState Node) : Prop where
  committed : state.processor.Committed dag
  selected_valid : ∀ hash, (state.selectedChain.getByHash hash).isSome = true →
    ∃ node, state.processor.stores.Valid node ∧ dag.hash node = hash
  starts : ∀ node, state.processor.stores.Valid node →
    state.filters.StartsAt external.toHashers (dag.hash node)

theorem IndexedState.Restarting.resolve (nodup : Function.Injective dag.hash)
    {state next : IndexedState Node} (restarting : state.Restarting dag)
    {commits : List (Node × AcceptanceData Node)}
    (resolves : ResolvesIndexed dag elementHash relations state commits next) :
    next.Restarting dag := by
  obtain ⟨resolution, resolved⟩ := resolves.resolved
  obtain ⟨committed, kept⟩ := restarting.committed.resolveVirtual resolved
  have notSelected : ∀ node ∈ commits.map Prod.fst,
      state.selectedChain.getByHash (dag.hash node) = none := by
    intro node mem
    by_contra picked
    obtain ⟨other, valid, eq⟩ := restarting.selected_valid _ (isSome_iff_ne_none.mpr picked)
    exact ((resolves.verified node).mp mem).1 (nodup eq ▸ valid)
  refine ⟨committed, ?_, ?_⟩
  · intro hash picked
    rcases (isSome_getByHash_applyChanges_iff resolves.selected).mp picked
      with ⟨-, before⟩ | added
    · obtain ⟨node, valid, eq⟩ := restarting.selected_valid hash before
      exact ⟨node, kept node valid, eq⟩
    · obtain ⟨node, isNew, eq⟩ := List.mem_map.mp added
      have below := ( takeWhile_prefix _).subset (mem_reverse.mp isNew)
      exact ⟨node, committed.closed.chain_valid committed.sink_valid below, eq⟩
  · intro node valid
    refine .commitFilters notSelected resolves.indexed ?_
    by_cases before : state.processor.stores.Valid node
    · exact .inr (restarting.starts node before)
    · exact .inl ((resolves.verified node).mpr ⟨before, valid⟩)

theorem IndexedRun.restarting (nodup : Function.Injective dag.hash) {state : IndexedState Node}
    (run : IndexedRun dag elementHash relations state) : state.Restarting dag := by
  induction run with
  | genesis indexed =>
    have rootOnly {node : Node} (valid : dag.genesisState.stores.Valid node) : node = dag.root :=
      BlockDag.genesisState_valid_iff.mp valid
    have rootValid : dag.genesisState.stores.Valid dag.root :=
      BlockDag.genesisState_valid_iff.mpr rfl
    refine ⟨⟨⟨rootValid, ?_⟩, rootValid⟩, ?_, ?_⟩
    · intro node notRoot valid
      exact absurd (rootOnly valid) notRoot
    · intro hash picked
      refine ⟨dag.root, rootValid, ?_⟩
      by_contra ne
      simp [getByHash, initWithPruningPoint, Ne.symm ne] at picked
    · intro node valid
      exact .indexFiltersInBlock rfl indexed (.inl (congrArg dag.hash (rootOnly valid)))
  | resolve _ resolves ih => exact ih.resolve nodup resolves

/-- The header of a committed block is linked to that of its selected parent
only where that happens to be zero: when a block is committed it is not yet on the
selected chain, so its header always starts from zeros. -/
theorem filterHeaders_linked_iff (elementHash : List UInt8 → Hash) (external : External)
    (params : Params) (Node : Type) [DecidableEq Node] (dag : BlockDag external params Node)
    (distinct : Function.Injective dag.hash) (relations : DagRelations Node)
    (state : IndexedState Node) (run : IndexedRun dag elementHash relations state) (node : Node)
    (committed : state.processor.stores.Valid node) (notGenesis : node ≠ dag.root) :
    (∃ previous, state.filters.headers (dag.hash (dag.parent node)) = some previous) ∧
      (dag.LinksFilterHeader state.filters node ↔
        ∀ previous, state.filters.headers (dag.hash (dag.parent node)) = some previous →
          previous.filterHeader = .replicate 32 0) := by
  have restarting := run.restarting distinct
  obtain ⟨header, kept, starts, chained⟩ := restarting.starts node committed
  have below := restarting.committed.closed.parent_valid node notGenesis committed
  obtain ⟨previous, keptBelow, -, -⟩ := restarting.starts _ below
  refine ⟨⟨previous, keptBelow⟩, ?_, fun zero => ?_⟩
  · rintro ⟨_, _, alsoStored, alsoBelow, linked, -⟩ another storedBelow
    cases kept.symm.trans alsoStored
    cases alsoBelow.symm.trans storedBelow
    exact linked ▸ starts
  · exact ⟨header, previous, kept, keptBelow, starts.trans (zero previous keptBelow).symm, chained⟩

end

/-! Two blocks on top of the genesis, committed in one resolve. -/

def stackTree : QuietTree (Fin 3) where
  root := 0
  parent node := ⟨node - 1, by omega⟩
  height := Fin.val
  height_root := rfl
  height_parent := by decide
  hash node := .ofPrefix 32 [UInt8.ofNat node]
  hash_injective := by decide
  height_lt node := node.isLt.trans (by decide)

def stackDag : BlockDag quietExternal quietParams (Fin 3) := quietDag stackTree

def stackRelations : DagRelations (Fin 3) where
  parents node := if node = 0 then [] else [stackTree.parent node]
  isDagAncestorOf lower node := lower ≤ node
  blueWork := Fin.val
  filteringBlueWork _ := 0
  rank := Fin.val
  rank_parent := by decide

theorem stackDag_hash_injective : Function.Injective stackDag.hash := stackTree.hash_injective

theorem stackDag_commitFilters {stores : UtxoStores (Fin 3)} {node : Fin 3}
    (kept : stores.utxoDiffs node = some .empty) (selectedChain : SelectedChainStore)
    (filters : BlockFiltersStore) :
    ∃ next, commitFilters stackDag stores selectedChain filters (node, stackDag.acceptanceData node
      (quietContext stackTree (stackTree.parent node))) = some next := by
  rw [commitFilters, kept]
  exact ⟨_, rfl⟩

theorem stackDag_run : ∃ state, IndexedRun stackDag fingerprint stackRelations state ∧
    ∀ node, state.processor.stores.Valid node := by
  have genesisOnly {node : Fin 3} : stackDag.genesisState.stores.Valid node ↔ node = 0 :=
    BlockDag.genesisState_valid_iff
  have popped : popMax (stackDag.sortable stackRelations)
      (([2] : List (Fin 3)).filter (stackRelations.isDagAncestorOf 0)) = some (2, []) := rfl
  obtain ⟨processor, extended, resolved, quiet, sink, grown, stores⟩ :=
    (quietDag_genesisState stackTree).resolveVirtual fingerprint popped (by decide) (by
      intro node _ valid
      rw [genesisOnly.mp valid]
      rfl)
  have valid (node : Fin 3) : processor.stores.Valid node := by
    rw [stores]
    refine (grown.valid_iff node).mpr (.inr ?_)
    revert node
    decide
  have kept (node : Fin 3) : processor.stores.utxoDiffs node = some .empty := by
    obtain ⟨diff, isDiff⟩ := isSome_iff_exists.mp (valid node)
    cases quiet.stores.diff_empty node diff isDiff
    exact isDiff
  obtain ⟨genesisFilters, genesisIndexed⟩ : ∃ filters,
      indexFiltersInBlock quietExternal.toHashers stackDag.transactions
        ⟨fun _ => none, fun _ => none, none⟩ .empty
        (stackDag.hash stackDag.root) [] [] = some filters :=
    ⟨_, rfl⟩
  let genesisChain := initWithPruningPoint (stackDag.hash stackDag.root)
  obtain ⟨mid, indexedFirst⟩ := stackDag_commitFilters (kept 1) genesisChain genesisFilters
  obtain ⟨filters, indexedSecond⟩ := stackDag_commitFilters (kept 2) genesisChain mid
  obtain ⟨selectedChain, picked⟩ : ∃ chain, genesisChain.applyChanges
      (stackDag.calculateChainPath 0 2) = some chain :=
    isSome_iff_exists.mp (by decide +kernel)
  have resolves : ResolvesIndexed stackDag fingerprint stackRelations
      ⟨stackDag.genesisState, genesisChain, genesisFilters⟩
      ([1, 2].map fun node => (node, stackDag.acceptanceData node
        (quietContext stackTree (stackTree.parent node))))
      ⟨processor, selectedChain, filters⟩ := {
    resolved := ⟨_, resolved⟩
    once := by decide
    verified := by
      intro node
      rw [genesisOnly]
      simp only [valid, and_true]
      revert node
      decide
    accepted := by
      intro commit mem
      obtain ⟨node, -, rfl⟩ := List.mem_map.mp mem
      exact ⟨_, _, _, calculateUtxoState_of_withMuhash
        (quietDag_calculated stackTree fingerprint (fun _ => none) _
          (stackTree.parent node) MuHash.new), kept node, rfl⟩
    indexed := by
      simp only [map_cons, map_nil, foldlM_cons, indexedFirst, indexedSecond, foldlM_nil,
        bind_eq_bind, bind_some]
      rfl
    selected := by
      rw [sink]
      exact picked }
  exact ⟨_, .resolve (.genesis genesisIndexed) resolves, valid⟩

/-- In any run the headers start from something else than zeros. -/
theorem stackDag_header_ne_zero {state : IndexedState (Fin 3)} {node : Fin 3}
    {header : BlockFilterHeader} (run : IndexedRun stackDag fingerprint stackRelations state)
    (valid : state.processor.stores.Valid node)
    (stored : state.filters.headers (stackDag.hash node) = some header) :
    header.filterHeader ≠ .replicate 32 0 := by
  obtain ⟨_, alsoStored, -, chained⟩ :=
    (run.restarting stackDag_hash_injective).starts node valid
  cases stored.symm.trans alsoStored
  intro zero
  rw [chained] at zero
  cases congrArg (fun header => header.bytes.head?) zero

theorem stackDag_firstHeader_unlinked :
    ∃ state, IndexedRun stackDag fingerprint stackRelations state ∧
      ¬ stackDag.LinksFilterHeader state.filters 1 := by
  obtain ⟨state, run, valid⟩ := stackDag_run
  obtain ⟨⟨genesis, stored⟩, linked_iff⟩ := filterHeaders_linked_iff fingerprint quietExternal
    quietParams (Fin 3) stackDag stackDag_hash_injective stackRelations state run 1 (valid 1)
    (by decide)
  refine ⟨state, run, fun linked => ?_⟩
  exact stackDag_header_ne_zero run (valid 0) stored (linked_iff.mp linked genesis stored)

/-- The second block is committed with a header that starts from zeros, and
not from the header of the first block. -/
theorem stackDag_secondHeader_unlinked :
    ∃ state, IndexedRun stackDag fingerprint stackRelations state ∧
      state.processor.stores.Valid 2 ∧ stackDag.parent 2 = 1 ∧
      ∃ first second, state.filters.headers (stackDag.hash 1) = some first ∧
        state.filters.headers (stackDag.hash 2) = some second ∧
        second.prevHeader = .replicate 32 0 ∧
        first.filterHeader ≠ .replicate 32 0 ∧
        ¬ stackDag.LinksFilterHeader state.filters 2 := by
  obtain ⟨state, run, valid⟩ := stackDag_run
  have restarting := run.restarting stackDag_hash_injective
  obtain ⟨first, storedFirst, -, -⟩ := restarting.starts 1 (valid 1)
  obtain ⟨second, storedSecond, starts, -⟩ := restarting.starts 2 (valid 2)
  have different := stackDag_header_ne_zero run (valid 1) storedFirst
  refine ⟨state, run, valid 2, rfl, first, second, storedFirst, storedSecond, starts, different, ?_⟩
  rintro ⟨_, previous, alsoStored, storedPrevious, linked, -⟩
  cases storedSecond.symm.trans alsoStored
  cases storedFirst.symm.trans storedPrevious
  exact different (linked ▸ starts)

end Sophis
