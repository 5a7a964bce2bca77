import Sophis.Coloring
import Sophis.UtxoValidity
import Sophis.VirtualResolution

namespace Sophis

open ExceptLoop List ParentDag ParentTree

/-!
# The search finds the best sink

The heap of the search is an antichain that covers every block that could still
be the sink. Blue work grows along edges, so the first candidate that is valid
is the largest valid block in the past of the tips.
-/

variable {external : External} {params : Params} {Node : Type}

section

def DagRelations.toDag (relations : DagRelations Node) : Dag Node where
  parents := relations.parents
  rank := relations.rank
  rank_parent := relations.rank_parent

/-- What holds of the relations of a DAG of accepted blocks: parents are
antichains with the selected parent among them, reachability is exact, blue work
grows along edges, and the stores are keyed by hashes. -/
structure DagRelations.Sound (relations : DagRelations Node)
    (dag : BlockDag external params Node) : Prop where
  selected_parent : ∀ node, node ≠ dag.root → dag.parent node ∈ relations.parents node
  antichain : ∀ node, relations.toDag.Antichain (relations.parents node)
  exact : ∀ first second, relations.isDagAncestorOf first second = true ↔
    relations.toDag.Below first second
  blueWork_lt : ∀ node, ∀ parent ∈ relations.parents node,
    relations.blueWork parent < relations.blueWork node
  hash_injective : ∀ first second, (dag.block first).header.hash = (dag.block second).header.hash →
    first = second

variable {relations : DagRelations Node} {dag : BlockDag external params Node} {lower node : Node}
  (sound : relations.Sound dag)
include sound

theorem DagRelations.Sound.below_of_mem_chain (mem : lower ∈ dag.chain node) :
    relations.toDag.Below lower node := by
  induction node, mem using Tree.climb with
  | start => exact .refl _
  | upwards node ne _ _ ih => exact .step (sound.selected_parent node ne) ih

theorem DagRelations.Sound.sortable_lt (below : relations.toDag.Below lower node)
    (differs : lower ≠ node) : dag.sortable relations lower < dag.sortable relations node := by
  apply SortableBlock.lt_of_blueWork_lt
  refine below.lt_of_monotone relations.blueWork
    (fun node _ parent isParent => ⟨trivial, ?_⟩) trivial differs
  exact sound.blueWork_lt node parent isParent

theorem DagRelations.Sound.lt_of_not_lt {first second : Node}
    (notBelow : ¬ dag.sortable relations second < dag.sortable relations first)
    (differs : first ≠ second) : dag.sortable relations first < dag.sortable relations second :=
  SortableBlock.lt_of_not_lt notBelow fun same => differs (sound.hash_injective first second same)

end

section

variable {network : HeaderDag} {store : GhostdagStore}

/-- The relations between the blocks that a run of GHOSTDAG knows. -/
def HeaderDag.Stored.relations (stored : network.Stored store) (service : Hash → Hash → Bool)
    (filteringBlueWork : Hash → Nat) : DagRelations { hash // hash ∈ store.blocks } where
  parents node := (network.parents node).attachWith (· ∈ store.blocks)
    fun _ edge => stored.known_parent node.2 edge
  isDagAncestorOf first second := service first second
  blueWork node := store.blueWork node
  filteringBlueWork node := filteringBlueWork node
  rank node := network.rank node
  rank_parent node parent edge := network.rank_parent node parent ((mem_attachWith _ _).mp edge)

variable {service : Hash → Hash → Bool} {filteringBlueWork : Hash → Nat}

theorem HeaderDag.Stored.relations_below_iff (stored : network.Stored store)
    {lower node : { hash // hash ∈ store.blocks }} :
    (stored.relations service filteringBlueWork).toDag.Below lower node ↔
      network.Below lower.1 node.1 := by
  constructor
  · intro below
    induction below with
    | refl => exact .refl _
    | step edge _ ih => exact .step ((mem_attachWith _ _).mp edge) ih
  · obtain ⟨hash, known⟩ := node
    intro below
    change network.Below lower.1 hash at below
    induction below with
    | refl => exact .refl _
    | @step parent block edge _ ih =>
      have isParent : (⟨parent, stored.known_parent known edge⟩ : { hash // hash ∈ store.blocks }) ∈
          (stored.relations service filteringBlueWork).toDag.parents ⟨block, known⟩ :=
        (mem_attachWith _ _).mpr edge
      exact .step isParent (ih _)

/-- The relations of every run of GHOSTDAG are sound, for a DAG of blocks that
has the hashes of the run and its selected parents. -/
theorem HeaderDag.Run.relations_sound (run : network.Run store)
    (soundWork : network.SoundWork store)
    (exact : network.Exact store service)
    {dag : BlockDag external params { hash // hash ∈ store.blocks }}
    (isGenesis : dag.root.1 = network.genesis)
    (hashes : ∀ node, (dag.block node).header.hash = node.1)
    (selected : ∀ node data, store.data node.1 = some data → node ≠ dag.root →
      (dag.parent node).1 = data.selectedParent) :
    (run.stored.relations service filteringBlueWork).Sound dag where
  selected_parent node notRoot := by
    obtain ⟨data, got⟩ := run.stored.exists_data node.2
    have notGenesis : node.1 ≠ network.genesis := fun same =>
      notRoot (Subtype.ext (same.trans isGenesis.symm))
    refine (mem_attachWith _ _).mpr ?_
    rw [selected node data got notRoot]
    exact (run.coloured got notGenesis).selected_parent
  antichain node := by
    intro first isFirst second isSecond below
    rw [run.stored.relations_below_iff] at below
    have edge := (mem_attachWith _ _).mp isFirst
    have notGenesis : node.1 ≠ network.genesis := by
      intro same
      rw [same, network.genesis_parents] at edge
      cases edge
    exact Subtype.ext ((run.stored.parents node.1 node.2 notGenesis).2.antichain
      _ edge _ ((mem_attachWith _ _).mp isSecond) below)
  exact first second := by
    rw [run.stored.relations_below_iff]
    exact exact _ first.2 _ second.2
  blueWork_lt node parent edge := by
    obtain ⟨data, got⟩ := run.stored.exists_data node.2
    have isWork : (run.stored.relations service filteringBlueWork).blueWork node = data.blueWork :=
      Stored.blueWork_eq got
    rw [isWork]
    exact run.blueWork_lt soundWork got ((mem_attachWith _ _).mp edge)
  hash_injective first second same := by
    rw [hashes, hashes] at same
    exact Subtype.ext same

end

section

variable {Node : Type} {sortable : Node → SortableBlock} {heap : List Node}

theorem popMax_largest {rest : List Node} {largest : Node}
    (popped : popMax sortable heap = some (largest, rest)) :
    ∀ node ∈ heap, ¬ sortable largest < sortable node := by
  induction heap generalizing largest rest with
  | nil => cases popped
  | cons first others ih =>
    rw [popMax] at popped
    cases below : popMax sortable others with
    | none =>
      rw [below] at popped
      cases popped
      cases popMax_eq_none below
      exact forall_mem_singleton.mpr (lt_irrefl _)
    | some pair =>
      obtain ⟨candidate, remaining⟩ := pair
      simp only [below] at popped
      have others := ih below
      split at popped
      · next less =>
        cases popped
        intro node mem
        rcases mem_cons.mp mem with rfl | later
        · exact lt_irrefl _
        · exact fun larger => others node later (less.trans larger)
      · next notLess =>
        cases popped
        exact forall_mem_cons.mpr ⟨notLess, others⟩

end

section

variable {relations : DagRelations Node} {dag : BlockDag external params Node}
  {finalityPoint candidate : Node} {rest : List Node}

/-- The heap while the parents of a candidate are pushed. -/
structure Pushed (relations : DagRelations Node) (finalityPoint : Node)
    (candidate : Node) (rest visited current : List Node) : Prop where
  nodup : current.Nodup
  antichain : relations.toDag.Antichain current
  origin : ∀ node ∈ current, node ∈ rest ∨ node ∈ relations.parents candidate ∧
    relations.toDag.Below finalityPoint node
  kept : ∀ node ∈ rest, node ∈ current
  covered : ∀ parent ∈ visited, relations.toDag.Below finalityPoint parent →
    relations.toDag.InPast current parent

theorem Pushed.skip {visited current : List Node} {parent : Node}
    (pushed : Pushed relations finalityPoint candidate rest visited current)
    (covers : relations.toDag.Below finalityPoint parent → relations.toDag.InPast current parent) :
    Pushed relations finalityPoint candidate rest (visited ++ [parent]) current := by
  refine ⟨pushed.nodup, pushed.antichain, pushed.origin, pushed.kept, ?_⟩
  exact forall_mem_append.mpr ⟨pushed.covered, forall_mem_singleton.mpr covers⟩

variable (sound : relations.Sound dag) (nodup : (candidate :: rest).Nodup)
  (antichain : relations.toDag.Antichain (candidate :: rest))
include sound nodup antichain

theorem Pushed.push {visited current : List Node}
    (pushed : Pushed relations finalityPoint candidate rest visited current) {parent : Node}
    (isParent : parent ∈ relations.parents candidate) :
    Pushed relations finalityPoint candidate rest (visited ++ [parent])
      (if relations.isDagAncestorOf finalityPoint parent &&
          !current.any (relations.isDagAncestorOf parent) then
        parent :: current
      else
        current) := by
  by_cases final : relations.toDag.Below finalityPoint parent
  · by_cases inPast : relations.toDag.InPast current parent
    · -- The parent is below a block of the heap.
      have covering : current.any (relations.isDagAncestorOf parent) = true := by
        obtain ⟨node, mem, below⟩ := inPast
        exact List.any_eq_true.mpr ⟨node, mem, (sound.exact parent node).mpr below⟩
      rw [covering, Bool.not_true, Bool.and_false, if_neg Bool.false_ne_true]
      exact pushed.skip fun _ => inPast
    · have notCovering : current.any (relations.isDagAncestorOf parent) = false := by
        refine List.any_eq_false.mpr fun node mem isBelow => inPast ?_
        exact ⟨node, mem, (sound.exact parent node).mp isBelow⟩
      rw [notCovering, (sound.exact finalityPoint parent).mpr final,
        Bool.not_false, Bool.and_self, if_pos rfl]
      have notBelow {node : Node} (mem : node ∈ current) : ¬ relations.toDag.Below parent node :=
        fun below => inPast ⟨node, mem, below⟩
      -- A block below the parent would be below the candidate, or a parent.
      have notAbove {node : Node} (mem : node ∈ current) :
          ¬ relations.toDag.Below node parent := by
        intro below
        rcases pushed.origin node mem with inRest | ⟨alsoParent, -⟩
        · have same := antichain node (mem_cons_of_mem _ inRest) candidate
            mem_cons_self (below.trans (Dag.below_parent isParent))
          exact (List.nodup_cons.mp nodup).1 (same ▸ inRest)
        · have same := sound.antichain candidate node alsoParent parent isParent below
          exact notBelow mem (same ▸ .refl _)
      refine ⟨List.nodup_cons.mpr ⟨fun mem => notBelow mem (.refl _),
        pushed.nodup⟩, ?_, ?_, fun node inRest =>
          mem_cons_of_mem _ (pushed.kept node inRest), ?_⟩
      · intro first isFirst second isSecond below
        rcases mem_cons.mp isFirst with rfl | firstOld
        · rcases mem_cons.mp isSecond with rfl | secondOld
          · rfl
          · exact absurd below (notBelow secondOld)
        · rcases mem_cons.mp isSecond with rfl | secondOld
          · exact absurd below (notAbove firstOld)
          · exact pushed.antichain first firstOld second secondOld below
      · exact forall_mem_cons.mpr ⟨.inr ⟨isParent, final⟩, pushed.origin⟩
      · intro other isVisited otherFinal
        rcases mem_append.mp isVisited with prior | isLast
        · exact exists_mem_cons_of_exists (pushed.covered other prior otherFinal)
        · rw [mem_singleton.mp isLast]
          exact ⟨parent, mem_cons_self, .refl _⟩
  · have notFinal : relations.isDagAncestorOf finalityPoint parent = false :=
      Bool.eq_false_iff.mpr fun isBelow => final ((sound.exact finalityPoint parent).mp isBelow)
    rw [notFinal, Bool.false_and, if_neg Bool.false_ne_true]
    exact pushed.skip fun isFinal => absurd isFinal final

theorem pushed_of_pushParents :
    Pushed relations finalityPoint candidate rest (relations.parents candidate)
      (pushParents relations finalityPoint candidate rest) := by
  have start : Pushed relations finalityPoint candidate rest [] rest := {
    nodup := (List.nodup_cons.mp nodup).2
    antichain := fun first isFirst second isSecond =>
      antichain first (mem_cons_of_mem _ isFirst) second (mem_cons_of_mem _ isSecond)
    origin := fun _ mem => .inl mem
    kept := fun _ mem => mem
    covered := forall_mem_nil _ }
  have later (parents visited current : List Node) (areParents : ∀ parent ∈ parents,
        parent ∈ relations.parents candidate)
      (pushed : Pushed relations finalityPoint candidate rest visited current) :
      Pushed relations finalityPoint candidate rest (visited ++ parents)
        (parents.foldl (fun current parent =>
          if relations.isDagAncestorOf finalityPoint parent &&
              !current.any (relations.isDagAncestorOf parent) then
            parent :: current
          else
            current) current) := by
    induction parents generalizing visited current with
    | nil => simpa using pushed
    | cons parent others ih =>
      obtain ⟨isParent, areOthers⟩ := forall_mem_cons.mp areParents
      rw [append_cons]
      exact ih _ _ areOthers (pushed.push sound nodup antichain isParent)
  exact later _ [] rest (fun _ mem => mem) start

end

section

variable (elementHash : List UInt8 → Hash) {external : External}
  {params : Params} {Node : Type} [DecidableEq Node]
  (dag : BlockDag external params Node) (relations : DagRelations Node)
  (judging : Node → Judging) (virtualUtxo : UtxoSet) (finalityPoint : Node)

/-- A block that may become the sink: the finality point is on its chain, and
its chain from there on is valid. -/
def BlockDag.Eligible (stores : UtxoStores Node) (node : Node) : Prop :=
  finalityPoint ∈ dag.chain node ∧ ∀ lower ∈ dag.chain node, finalityPoint ∈ dag.chain lower →
    ∃ utxo, dag.UtxoValid elementHash judging stores lower utxo

/-- The steps of the search: the largest block of the heap is rejected, because
of finality or of its state, and its parents are pushed. -/
inductive SearchStep : Progress Node × List Node → Progress Node × List Node → Prop where
  | violates {progress : Progress Node} {heap rest : List Node}
    {candidate : Node} :
    popMax (dag.sortable relations) heap = some (candidate, rest) →
    finalityPoint ∉ dag.chain candidate →
    SearchStep (progress, heap) (progress, pushParents relations finalityPoint candidate rest)
  | invalid {progress next : Progress Node} {heap rest : List Node}
    {candidate : Node} :
    popMax (dag.sortable relations) heap = some (candidate, rest) →
    finalityPoint ∈ dag.chain candidate →
    calculateUtxoStateRelatively elementHash dag judging virtualUtxo
      progress.stores progress.diff progress.diffPoint candidate = .ok next →
    next.diffPoint ≠ candidate →
    SearchStep (progress, heap) (next, pushParents relations finalityPoint candidate rest)

/-- The states of the heap that the search goes through. -/
inductive SearchReaches (start : Progress Node) (tips : List Node) :
    Progress Node → List Node → Prop where
  | start : SearchReaches start tips start tips
  | step {progress next : Progress Node} {heap nextHeap : List Node} :
    SearchReaches start tips progress heap →
    SearchStep elementHash dag relations judging virtualUtxo finalityPoint
      (progress, heap) (next, nextHeap) →
    SearchReaches start tips next nextHeap

/-- The largest block of the past of the tips that may become the sink, with
other blocks in descending order to merge. -/
structure BestSink (stores : UtxoStores Node) (tips : List Node)
    (sink : Node) (candidates : List Node) : Prop where
  eligible : dag.Eligible elementHash judging finalityPoint stores sink
  inPast : relations.toDag.InPast tips sink
  largest : ∀ node, relations.toDag.InPast tips node →
    dag.Eligible elementHash judging finalityPoint stores node → node ≠ sink →
      dag.sortable relations node < dag.sortable relations sink
  antichain : relations.toDag.Antichain (sink :: candidates)
  descending : (sink :: candidates).Pairwise fun first second =>
    dag.sortable relations second < dag.sortable relations first

/-- The heap is an antichain between the finality point and the tips that covers
every block that may become the sink. -/
structure HeapInvariant (floor : Node) (stores : UtxoStores Node)
    (tips : List Node) (progress : Progress Node) (heap : List Node) :
    Prop where
  located : Located elementHash dag floor virtualUtxo progress
  agrees : stores.Agrees elementHash dag judging progress.stores
  nodup : heap.Nodup
  antichain : relations.toDag.Antichain heap
  inPast : ∀ node ∈ heap, relations.toDag.InPast tips node
  final : ∀ node ∈ heap, relations.toDag.Below finalityPoint node
  covered : ∀ node, relations.toDag.InPast tips node →
    dag.Eligible elementHash judging finalityPoint stores node → relations.toDag.InPast heap node

variable {elementHash dag relations judging virtualUtxo finalityPoint}
  {floor : Node} {stores : UtxoStores Node} {tips heap rest : List Node}
  {progress : Progress Node} {candidate : Node}

omit [DecidableEq Node] in
theorem DagRelations.Sound.virtualParentCandidates (sound : relations.Sound dag)
    (nodup : rest.Nodup) (sink : Node) :
    (∀ node ∈ Sophis.virtualParentCandidates dag relations sink rest, node ∈ rest) ∧
      (Sophis.virtualParentCandidates dag relations sink rest).Pairwise fun first second =>
        dag.sortable relations second < dag.sortable relations first := by
  let descends : Node → Node → Prop := fun first second =>
    ¬ dag.sortable relations first < dag.sortable relations second
  have : Std.Total descends := ⟨fun first second => by
    by_contra both
    rw [not_or, not_not, not_not] at both
    exact lt_asymm both.1 both.2⟩
  have : IsTrans Node descends := ⟨fun _ _ _ above below less =>
    above (lt_of_lt_of_le less (SortableBlock.le_of_not_lt below))⟩
  have perm := perm_insertionSort descends rest
  have sorted : (rest.insertionSort descends).Pairwise fun first second =>
      dag.sortable relations second < dag.sortable relations first :=
    ((pairwise_insertionSort descends rest).and (perm.nodup_iff.mpr nodup)).imp fun ordered =>
      sound.lt_of_not_lt ordered.1 (Ne.symm ordered.2)
  have sublist := takeWhile_sublist (fun node => decide
      (relations.filteringBlueWork sink ≤ relations.blueWork node))
    (l := rest.insertionSort descends)
  exact ⟨fun node listed => perm.mem_iff.mp (sublist.subset listed), sorted.sublist sublist⟩

section

variable (sound : relations.Sound dag)
  (inv : HeapInvariant elementHash dag relations judging virtualUtxo
    finalityPoint floor stores tips progress heap)
include sound inv

omit [DecidableEq Node] in
theorem HeapInvariant.reject
    (popped : popMax (dag.sortable relations) heap = some (candidate, rest))
    (notEligible : ¬ dag.Eligible elementHash judging finalityPoint stores candidate)
    {next : Progress Node} (located : Located elementHash dag floor virtualUtxo next)
    (agrees : stores.Agrees elementHash dag judging next.stores) :
    HeapInvariant elementHash dag relations judging virtualUtxo finalityPoint floor stores tips next
      (pushParents relations finalityPoint candidate rest) := by
  have perm := popMax_perm popped
  have mem {node : Node} : node ∈ heap ↔ node ∈ candidate :: rest := perm.mem_iff
  have inHeap : candidate ∈ heap := mem.mpr mem_cons_self
  have pushed : Pushed relations finalityPoint candidate rest (relations.parents candidate)
      (pushParents relations finalityPoint candidate rest) :=
    pushed_of_pushParents sound (perm.nodup_iff.mp inv.nodup)
      fun first isFirst second isSecond =>
        inv.antichain first (mem.mpr isFirst) second (mem.mpr isSecond)
  refine ⟨located, agrees, pushed.nodup, pushed.antichain,
    fun node isPushed => ?_, fun node isPushed => ?_,
    fun node inPast eligible => ?_⟩
  · rcases pushed.origin node isPushed with inRest | ⟨isParent, -⟩
    · exact inv.inPast node (mem.mpr (mem_cons_of_mem _ inRest))
    · obtain ⟨tip, isTip, below⟩ := inv.inPast candidate inHeap
      exact ⟨tip, isTip, .trans (Dag.below_parent isParent) below⟩
  · rcases pushed.origin node isPushed with inRest | ⟨-, final⟩
    · exact inv.final node (mem.mpr (mem_cons_of_mem _ inRest))
    · exact final
  · obtain ⟨above, isAbove, below⟩ := inv.covered node inPast eligible
    rcases mem_cons.mp (mem.mp isAbove) with rfl | inRest
    · -- An eligible block below the candidate is below one of its parents.
      have differs : node ≠ above := by
        rintro rfl
        exact notEligible eligible
      obtain ⟨parent, isParent, further⟩ := below.exists_parent differs
      have final := (sound.below_of_mem_chain eligible.1).trans further
      obtain ⟨covering, isCovering, belowCovering⟩ := pushed.covered parent isParent final
      exact ⟨covering, isCovering, further.trans belowCovering⟩
    · exact ⟨above, pushed.kept above inRest, below⟩

theorem HeapInvariant.bestSink
    (popped : popMax (dag.sortable relations) heap = some (candidate, rest))
    (eligible : dag.Eligible elementHash judging finalityPoint stores candidate) :
    BestSink elementHash dag relations judging finalityPoint stores tips candidate
      (Sophis.virtualParentCandidates dag relations candidate rest) := by
  have perm := popMax_perm popped
  have largest := popMax_largest popped
  have nodup := perm.nodup_iff.mp inv.nodup
  have mem {node : Node} : node ∈ heap ↔ node ∈ candidate :: rest := perm.mem_iff
  obtain ⟨ofRest, descending⟩ :=
    sound.virtualParentCandidates (List.nodup_cons.mp nodup).2 candidate
  have fromHeap {node : Node} (listed : node ∈
      candidate :: Sophis.virtualParentCandidates dag relations candidate rest) :
      node ∈ heap := by
    rcases mem_cons.mp listed with rfl | isCandidate
    · exact mem.mpr mem_cons_self
    · exact mem.mpr (mem_cons_of_mem _ (ofRest node isCandidate))
  refine ⟨eligible, inv.inPast candidate (fromHeap mem_cons_self),
    fun node inPast isEligible differs => ?_,
    fun first isFirst second isSecond =>
      inv.antichain first (fromHeap isFirst) second (fromHeap isSecond),
    pairwise_cons.mpr ⟨fun node isCandidate => ?_, descending⟩⟩
  · obtain ⟨above, isAbove, below⟩ := inv.covered node inPast isEligible
    refine sound.lt_of_not_lt (fun less => ?_) differs
    by_cases same : node = above
    · exact largest above isAbove (same ▸ less)
    · exact largest above isAbove (less.trans (sound.sortable_lt below same))
  · refine sound.lt_of_not_lt (largest node (fromHeap (mem_cons_of_mem _ isCandidate))) ?_
    rintro rfl
    exact (List.nodup_cons.mp nodup).1 (ofRest node isCandidate)

variable (fits : params.CountsFitWords) (collisionFree : dag.CollisionFree)
  (virtualCreated : CreatedFrom external.toHashers dag.Known virtualUtxo)
  (aboveFloor : floor ∈ dag.chain finalityPoint)
include fits collisionFree virtualCreated aboveFloor

omit sound in
theorem HeapInvariant.calculated (final : finalityPoint ∈ dag.chain candidate)
    {next : Progress Node}
    (moved : calculateUtxoStateRelatively elementHash dag judging virtualUtxo
      progress.stores progress.diff progress.diffPoint candidate = .ok next) :
    Located elementHash dag floor virtualUtxo next ∧
      stores.Agrees elementHash dag judging next.stores ∧
      (dag.Eligible elementHash judging finalityPoint stores candidate ↔
        next.diffPoint = candidate) := by
  have targetAbove := Tree.mem_chain_trans aboveFloor final
  obtain ⟨agrees, rejected⟩ := inv.located.relatively_judged fits
    collisionFree virtualCreated inv.agrees targetAbove moved
  have located := inv.located.of_relatively fits collisionFree virtualCreated targetAbove moved
  refine ⟨located, agrees, fun eligible => ?_, fun same => ⟨final, ?_⟩⟩
  · by_contra differs
    obtain ⟨utxo, isValid⟩ := eligible.2 candidate (dag.self_mem_chain candidate) final
    exact rejected differs utxo isValid
  · intro lower onChain _
    have valid := located.consistent.valid_of_mem_chain (same ▸ located.valid) onChain
    exact ⟨_, agrees.valid lower valid⟩

theorem HeapInvariant.step {next : Progress Node} {nextHeap : List Node}
    (stepped : SearchStep elementHash dag relations judging virtualUtxo
      finalityPoint (progress, heap) (next, nextHeap)) :
    HeapInvariant elementHash dag relations judging virtualUtxo finalityPoint
      floor stores tips next nextHeap := by
  cases stepped with
  | violates popped notFinal =>
    exact inv.reject sound popped (fun eligible =>
      notFinal eligible.1) inv.located inv.agrees
  | invalid popped final moved differs =>
    obtain ⟨located, agrees, eligible_iff⟩ := inv.calculated fits
      collisionFree virtualCreated aboveFloor final moved
    exact inv.reject sound popped (fun eligible =>
      differs (eligible_iff.mp eligible)) located agrees

theorem HeapInvariant.search (hasSink : ∃ node, relations.toDag.InPast tips node ∧
      dag.Eligible elementHash judging finalityPoint stores node) {fuel : Nat}
    (enough : relations.searchBound heap < fuel) :
    (∃ got candidates, sinkSearchAlgorithm elementHash dag relations judging virtualUtxo
          finalityPoint fuel progress heap = .ok (got, candidates) ∧
        BestSink elementHash dag relations judging finalityPoint stores tips
          got.diffPoint candidates) ∨
      ∃ failing, sinkSearchAlgorithm elementHash dag relations judging virtualUtxo
            finalityPoint fuel progress heap =
          .error (.relative (.calculation failing)) ∧
        dag.JudgementAborts failing := by
  induction fuel generalizing progress heap with
  | zero => cases enough
  | succ fuel ih =>
    rw [sinkSearchAlgorithm]
    cases popped : popMax (dag.sortable relations) heap with
    | none =>
      obtain ⟨node, inPast, eligible⟩ := hasSink
      obtain ⟨above, isAbove, -⟩ := inv.covered node inPast eligible
      rw [popMax_eq_none popped] at isAbove
      cases isAbove
    | some pair =>
      obtain ⟨candidate, rest⟩ := pair
      have smaller := relations.searchBound_pushParents finalityPoint popped
      simp only
      by_cases final : finalityPoint ∈ dag.chain candidate
      · rw [if_pos final]
        rcases inv.located.relatively fits collisionFree
          virtualCreated judging (Tree.mem_chain_trans aboveFloor final)
          with ⟨next, moved, -, -⟩ | ⟨failing, -, failed, aborts⟩
        · obtain ⟨-, -, eligible_iff⟩ := inv.calculated fits
            collisionFree virtualCreated aboveFloor final moved
          rw [moved, Except.mapError, ok_bind]
          by_cases same : next.diffPoint = candidate
          · rw [if_pos same]
            refine .inl ⟨next, _, rfl, ?_⟩
            rw [same]
            exact inv.bestSink sound popped (eligible_iff.mpr same)
          · rw [if_neg same]
            exact ih (inv.step sound fits collisionFree virtualCreated aboveFloor
              (.invalid popped final moved same)) (by omega)
        · rw [failed]
          exact .inr ⟨failing, rfl, aborts⟩
      · rw [if_neg final]
        exact ih (inv.step sound fits
          collisionFree virtualCreated aboveFloor (.violates popped final)) (by omega)

end

end

theorem rivalRelations_below_iff {lower node : RivalNode} :
    rivalRelations.toDag.Below lower node ↔ lower ∈ rivalDag.chain node := by
  induction node using rivalDag.ascend with
  | atRoot =>
    rw [Dag.below_iff, rivalDag.chain_root, mem_singleton]
    exact or_iff_left fun ⟨_, isParent, _⟩ => absurd isParent not_mem_nil
  | upwards node ne ih =>
    have onlyParent : rivalRelations.toDag.parents node = [rivalDag.parent node] := if_neg ne
    rw [Dag.below_iff, rivalDag.chain_of_ne ne, mem_cons, onlyParent, ← ih]
    simp

theorem rivalRelations_sound : rivalRelations.Sound rivalDag where
  selected_parent node ne := by
    have onlyParent : rivalRelations.parents node = [rivalDag.parent node] := if_neg ne
    rw [onlyParent]
    exact mem_singleton_self _
  antichain node := by
    have short : (rivalRelations.parents node).length ≤ 1 := by cases node <;> decide
    intro one isOne other isOther _
    cases parents : rivalRelations.parents node with
    | nil =>
      rw [parents] at isOne
      cases isOne
    | cons parent others =>
      rw [parents] at isOne isOther short
      cases length_eq_zero_iff.mp (Nat.le_zero.mp (Nat.le_of_succ_le_succ short))
      rw [mem_singleton.mp isOne, mem_singleton.mp isOther]
  exact one other := by
    rw [rivalRelations_below_iff]
    exact decide_eq_true_iff
  blueWork_lt node parent isParent := by
    cases node with
    | genesis => cases isParent
    | first | second | third | rival =>
      cases mem_singleton.mp isParent
      decide
  hash_injective one other same := by
    have nodup : ([RivalNode.genesis, .first, .second, .third,
        .rival].map fun node => node.block.header.hash).Nodup := by
      decide +kernel
    have listed (node : RivalNode) : node ∈ [RivalNode.genesis, .first,
        .second, .third, .rival] := by
      cases node <;> decide
    exact inj_on_of_nodup_map nodup (listed one) (listed other) same

end Sophis
