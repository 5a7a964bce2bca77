import Sophis.HeadersSelectedTip
import Sophis.Reorganisation

namespace Sophis

open ExceptLoop List ParentTree

/-!
# The search for a sink

`sink_search_algorithm` of `virtual_processor/processor.rs`: the tips of the DAG
and then their parents are tried from the heaviest on, until one of them has a
valid state. The difference to virtual moves along with the candidates.
-/

section

/-- What the search for a sink asks about the DAG. A candidate is merged only
from the blue work of its merge depth root on. The rank says that parents come
before their children. -/
structure DagRelations (Node : Type) where
  parents : Node → List Node
  isDagAncestorOf : Node → Node → Bool
  blueWork : Node → Nat
  filteringBlueWork : Node → Nat
  rank : Node → Nat
  rank_parent : ∀ node, ∀ parent ∈ parents node, rank parent < rank node

/-- Where the resolution aborts. -/
inductive ResolvePanic (Node : Type) where
  | relative (panic : ReorgPanic Node)
  | noValidSink
  | selectedParentMismatch
  | unexpectedRule
  | calculation
  | outOfFuel

variable {Node : Type}

/-- Takes the largest block out of a heap. -/
def popMax (sortable : Node → SortableBlock) : List Node → Option (Node × List Node)
  | [] => none
  | first :: rest =>
    match popMax sortable rest with
    | none => some (first, [])
    | some (largest, others) =>
      if sortable largest < sortable first then
        some (first, rest)
      else
        some (largest, first :: others)

/-- Pushes the parents of a rejected candidate, unless they are outside the
future of the finality point or in the past of the heap. -/
def pushParents (relations : DagRelations Node) (finalityPoint : Node)
    (candidate : Node) (heap : List Node) : List Node :=
  (relations.parents candidate).foldl (fun current parent =>
      if relations.isDagAncestorOf finalityPoint parent &&
          !current.any (relations.isDagAncestorOf parent) then
        parent :: current
      else
        current)
    heap

/-- How many blocks an exhaustive search below a block tries at most. -/
def DagRelations.unfoldings {Node : Type} (relations : DagRelations Node) : Nat → Node → Nat
  | 0, _ => 1
  | depth + 1, node => 1 + ((relations.parents node).map (relations.unfoldings depth)).sum

def DagRelations.searchBound {Node : Type} (relations : DagRelations Node)
    (heap : List Node) : Nat :=
  (heap.map fun node => relations.unfoldings (relations.rank node) node).sum

variable (elementHash : List UInt8 → Hash) {external : External}
  {params : Params} [DecidableEq Node] (dag : BlockDag external params Node)
  (relations : DagRelations Node)

def BlockDag.sortable (node : Node) : SortableBlock :=
  ⟨(dag.block node).header.hash, relations.blueWork node⟩

/-- The blocks left in the heap that are worth merging, the heaviest first. -/
def virtualParentCandidates (sink : Node) (heap : List Node) : List Node :=
  (heap.insertionSort fun first second =>
    ¬ dag.sortable relations first < dag.sortable relations second).takeWhile
      fun node => relations.filteringBlueWork sink ≤ relations.blueWork node

/-- Tries the blocks of the heap in descending order until one of them has a
valid state. -/
def sinkSearchAlgorithm (judging : Node → Judging) (virtualUtxo : UtxoSet) (finalityPoint : Node) :
    Nat → Progress Node → List Node → Except (ResolvePanic Node) (Progress Node × List Node)
  | 0, _, _ => .error .outOfFuel
  | fuel + 1, progress, heap =>
    match popMax (dag.sortable relations) heap with
    | none => .error .noValidSink
    | some (candidate, rest) =>
      if finalityPoint ∈ dag.chain candidate then do
        let next ← (calculateUtxoStateRelatively elementHash dag judging virtualUtxo progress.stores
          progress.diff progress.diffPoint candidate).mapError .relative
        if next.diffPoint = candidate then
          return (next, virtualParentCandidates dag relations candidate rest)
        else
          sinkSearchAlgorithm judging virtualUtxo finalityPoint fuel next
            (pushParents relations finalityPoint candidate rest)
      else
        -- A block that violates finality is ignored.
        sinkSearchAlgorithm judging virtualUtxo finalityPoint fuel
          progress (pushParents relations finalityPoint candidate rest)

end

variable {elementHash : List UInt8 → Hash} {external : External} {params : Params} {Node : Type}
  {dag : BlockDag external params Node} {relations : DagRelations Node}

section

variable {sortable : Node → SortableBlock} {heap rest : List Node}

theorem popMax_eq_none (empty : popMax sortable heap = none) : heap = [] := by
  cases heap with
  | nil => rfl
  | cons first rest =>
    rw [popMax] at empty
    split at empty
    · cases empty
    · split at empty
      · cases empty
      · cases empty

theorem popMax_perm {largest : Node} (popped : popMax sortable heap = some (largest, rest)) :
    heap.Perm (largest :: rest) := by
  induction heap generalizing largest rest with
  | nil => cases popped
  | cons first others ih =>
    rw [popMax] at popped
    cases below : popMax sortable others with
    | none =>
      cases popMax_eq_none below
      cases popped
      exact .refl _
    | some pair =>
      obtain ⟨candidate, remaining⟩ := pair
      simp only [below] at popped
      split at popped
      · cases popped
        exact .refl _
      · cases popped
        exact ((ih below).cons first).trans (.swap _ _ _)

theorem DagRelations.unfoldings_mono (relations : DagRelations Node) {shallow deep : Nat}
    (deeper : shallow ≤ deep) (node : Node) :
    relations.unfoldings shallow node ≤ relations.unfoldings deep node := by
  induction shallow generalizing deep node with
  | zero =>
    cases deep with
    | zero => exact Nat.le_refl _
    | succ deep => exact Nat.le_add_right _ _
  | succ shallow ih =>
    cases deep with
    | zero => cases deeper
    | succ deep =>
      rw [unfoldings, unfoldings]
      exact Nat.add_le_add_left (sum_le_sum fun parent _ =>
        ih (Nat.le_of_succ_le_succ deeper) parent) 1

theorem DagRelations.searchBound_parents (relations : DagRelations Node) (node : Node) :
    relations.searchBound (relations.parents node) <
      relations.unfoldings (relations.rank node) node := by
  cases level : relations.rank node with
  | zero =>
    have none : relations.parents node = [] := by
      refine eq_nil_iff_forall_not_mem.mpr fun parent mem => ?_
      have below := relations.rank_parent node parent mem
      rw [level] at below
      cases below
    rw [none]
    exact Nat.one_pos
  | succ level =>
    rw [unfoldings, searchBound, Nat.add_comm, Nat.lt_succ_iff]
    refine sum_le_sum fun parent mem => ?_
    have below := relations.rank_parent node parent mem
    exact relations.unfoldings_mono (by omega) parent

theorem DagRelations.searchBound_cons (relations : DagRelations Node) (node : Node)
    (heap : List Node) :
    relations.searchBound (node :: heap) = relations.unfoldings (relations.rank node) node +
      relations.searchBound heap := by
  rw [searchBound, map_cons, sum_cons, ← searchBound]

/-- Trying a candidate and pushing its parents makes the rest of the search
smaller. -/
theorem DagRelations.searchBound_pushParents (relations : DagRelations Node) (finalityPoint : Node)
    {candidate : Node} (popped : popMax sortable heap = some (candidate, rest)) :
    relations.searchBound (pushParents relations finalityPoint candidate rest) <
      relations.searchBound heap := by
  have pushed (parents current : List Node) : relations.searchBound (parents.foldl
        (fun current parent =>
          if relations.isDagAncestorOf finalityPoint parent &&
              !current.any (relations.isDagAncestorOf parent) then
            parent :: current
          else
            current)
        current) ≤
      relations.searchBound parents + relations.searchBound current := by
    induction parents generalizing current with
    | nil => exact Nat.le_add_left _ _
    | cons parent later ih =>
      rw [foldl_cons, relations.searchBound_cons]
      refine (ih _).trans ?_
      split
      · rw [relations.searchBound_cons]
        omega
      · omega
  have whole : relations.searchBound heap = relations.searchBound (candidate :: rest) :=
    ((popMax_perm popped).map _).sum_eq
  have smaller := relations.searchBound_parents candidate
  have grown := pushed (relations.parents candidate) rest
  rw [whole, relations.searchBound_cons]
  exact lt_of_le_of_lt grown (by omega)

variable [DecidableEq Node]

/-- The search ends before it runs out of fuel. -/
theorem sinkSearchAlgorithm_ne_outOfFuel {judging : Node → Judging} {virtualUtxo : UtxoSet}
    {finalityPoint : Node} {fuel : Nat} {progress : Progress Node}
    (enough : relations.searchBound heap < fuel) :
    sinkSearchAlgorithm elementHash dag relations judging virtualUtxo
      finalityPoint fuel progress heap ≠ .error .outOfFuel := by
  induction fuel generalizing progress heap with
  | zero => cases enough
  | succ fuel ih =>
    rw [sinkSearchAlgorithm]
    cases popped : popMax (dag.sortable relations) heap with
    | none => exact nofun
    | some pair =>
      obtain ⟨candidate, rest⟩ := pair
      have smaller := relations.searchBound_pushParents finalityPoint popped
      have later : relations.searchBound
          (pushParents relations finalityPoint candidate rest) < fuel := by
        omega
      simp only
      split
      · intro failed
        rw [bind_eq_error] at failed
        rcases failed with failed | ⟨next, -, ran⟩
        · obtain ⟨original, -, renamed⟩ := mapError_eq_error.mp failed
          cases renamed
        · split at ran
          · cases ran
          · exact ih later ran
      · exact ih later

end

variable {floor : Node} [DecidableEq Node]

/-- The search ends at a valid block above the finality point, with exactly its
difference to virtual. -/
theorem Located.sinkSearchAlgorithm {virtualUtxo : UtxoSet} {progress : Progress Node}
    (located : Located elementHash dag floor virtualUtxo progress) (fits : params.CountsFitWords)
    (free : dag.CollisionFree)
    (virtualCreated : CreatedFrom external.toHashers dag.Known virtualUtxo)
    {judging : Node → Judging} {finalityPoint : Node} (aboveFloor : floor ∈ dag.chain finalityPoint)
    {fuel : Nat} {heap candidates : List Node} {got : Progress Node}
    (searched : Sophis.sinkSearchAlgorithm elementHash dag relations judging
      virtualUtxo finalityPoint fuel progress heap = .ok (got, candidates)) :
    Located elementHash dag floor virtualUtxo got ∧
      finalityPoint ∈ dag.chain got.diffPoint := by
  induction fuel generalizing progress heap with
  | zero => cases searched
  | succ fuel ih =>
    rw [Sophis.sinkSearchAlgorithm] at searched
    split at searched
    · cases searched
    · next candidate rest popped =>
      split at searched
      · next final =>
        simp only [bind_eq_ok, mapError_eq_ok] at searched
        obtain ⟨next, moved, ran⟩ := searched
        have nextLocated := located.of_relatively fits free virtualCreated
          (Tree.mem_chain_trans aboveFloor final) moved
        split at ran
        · next eq =>
          cases ran
          exact ⟨nextLocated, eq ▸ final⟩
        · exact ih nextLocated ran
      · exact ih located searched

end Sophis
