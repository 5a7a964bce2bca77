import Mathlib.Algebra.Order.BigOperators.Group.List
import Mathlib.Algebra.Order.Group.Nat
import Sophis.GhostdagReplay
import Sophis.Mergeset

namespace Sophis

open GhostdagManager GhostdagRecord HeaderDag List MachineWord Option

/-!
# What the protocol records of a block

Colouring splits the ordered mergeset into blues and reds. The score and the
work of a block count the blues along its selected chain, so that the work grows
from every parent to its children.
-/

variable {manager : GhostdagManager} {data next : GhostdagRecord} {candidate : Hash}

/-- A candidate becomes the last blue or the last red. -/
theorem GhostdagManager.colourCandidate_cases
    (coloured : manager.colourCandidate data candidate = some next) :
    (∃ progress sizes, manager.checkBlueCandidate data candidate = some (some progress) ∧
        raiseSizes (data.bluesAnticoneSizes.insert candidate
            progress.candidateBlueAnticoneSize)
          progress.candidateBluesAnticoneSizes.entries = some sizes ∧
        next = { data with
          mergesetBlues := data.mergesetBlues ++ [candidate]
          bluesAnticoneSizes := sizes }) ∨
      next = data.addRed candidate := by
  rw [colourCandidate, bind_eq_bind, bind_eq_some_iff] at coloured
  obtain ⟨colour, checked, coloured⟩ := coloured
  cases colour with
  | none => exact .inr (Option.some.inj coloured).symm
  | some progress =>
    simp only [addBlue, bind_eq_bind, bind_eq_some_iff, Option.pure_def,
      Option.some.injEq] at coloured
    obtain ⟨sizes, raised, rfl⟩ := coloured
    exact .inl ⟨progress, sizes, checked, raised, rfl⟩

variable {progress : ColoringProgress}

section

variable (checked : manager.checkBlueCandidate data candidate = some (some progress))
include checked

theorem GhostdagManager.checkBlueCandidate_eq_blue :
    manager.k.toNat + 1 < 2 ^ 16 ∧ UInt16.ofNat data.mergesetBlues.length ≠ manager.k + 1 ∧
      manager.checkChain data candidate (manager.storeSize + 1) none data
        ⟨∅, 0⟩ = some (some progress) := by
  simp only [checkBlueCandidate, bind_eq_bind, bind_eq_some_iff, guard_eq_some'] at checked
  obtain ⟨_, fits, checked⟩ := checked
  split at checked
  · cases checked
  · next room => exact ⟨fits, room, checked⟩

theorem GhostdagManager.length_le_of_checkBlueCandidate
    (few : data.mergesetBlues.length ≤ manager.k.toNat + 1) :
    data.mergesetBlues.length ≤ manager.k.toNat := by
  obtain ⟨fits, room, -⟩ := checkBlueCandidate_eq_blue checked
  refine Nat.le_of_lt_succ (Nat.lt_of_le_of_ne few fun full => room ?_)
  apply UInt16.toNat_inj.mp
  rw [UInt16.toNat_add, full, UInt16.toNat_ofNat']
  rfl

end

/-- The blues and the reds are the mergeset, in its order. -/
structure GhostdagRecord.Split (data next : GhostdagRecord)
    (mergeset blues reds : List Hash) : Prop where
  selected_parent : next.selectedParent = data.selectedParent
  mergesetBlues : next.mergesetBlues = data.mergesetBlues ++ blues
  mergesetReds : next.mergesetReds = data.mergesetReds ++ reds
  blues_sublist : blues.Sublist mergeset
  reds_sublist : reds.Sublist mergeset
  perm : (blues ++ reds).Perm mergeset

theorem GhostdagRecord.split_of_foldlM {mergeset : List Hash}
    (folded : mergeset.foldlM manager.colourCandidate data = some next)
    (few : data.mergesetBlues.length ≤ manager.k.toNat + 1) :
    next.mergesetBlues.length ≤ manager.k.toNat + 1 ∧
      ∃ blues reds, data.Split next mergeset blues reds := by
  induction mergeset generalizing data with
  | nil =>
    cases Option.some.inj folded
    exact ⟨few, [], [], rfl, (append_nil _).symm, (append_nil _).symm, .slnil, .slnil, .refl _⟩
  | cons candidate rest ih =>
    rw [foldlM_cons, bind_eq_bind, bind_eq_some_iff] at folded
    obtain ⟨mid, coloured, folded⟩ := folded
    rcases colourCandidate_cases coloured with
      ⟨progress, sizes, checked, -, rfl⟩ | rfl
    · have room := length_le_of_checkBlueCandidate checked few
      obtain ⟨bounded, blues, reds, split⟩ := ih folded (by
        rw [length_append]
        exact Nat.succ_le_succ room)
      refine ⟨bounded, candidate :: blues, reds, split.selected_parent, ?_,
        split.mergesetReds, split.blues_sublist.cons_cons candidate,
        split.reds_sublist.cons candidate, split.perm.cons candidate⟩
      rw [split.mergesetBlues, append_assoc]
      rfl
    · obtain ⟨bounded, blues, reds, split⟩ := ih folded few
      refine ⟨bounded, blues, candidate :: reds, split.selected_parent,
        split.mergesetBlues, ?_, split.blues_sublist.cons candidate,
        split.reds_sublist.cons_cons candidate,
        perm_middle.trans (split.perm.cons candidate)⟩
      rw [split.mergesetReds, addRed, append_assoc]
      rfl

/-- The work of a header at the level of the protocol. -/
def HeaderDag.work (network : HeaderDag) (block : Hash) : Nat :=
  max ((calcWork (network.bits block)).getD 0) network.levelWork

theorem foldl_addWork (start : Nat) (works : List Nat) :
    addWork start (works.foldl addWork 0) = (start + works.sum) % 2 ^ 192 := by
  have sum : ∀ total, works.foldl addWork total % 2 ^ 192 = (total + works.sum) % 2 ^ 192 := by
    induction works with
    | nil => simp
    | cons work rest ih =>
      intro total
      rw [foldl_cons, ih, addWork, sum_cons, Nat.mod_add_mod, Nat.add_assoc]
  rw [addWork, ← Nat.add_mod_mod, sum, Nat.zero_add, Nat.add_mod_mod]

variable {network : HeaderDag} {store : GhostdagStore} {service : Hash → Hash → Bool}

theorem HeaderDag.blockWork_eq {block : Hash} {work : Nat}
    (computed : (network.manager store service).blockWork block = some work) :
    work = network.work block := by
  simp only [blockWork, manager, bind_eq_bind, bind_eq_some_iff,
    Option.pure_def, Option.some.injEq, ite_none_right_eq_some] at computed
  obtain ⟨bits, ⟨-, rfl⟩, ⟨value, ran, rfl⟩⟩ := computed
  rw [work, ran]
  rfl

theorem HeaderDag.mapM_blockWork_eq {blocks : List Hash} {works : List Nat}
    (computed : blocks.mapM (network.manager store service).blockWork = some works) :
    works = blocks.map network.work := by
  induction blocks generalizing works with
  | nil => exact (Option.some.inj computed).symm
  | cons first rest ih =>
    simp only [mapM_cons, bind_eq_bind, bind_eq_some_iff,
      Option.pure_def, Option.some.injEq] at computed
    obtain ⟨work, isWork, others, areOthers, rfl⟩ := computed
    rw [blockWork_eq isWork, ih areOthers]
    rfl

/-- The merged blocks in the order in which they are coloured. -/
structure HeaderDag.OrderedMergeset (network : HeaderDag)
    (store : GhostdagStore) (parents : List Hash) (selectedParent : Hash)
    (ordered : List Hash) : Prop where
  mem_iff : ∀ block, block ∈ ordered ↔
    network.InPast parents block ∧ ¬ network.Below block selectedParent
  ascending : ordered.Pairwise fun first second => store.sortable first < store.sortable second

/-- What the protocol records of a block with these parents. -/
structure HeaderDag.Coloured (network : HeaderDag) (store : GhostdagStore)
    (parents : List Hash) (data : GhostdagRecord) : Prop where
  selected_parent : data.selectedParent ∈ parents
  largest : ∀ parent ∈ parents, ¬ store.sortable data.selectedParent < store.sortable parent
  split : ∃ ordered blues, network.OrderedMergeset store parents data.selectedParent ordered ∧
    data.mergesetBlues = data.selectedParent :: blues ∧
    blues.Sublist ordered ∧
    data.mergesetReds.Sublist ordered ∧
    (blues ++ data.mergesetReds).Perm ordered
  few : data.mergesetBlues.length ≤ network.k.toNat + 1
  counted : ∃ parentData, store.data data.selectedParent = some parentData ∧ data.blueScore.toNat =
      parentData.blueScore.toNat + data.mergesetBlues.length ∧
    data.blueWork = (parentData.blueWork + (data.mergesetBlues.map network.work).sum) % 2 ^ 192

/-- Data with the selected parent as its only blue. -/
abbrev GhostdagRecord.uncoloured (selectedParent : Hash) : GhostdagRecord where
  blueScore := 0
  selectedParent
  mergesetBlues := [selectedParent]
  mergesetReds := []
  blueWork := 0
  bluesAnticoneSizes := (∅ : HashKTypeMap).insert selectedParent 0

namespace HeaderDag

variable {network : HeaderDag} {store : GhostdagStore} {service : Hash → Hash → Bool}
  {parents : List Hash} {block : Hash}

theorem Stored.known_inPast (stored : network.Stored store)
    (parentsOf : network.ParentsOf store parents) (inPast : network.InPast parents block) :
    block ∈ store.blocks := by
  obtain ⟨parent, edge, below⟩ := inPast
  exact stored.known_below below (parentsOf.known parent edge)

variable {selectedParent : Hash}

theorem Stored.orderedMergeset (stored : network.Stored store) (exact : network.Exact store service)
    (parentsOf : network.ParentsOf store parents) (picked : selectedParent ∈ parents) :
    ∃ ordered, (network.manager store service).orderedMergesetWithoutSelectedParent
        selectedParent parents = some ordered ∧
      network.OrderedMergeset store parents selectedParent ordered := by
  obtain ⟨mergeset, searched, nodup, members⟩ := stored.unorderedMergeset exact parentsOf picked
  obtain ⟨ordered, sorted, perm, ascending⟩ := stored.sortBlocks service (fun block mem =>
      stored.known_inPast parentsOf ((members block).mp mem).1) nodup
  refine ⟨ordered, ?_, fun block => ?_, ascending⟩
  · rw [orderedMergesetWithoutSelectedParent, searched]
    exact sorted
  · rw [perm.mem_iff, members]

theorem Stored.known_ne_origin (stored : network.Stored store) (known : block ∈ store.blocks) :
    block ≠ blockHashOrigin := by
  by_cases isGenesis : block = network.genesis
  · exact isGenesis ▸ network.genesis_ne_origin
  · exact (stored.parents block known isGenesis).1

variable {data : GhostdagRecord}

theorem newWithSelectedParent_eq {k : UInt16}
    (created : newWithSelectedParent selectedParent k = some data) :
    k.toNat + 1 < 2 ^ 16 ∧ data = .uncoloured selectedParent := by
  rw [newWithSelectedParent] at created
  split at created
  · next fits => exact ⟨fits, (Option.some.inj created).symm⟩
  · cases created

section

variable (stored : network.Stored store) (exact : network.Exact store service)
  (parentsOf : network.ParentsOf store parents)
  (recorded : (network.manager store service).ghostdag parents = some data)
include stored exact parentsOf recorded

theorem Stored.ghostdag_eq :
    ∃ selectedParent ordered coloured parentData, selectedParent ∈ parents ∧ (∀ parent ∈ parents,
        ¬ store.sortable selectedParent < store.sortable parent) ∧
      network.OrderedMergeset store parents selectedParent ordered ∧
      network.k.toNat + 1 < 2 ^ 16 ∧
      ordered.foldlM (network.manager store service).colourCandidate (.uncoloured selectedParent) =
        some coloured ∧
      store.data selectedParent = some parentData ∧
      checkedAdd parentData.blueScore
        (UInt64.ofNat coloured.mergesetBlues.length) = some data.blueScore ∧
      data = { coloured with
        blueScore := data.blueScore
        blueWork := (parentData.blueWork +
          (coloured.mergesetBlues.map network.work).sum) % 2 ^ 192 } := by
  obtain ⟨selectedParent, edge, got, largest⟩ := stored.findSelectedParent service parentsOf
  obtain ⟨ordered, searched, isOrdered⟩ := stored.orderedMergeset exact parentsOf edge
  have notOrigin := stored.known_ne_origin (parentsOf.known _ edge)
  simp only [ghostdag, got, searched, bind_eq_bind, bind_some, if_neg notOrigin,
    bind_eq_some_iff, Option.pure_def, Option.some.injEq] at recorded
  obtain ⟨initial, created, coloured, folded, parentData, isData, score, added,
    works, computed, rfl⟩ := recorded
  obtain ⟨fits, rfl⟩ := newWithSelectedParent_eq created
  refine ⟨selectedParent, ordered, coloured, parentData, edge, largest,
    isOrdered, fits, folded, isData, added, ?_⟩
  rw [foldl_addWork, mapM_blockWork_eq computed]

theorem Stored.coloured_of_ghostdag : network.Coloured store parents data := by
  obtain ⟨selectedParent, ordered, coloured, parentData, edge, largest,
    isOrdered, fits, folded, isData, added, isRecorded⟩ :=
    stored.ghostdag_eq exact parentsOf recorded
  obtain ⟨few, blues, reds, split⟩ := split_of_foldlM folded (Nat.le_add_left 1 _)
  have sameParent : data.selectedParent = selectedParent := by
    rw [isRecorded]
    exact split.selected_parent
  have areBlues : data.mergesetBlues = selectedParent :: blues := by
    rw [isRecorded]
    exact split.mergesetBlues
  have areReds : data.mergesetReds = reds := by
    rw [isRecorded]
    exact split.mergesetReds
  have sameBlues : coloured.mergesetBlues = data.mergesetBlues := by rw [isRecorded]
  rw [sameBlues] at few added
  refine ⟨sameParent ▸ edge, sameParent ▸ largest,
    ⟨ordered, blues, sameParent ▸ isOrdered, sameParent ▸ areBlues,
      split.blues_sublist, areReds ▸ split.reds_sublist,
      areReds ▸ split.perm⟩, few, parentData, sameParent ▸ isData, ?_, ?_⟩
  · have small : data.mergesetBlues.length < 2 ^ 64 := by
      change _ ≤ network.k.toNat + 1 at few
      omega
    rw [checkedAdd_eq_some_iff.mp added, UInt64.toNat_ofNat_of_lt' small]
  · rw [isRecorded]

end

theorem sortable_insert {other : Hash} (ne : other ≠ block) (data : GhostdagRecord) :
    (store.insert block data).sortable other = store.sortable other := by
  simp [GhostdagStore.sortable, GhostdagStore.blueWork, GhostdagStore.insert, ne]

theorem Coloured.insert (stored : network.Stored store)
    (parentsOf : network.ParentsOf store parents) {data : GhostdagRecord}
    (coloured : network.Coloured store parents data) {block : Hash} (fresh : block ∉ store.blocks)
    (added : GhostdagRecord) : network.Coloured (store.insert block added) parents data := by
  have old {other : Hash} (known : other ∈ store.blocks) :
      (store.insert block added).sortable other = store.sortable other :=
    sortable_insert (ne_of_mem_of_not_mem known fresh) added
  obtain ⟨ordered, blues, isOrdered, split⟩ := coloured.split
  obtain ⟨parentData, isData, score, work⟩ := coloured.counted
  refine ⟨coloured.selected_parent, fun parent edge => ?_,
    ⟨ordered, blues, ⟨isOrdered.mem_iff, ?_⟩, split⟩, coloured.few,
    parentData, ?_, score, work⟩
  · rw [old (parentsOf.known _ coloured.selected_parent), old (parentsOf.known parent edge)]
    exact coloured.largest parent edge
  · refine isOrdered.ascending.imp_of_mem ?_
    intro first second isFirst isSecond less
    rw [old (stored.known_inPast parentsOf ((isOrdered.mem_iff _).mp isFirst).1),
      old (stored.known_inPast parentsOf ((isOrdered.mem_iff _).mp isSecond).1)]
    exact less
  · have ne : data.selectedParent ≠ block := by
      rintro rfl
      exact fresh (parentsOf.known _ coloured.selected_parent)
    exact (store.insert_data_of_ne ne added).trans isData

theorem Run.coloured (run : network.Run store) (got : store.data block = some data)
    (ne : block ≠ network.genesis) :
    network.Coloured store (network.parents block) data := by
  induction run with
  | genesis => cases got.symm.trans (if_neg ne)
  | @insert store added service addedData run fresh _ parentsOf exact recorded
    ih =>
    have stored := run.stored
    by_cases eq : block = added
    · subst eq
      rw [store.insert_data_self, Option.some.injEq] at got
      subst got
      exact (stored.coloured_of_ghostdag exact parentsOf recorded).insert
        stored parentsOf fresh addedData
    · have old : store.data block = some data :=
        (store.insert_data_of_ne eq addedData).symm.trans got
      have known := stored.known_of_data old
      exact (ih old).insert stored (stored.parents block known ne).2 fresh addedData

end HeaderDag

/-- The blue blocks in the view of a block: the mergeset blues along its
selected chain. -/
inductive HeaderDag.BlueView (network : HeaderDag) (store : GhostdagStore) :
    Hash → List Hash → Prop where
  | genesis : BlueView network store network.genesis []
  | step {block : Hash} {data : GhostdagRecord} {view : List Hash} :
    block ≠ network.genesis →
    store.data block = some data →
    BlueView network store data.selectedParent view →
    BlueView network store block (view ++ data.mergesetBlues)

/-- Works for which blue work is meaningful: every known block has some, and
the sums stay below the range of the numbers. -/
structure HeaderDag.SoundWork (network : HeaderDag) (store : GhostdagStore) : Prop where
  positive : ∀ block ∈ store.blocks, 0 < network.work block
  bounded : ∀ block view, network.BlueView store block view → (view.map network.work).sum < 2 ^ 192

namespace HeaderDag

variable {network : HeaderDag} {store : GhostdagStore} {block : Hash} {parents : List Hash}
  {data : GhostdagRecord} {blue : Hash}

theorem Coloured.mem_blues (coloured : network.Coloured store parents data)
    (isBlue : blue ∈ data.mergesetBlues) :
    network.InPast parents blue ∧ (network.Below blue data.selectedParent →
      blue = data.selectedParent) := by
  obtain ⟨ordered, blues, isOrdered, areBlues, sublist, -, -⟩ := coloured.split
  rw [areBlues] at isBlue
  rcases mem_cons.mp isBlue with rfl | merged
  · exact ⟨⟨_, coloured.selected_parent, .refl _⟩, fun _ => rfl⟩
  · obtain ⟨inPast, notBelow⟩ := (isOrdered.mem_iff blue).mp (sublist.subset merged)
    exact ⟨inPast, fun below => absurd below notBelow⟩

theorem OrderedMergeset.nodup {ordered : List Hash} {selectedParent : Hash}
    (isOrdered : network.OrderedMergeset store parents selectedParent ordered) : ordered.Nodup := by
  refine isOrdered.ascending.imp ?_
  rintro first _ less rfl
  exact lt_irrefl _ less

theorem Coloured.blues_nodup (coloured : network.Coloured store parents data) :
    data.mergesetBlues.Nodup := by
  obtain ⟨ordered, blues, isOrdered, areBlues, sublist, -, -⟩ := coloured.split
  rw [areBlues, List.nodup_cons]
  refine ⟨fun merged => ?_, isOrdered.nodup.sublist sublist⟩
  exact ((isOrdered.mem_iff _).mp (sublist.subset merged)).2 (.refl _)

variable {view : List Hash}

section

variable (run : network.Run store)
include run

theorem BlueView.inPast (isView : network.BlueView store block view) (isBlue : blue ∈ view) :
    network.InPast (network.parents block) blue := by
  induction isView with
  | genesis => cases isBlue
  | step ne got _ ih =>
    have coloured := run.coloured got ne
    rcases mem_append.mp isBlue with prior | merged
    · obtain ⟨parent, edge, below⟩ := ih prior
      exact ⟨_, coloured.selected_parent, .step edge below⟩
    · exact (coloured.mem_blues merged).1

theorem BlueView.nodup (isView : network.BlueView store block view) : view.Nodup := by
  induction isView with
  | genesis => exact nodup_nil
  | @step block data view ne got prior ih =>
    have coloured := run.coloured got ne
    refine nodup_append.mpr ⟨ih, coloured.blues_nodup, ?_⟩
    rintro blue isEarlier _ merged rfl
    -- An earlier blue is strictly below the selected parent.
    obtain ⟨parent, edge, below⟩ := prior.inPast run isEarlier
    have eq := (coloured.mem_blues merged).2 (.step edge below)
    subst eq
    exact absurd (network.rank_parent _ _ edge) (Nat.not_lt.mpr below.rank_le)

theorem Run.exists_blueView (known : block ∈ store.blocks) :
    ∃ view, network.BlueView store block view := by
  induction block using network.ascend with
  | upwards block ih =>
    by_cases isGenesis : block = network.genesis
    · exact ⟨[], isGenesis ▸ .genesis⟩
    · have stored := run.stored
      obtain ⟨data, got⟩ := stored.exists_data known
      have picked := (run.coloured got isGenesis).selected_parent
      obtain ⟨view, isView⟩ := ih _ picked (stored.known_parent known picked)
      exact ⟨_, .step isGenesis got isView⟩

theorem BlueView.blueScore_eq (isView : network.BlueView store block view)
    (got : store.data block = some data) : data.blueScore.toNat = view.length := by
  induction isView generalizing data with
  | genesis =>
    cases run.stored.genesis_data.symm.trans got
    rfl
  | step ne isData _ ih =>
    cases isData.symm.trans got
    obtain ⟨parentData, isParentData, score, -⟩ := (run.coloured got ne).counted
    rw [score, ih isParentData, length_append]

theorem BlueView.blueWork_eq (isView : network.BlueView store block view)
    (bounded : (view.map network.work).sum < 2 ^ 192) (got : store.data block = some data) :
    data.blueWork = (view.map network.work).sum := by
  induction isView generalizing data with
  | genesis =>
    cases run.stored.genesis_data.symm.trans got
    rfl
  | @step block _ view ne isData _ ih =>
    cases isData.symm.trans got
    obtain ⟨parentData, isParentData, -, work⟩ := (run.coloured got ne).counted
    rw [map_append, sum_append] at bounded ⊢
    rw [work, ih (Nat.lt_of_le_of_lt (Nat.le_add_right _ _) bounded) isParentData]
    exact Nat.mod_eq_of_lt bounded

/-- Works whose sum over all known blocks is in range are sound. -/
theorem Run.soundWork_of_total (pos : ∀ block ∈ store.blocks, 0 < network.work block)
    (total : (store.blocks.map network.work).sum < 2 ^ 192) : network.SoundWork store := by
  refine ⟨pos, fun block view isView => Nat.lt_of_le_of_lt ?_ total⟩
  have known : view ⊆ store.blocks := by
    intro blue isBlue
    obtain ⟨parent, edge, below⟩ := isView.inPast run isBlue
    cases isView with
    | genesis => cases isBlue
    | step _ got _ =>
      exact run.stored.known_below below
        (run.stored.known_parent (run.stored.known_of_data got) edge)
  obtain ⟨sorted, perm, sublist⟩ := subperm_of_subset (isView.nodup run) known
  rw [← (perm.map network.work).sum_eq]
  exact (sublist.map network.work).sum_le_sum fun _ _ => Nat.zero_le _

end

theorem Stored.blueWork_eq (got : store.data block = some data) :
    store.blueWork block = data.blueWork := by
  rw [GhostdagStore.blueWork, got]
  rfl

section

variable (run : network.Run store) (sound : network.SoundWork store)
include run sound

theorem Run.blueWork_lt (got : store.data block = some data) {parent : Hash}
    (edge : parent ∈ network.parents block) : store.blueWork parent < data.blueWork := by
  have ne : block ≠ network.genesis := by
    rintro rfl
    rw [network.genesis_parents] at edge
    cases edge
  have coloured := run.coloured got ne
  have known := run.stored.known_parent (run.stored.known_of_data got) coloured.selected_parent
  obtain ⟨parentData, isData, -⟩ := coloured.counted
  obtain ⟨view, isView⟩ := run.exists_blueView known
  have longer : network.BlueView store block (view ++ data.mergesetBlues) := .step ne got isView
  have bounded := sound.bounded block _ longer
  -- The selected parent is heaviest, and its own work is added.
  have least : store.blueWork parent ≤ store.blueWork data.selectedParent := by
    by_contra heavier
    exact coloured.largest parent edge (SortableBlock.lt_of_blueWork_lt (Nat.lt_of_not_le heavier))
  have added : network.work data.selectedParent ≤ (data.mergesetBlues.map network.work).sum := by
    obtain ⟨_, blues, -, areBlues, -⟩ := coloured.split
    rw [areBlues, map_cons, sum_cons]
    exact Nat.le_add_right _ _
  have pos := sound.positive _ known
  rw [longer.blueWork_eq run bounded got, map_append, sum_append,
    ← isView.blueWork_eq run (sound.bounded _ _ isView) isData, ← Stored.blueWork_eq isData]
  omega

theorem Run.sortable_lt_of_below {lower : Hash} (below : network.Below lower block)
    (known : block ∈ store.blocks) (ne : lower ≠ block) :
    store.sortable lower < store.sortable block := by
  apply SortableBlock.lt_of_blueWork_lt
  refine below.lt_of_monotone store.blueWork ?_ known ne
  intro node isKnown parent edge
  obtain ⟨data, got⟩ := run.stored.exists_data isKnown
  refine ⟨run.stored.known_parent isKnown edge, ?_⟩
  rw [Stored.blueWork_eq got]
  exact run.blueWork_lt sound got edge

end

/-- Blue work and blue score are exact: they sum up the blue blocks in the view
of a block, blue work grows from every parent, and the selected parent is the
largest one by blue work and hash. -/
theorem blueWork_and_blueScore_exact (run : network.Run store) (sound : network.SoundWork store)
    {data : GhostdagRecord} (found : store.data block = some data) :
    (∀ parent ∈ network.parents block, store.blueWork parent < data.blueWork) ∧
      (block ≠ network.genesis → data.selectedParent ∈ network.parents block ∧
        ∀ parent ∈ network.parents block, parent ≠ data.selectedParent →
          store.sortable parent < store.sortable data.selectedParent) ∧
      ∃ view, network.BlueView store block view ∧ view.Nodup ∧ data.blueScore.toNat = view.length ∧
        data.blueWork = (view.map network.work).sum := by
  refine ⟨fun parent edge => run.blueWork_lt sound found edge, fun notGenesis => ?_, ?_⟩
  · have coloured := run.coloured found notGenesis
    refine ⟨coloured.selected_parent, fun parent edge ne => ?_⟩
    exact SortableBlock.lt_of_not_lt (coloured.largest parent edge) ne
  · obtain ⟨view, isView⟩ := run.exists_blueView (run.stored.known_of_data found)
    exact ⟨view, isView, isView.nodup run, isView.blueScore_eq run found,
      isView.blueWork_eq run (sound.bounded block view isView) found⟩

end HeaderDag

/-- Two blocks on the genesis and a block that merges them. -/
def diamondHeaders : List HeaderEntry := [⟨.replicate 32 2, [.replicate 32 1], 0x207FFFFF⟩,
    ⟨.replicate 32 3, [.replicate 32 1], 0x207FFFFF⟩,
    ⟨.replicate 32 4, [.replicate 32 2, .replicate 32 3], 0x207FFFFF⟩]

def diamondNetwork : HeaderDag := HeaderEntry.network (.replicate 32 1) 0x207FFFFF diamondHeaders 2
    (by decide) (by decide)

def diamondStore : GhostdagStore :=
  (diamondNetwork.replay (diamondHeaders.map HeaderEntry.hash)).getD diamondNetwork.initialStore

theorem diamondStore_run : diamondNetwork.Run diamondStore := by
  have replayed : (diamondNetwork.replay (diamondHeaders.map HeaderEntry.hash)).isSome = true := by
    decide +kernel
  obtain ⟨store, isStore⟩ := isSome_iff_exists.mp replayed
  rw [diamondStore, isStore]
  exact run_of_replay isStore

theorem diamondStore_soundWork : diamondNetwork.SoundWork diamondStore := by
  refine diamondStore_run.soundWork_of_total ?_ ?_
  · decide +kernel
  · decide +kernel

/-- The merging block counts its three blues. -/
theorem diamondStore_blueScore :
    ∃ data, diamondStore.data (.replicate 32 4) = some data ∧ data.blueScore = 3 ∧
      ∃ view, diamondNetwork.BlueView diamondStore (.replicate 32 4) view ∧ view.length = 3 ∧
        data.blueWork = (view.map diamondNetwork.work).sum := by
  have score : ((diamondStore.data (.replicate 32 4)).map fun data => data.blueScore) = some 3 := by
    decide +kernel
  obtain ⟨data, got, isThree⟩ := map_eq_some_iff.mp score
  obtain ⟨-, -, view, isView, -, counted, summed⟩ :=
    blueWork_and_blueScore_exact diamondStore_run diamondStore_soundWork got
  refine ⟨data, got, isThree, view, isView, ?_, summed⟩
  rw [← counted, isThree]
  rfl

/-- A chain of two blocks of which the second has the smaller hash, a block
beside them, and a block that merges all. -/
def reversedHeaders (bits : UInt32) : List HeaderEntry :=
  [⟨.replicate 32 3, [.replicate 32 1], bits⟩, ⟨.replicate 32 2, [.replicate 32 3], bits⟩,
    ⟨.replicate 32 4, [.replicate 32 1], bits⟩,
    ⟨.replicate 32 5, [.replicate 32 2, .replicate 32 4], bits⟩]

def reversedNetwork (bits : UInt32) : HeaderDag :=
  HeaderEntry.network (.replicate 32 1) bits (reversedHeaders bits) 2
    (of_decide_eq_true rfl) (by decide)

def reversedStore (bits : UInt32) : GhostdagStore := ((reversedNetwork bits).replay
    ((reversedHeaders bits).map HeaderEntry.hash)).getD (reversedNetwork bits).initialStore

theorem reversedStore_run {bits : UInt32} (replayed : ((reversedNetwork bits).replay
      ((reversedHeaders bits).map HeaderEntry.hash)).isSome = true) :
    (reversedNetwork bits).Run (reversedStore bits) := by
  obtain ⟨store, isStore⟩ := isSome_iff_exists.mp replayed
  rw [reversedStore, isStore]
  exact run_of_replay isStore

end Sophis
