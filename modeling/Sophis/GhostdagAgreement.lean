import Sophis.ConsensusOrder
import Sophis.OptionAgreement

namespace Sophis

open List OptionAgreement

/-!
# The protocol does not depend on the order of arrival

Nodes that learn the blocks of a network in different orders run the protocol on
different stores and with different loop bounds. They record the same of every
block that they know, and put its past into the same order.
-/

namespace GhostdagManager

/-- The stores of two nodes have the same data of the blocks that both know. -/
structure Alike (manager other : GhostdagManager) (shared : Hash → Prop) : Prop where
  genesis_eq : other.genesisHash = manager.genesisHash
  k_eq : other.k = manager.k
  data_agree : ∀ block, Agree (manager.ghostdagStore block) (other.ghostdagStore block)
  data_shared : ∀ block data, manager.ghostdagStore block = some data →
    other.ghostdagStore block = some data →
      shared block ∧ ∀ blue ∈ data.mergesetBlues, shared blue
  ancestor_eq : ∀ block candidate, shared block → shared candidate →
    other.isDagAncestorOf block candidate = manager.isDagAncestorOf block candidate

variable {manager other : GhostdagManager} {shared : Hash → Prop}
  (alike : manager.Alike other shared) {newBlockData : GhostdagRecord} {candidate : Hash}
include alike

theorem Alike.findSize_agree (block : Hash) (fuel otherFuel : Nat) (sizes : HashKTypeMap)
    (chainBlock : Hash) : Agree (manager.findSize block fuel sizes chainBlock)
      (other.findSize block otherFuel sizes chainBlock) := by
  -- Either walk may be the first to run out of fuel.
  induction fuel generalizing otherFuel sizes chainBlock with
  | zero => exact nofun
  | succ fuel ih =>
    cases otherFuel with
    | zero => exact fun _ _ _ => nofun
    | succ otherFuel =>
      rw [findSize, findSize, alike.genesis_eq]
      split
      · exact .refl _
      · exact .ite nofun ((alike.data_agree chainBlock).bind fun _ _ _ => ih otherFuel _ _)

variable (known : shared candidate)
include known

theorem Alike.checkPeers_agree {blues : List Hash} (areShared : ∀ blue ∈ blues, shared blue)
    (progress : ColoringProgress) :
    Agree (manager.checkPeers newBlockData candidate blues progress)
      (other.checkPeers newBlockData candidate blues progress) := by
  induction blues generalizing progress with
  | nil => exact .refl _
  | cons peer rest ih =>
    obtain ⟨isShared, others⟩ := forall_mem_cons.mp areShared
    rw [checkPeers, checkPeers, alike.ancestor_eq peer candidate isShared known, alike.k_eq]
    refine .ite (ih others progress) ((alike.findSize_agree peer _ _ _ _).bind fun size _ _ => ?_)
    refine (Agree.refl _).bind fun _ _ _ => .ite (.refl _) (.ite (.refl _) ?_)
    exact (Agree.refl _).bind fun _ _ _ => ih others _

theorem Alike.checkChain_agree (fuel otherFuel : Nat) {chainHash : Option Hash}
    (chainShared : ∀ hash ∈ chainHash, shared hash) {chainData : GhostdagRecord}
    (areShared : ∀ blue ∈ chainData.mergesetBlues, shared blue) (progress : ColoringProgress) :
    Agree (manager.checkChain newBlockData candidate fuel chainHash chainData progress)
      (other.checkChain newBlockData candidate otherFuel chainHash chainData progress) := by
  induction fuel generalizing otherFuel chainHash chainData progress with
  | zero => exact nofun
  | succ fuel ih =>
    cases otherFuel with
    | zero => exact fun _ _ _ => nofun
    | succ otherFuel =>
      have same : (chainHash.any fun hash => other.isDagAncestorOf hash candidate) =
          chainHash.any fun hash => manager.isDagAncestorOf hash candidate := by
        cases chainHash with
        | none => rfl
        | some hash => exact alike.ancestor_eq hash candidate (chainShared hash rfl) known
      rw [checkChain, checkChain, same]
      refine .ite (.refl _) ?_
      refine (alike.checkPeers_agree known areShared progress).bind fun outcome _ _ => ?_
      cases outcome with
      | none => exact .refl _
      | some next =>
        refine (alike.data_agree _).bind fun data got otherGot => ?_
        obtain ⟨isShared, bluesShared⟩ := alike.data_shared _ data got otherGot
        exact ih otherFuel (by simpa using isShared) bluesShared next

theorem Alike.colourCandidate_agree
    (areShared : ∀ blue ∈ newBlockData.mergesetBlues, shared blue) :
    Agree (manager.colourCandidate newBlockData candidate)
      (other.colourCandidate newBlockData candidate) := by
  rw [colourCandidate, colourCandidate, checkBlueCandidate, checkBlueCandidate, alike.k_eq]
  refine Agree.bind ((Agree.refl _).bind fun _ _ _ => .ite (.refl _) ?_) fun _ _ _ => .refl _
  exact alike.checkChain_agree known _ _ (by simp) areShared _

omit known in
theorem Alike.foldlM_agree {ordered : List Hash}
    (areKnown : ∀ candidate ∈ ordered, shared candidate)
    (areShared : ∀ blue ∈ newBlockData.mergesetBlues, shared blue) :
    Agree (ordered.foldlM manager.colourCandidate newBlockData)
      (ordered.foldlM other.colourCandidate newBlockData) := by
  induction ordered generalizing newBlockData with
  | nil => exact .refl _
  | cons candidate rest ih =>
    obtain ⟨known, others⟩ := forall_mem_cons.mp areKnown
    rw [foldlM_cons, foldlM_cons]
    refine (alike.colourCandidate_agree known areShared).bind fun next coloured _ => ih others ?_
    rcases colourCandidate_cases coloured with ⟨_, _, -, -, rfl⟩ | rfl
    · exact forall_mem_append.mpr ⟨areShared, forall_mem_singleton.mpr known⟩
    · exact areShared

end GhostdagManager

namespace HeaderDag

variable {network : HeaderDag} {store other : GhostdagStore} {block : Hash} {parents : List Hash}

theorem OrderedMergeset.unique {selectedParent : Hash} {ordered otherOrdered : List Hash}
    (isOrdered : network.OrderedMergeset store parents selectedParent ordered)
    (isOther : network.OrderedMergeset other parents selectedParent otherOrdered)
    (same : ∀ block, network.InPast parents block → store.sortable block = other.sortable block) :
    ordered = otherOrdered := by
  refine Perm.eq_of_pairwise (fun _ _ _ _ less greater => absurd greater (lt_asymm less))
    isOrdered.ascending (isOther.ascending.imp_of_mem ?_)
    ((perm_ext_iff_of_nodup isOrdered.nodup isOther.nodup).mpr fun block =>
      (isOrdered.mem_iff block).trans (isOther.mem_iff block).symm)
  intro first second isFirst isSecond less
  rwa [same first ((isOther.mem_iff _).mp isFirst).1,
    same second ((isOther.mem_iff _).mp isSecond).1]

section

variable {service otherService : Hash → Hash → Bool} (run : network.Run store)
  (otherRun : network.Run other) (agree : ∀ block, Agree (store.data block) (other.data block))
  (exact : network.Exact store service) (otherExact : network.Exact other otherService)
include run otherRun agree exact otherExact

/-- Nodes that recorded the same run the protocol on alike stores. -/
theorem Run.alike : (network.manager store service).Alike (network.manager other otherService)
    fun block => block ∈ store.blocks ∧ block ∈ other.blocks where
  genesis_eq := rfl
  k_eq := rfl
  data_agree := agree
  data_shared block data got otherGot := by
    have known := run.stored.known_of_data got
    have otherKnown := otherRun.stored.known_of_data otherGot
    refine ⟨⟨known, otherKnown⟩, fun blue isBlue => ?_⟩
    by_cases isGenesis : block = network.genesis
    · cases (isGenesis ▸ got).symm.trans run.stored.genesis_data
      cases isBlue
    · have inPast := ((run.coloured got isGenesis).mem_blues isBlue).1
      exact ⟨run.stored.known_inPast (run.stored.parents block known isGenesis).2 inPast,
        otherRun.stored.known_inPast (otherRun.stored.parents block otherKnown isGenesis).2 inPast⟩
  ancestor_eq block candidate isShared known :=
    Bool.eq_iff_iff.mpr ((otherExact block isShared.2 candidate known.2).trans
      (exact block isShared.1 candidate known.1).symm)

theorem Run.ghostdag_agree (parentsOf : network.ParentsOf store parents)
    (otherParentsOf : network.ParentsOf other parents) :
    Agree ((network.manager store service).ghostdag parents)
      ((network.manager other otherService).ghostdag parents) := by
  intro data otherData recorded otherRecorded
  obtain ⟨selectedParent, ordered, coloured, parentData, edge, largest, isOrdered, -, folded,
    isData, added, eq⟩ := run.stored.ghostdag_eq exact parentsOf recorded
  obtain ⟨otherSelected, otherOrdered, otherColoured, otherParentData, otherEdge, otherLargest,
    isOtherOrdered, -, otherFolded, isOtherData, otherAdded, otherEq⟩ :=
    otherRun.stored.ghostdag_eq otherExact otherParentsOf otherRecorded
  have known {block : Hash} (inPast : network.InPast parents block) :
      block ∈ store.blocks ∧ block ∈ other.blocks :=
    ⟨run.stored.known_inPast parentsOf inPast, otherRun.stored.known_inPast otherParentsOf inPast⟩
  have sortable_eq {block : Hash} (inPast : network.InPast parents block) :
      store.sortable block = other.sortable block := by
    obtain ⟨data, got⟩ := run.stored.exists_data (known inPast).1
    obtain ⟨otherData, otherGot⟩ := otherRun.stored.exists_data (known inPast).2
    cases agree block data otherData got otherGot
    simp [GhostdagStore.sortable, GhostdagStore.blueWork, got, otherGot]
  have sameParent : otherSelected = selectedParent := by
    by_contra ne
    have less := SortableBlock.lt_of_not_lt (largest _ otherEdge) ne
    rw [sortable_eq ⟨_, edge, .refl _⟩, sortable_eq ⟨_, otherEdge, .refl _⟩] at less
    exact otherLargest _ edge less
  subst sameParent
  cases isOrdered.unique isOtherOrdered fun _ => sortable_eq
  have picked : ∀ blue ∈ [otherSelected], blue ∈ store.blocks ∧ blue ∈ other.blocks :=
    forall_mem_singleton.mpr (known ⟨_, edge, .refl _⟩)
  cases (run.alike otherRun agree exact otherExact).foldlM_agree
    (fun block mem => known ((isOrdered.mem_iff block).mp mem).1) picked _ _ folded otherFolded
  cases agree _ _ _ isData isOtherData
  rw [eq, Option.some.inj (added.symm.trans otherAdded)]
  exact otherEq.symm

end

theorem agree_initialStore (stored : network.Stored other) :
    Agree (network.initialStore.data block) (other.data block) := by
  intro data otherData got otherGot
  rw [initialStore, Option.ite_none_right_eq_some] at got
  obtain ⟨rfl, got⟩ := got
  exact Option.some.inj (got.symm.trans (stored.genesis_data.symm.trans otherGot))

theorem Run.data_agree (run : network.Run store) (otherRun : network.Run other) :
    Agree (store.data block) (other.data block) := by
  induction run generalizing other block with
  | genesis => exact agree_initialStore otherRun.stored
  | @insert store added _ addedData run fresh notOrigin parentsOf exact recorded ih =>
    induction otherRun generalizing block with
    | genesis =>
      have stored := (run.insert fresh notOrigin parentsOf exact recorded).stored
      exact fun _ _ got otherGot => (agree_initialStore stored _ _ otherGot got).symm
    | @insert other otherAdded _ otherData otherRun otherFresh otherNotOrigin otherParentsOf
        otherExact otherRecorded otherIh =>
      by_cases eq : block = added
      · subst eq
        by_cases same : block = otherAdded
        · -- Only a block that both learnt last has two calculations to compare.
          subst same
          rw [store.insert_data_self, other.insert_data_self, ← recorded, ← otherRecorded]
          exact run.ghostdag_agree otherRun (fun _ => ih otherRun) exact otherExact
            parentsOf otherParentsOf
        · rw [other.insert_data_of_ne same]
          exact otherIh
      · rw [store.insert_data_of_ne eq]
        exact ih (otherRun.insert otherFresh otherNotOrigin otherParentsOf otherExact otherRecorded)

theorem consensusOrderedMergeset_agree {first second : Hash → Option GhostdagRecord}
    (agree : ∀ block, Agree (first block) (second block)) (data : GhostdagRecord) :
    Agree (consensusOrderedMergeset first data) (consensusOrderedMergeset second data) := by
  have read := agree_mapM fun block => (agree block).bind fun stored _ _ =>
    .refl (some (SortableBlock.mk block stored.blueWork))
  exact ((read _).bind fun _ _ _ => (read _).bind fun _ _ _ => .refl _).bind fun _ _ _ => .refl _

/-- In whatever order nodes learn blocks, they record the same of every block
that they know, and they put its past into the same order. -/
theorem Run.arrival_order_irrelevant (run : network.Run store) (otherRun : network.Run other) :
    (∀ block, Agree (store.data block) (other.data block)) ∧
      ∀ block order otherOrder, network.ChainOrder store block order →
        network.ChainOrder other block otherOrder → order = otherOrder := by
  have agree (block : Hash) : Agree (store.data block) (other.data block) :=
    run.data_agree otherRun
  refine ⟨agree, fun block order otherOrder isOrder isOther => ?_⟩
  induction isOrder generalizing otherOrder with
  | genesis =>
    cases isOther with
    | genesis => rfl
    | step ne => exact absurd rfl ne
  | step ne got _ merged ih =>
    cases isOther with
    | genesis => exact absurd rfl ne
    | step _ otherGot below otherMerged =>
      cases agree _ _ _ got otherGot
      rw [ih _ below, consensusOrderedMergeset_agree agree _ _ _ merged otherMerged]

end HeaderDag

/-- The sides of the diamond may arrive in either order. -/
theorem diamondNetwork_arrival : ∃ other data,
    diamondNetwork.replay [.replicate 32 3, .replicate 32 2, .replicate 32 4] = some other ∧
      diamondStore.data (.replicate 32 4) = some data ∧
      other.data (.replicate 32 4) = some data := by
  have learnt : ((diamondNetwork.replay [.replicate 32 3, .replicate 32 2,
      .replicate 32 4]).bind fun other => (diamondStore.data (.replicate 32 4)).bind fun _ =>
        (other.data (.replicate 32 4)).map fun _ => ()) = some () := by
    decide +kernel
  obtain ⟨other, replayed, later⟩ := Option.bind_eq_some_iff.mp learnt
  obtain ⟨data, got, last⟩ := Option.bind_eq_some_iff.mp later
  obtain ⟨otherData, otherGot, -⟩ := Option.map_eq_some_iff.mp last
  have same := (diamondStore_run.arrival_order_irrelevant
    (HeaderDag.run_of_replay replayed)).1 _ _ _ got otherGot
  exact ⟨other, data, replayed, got, same ▸ otherGot⟩

end Sophis
