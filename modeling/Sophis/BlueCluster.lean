import Sophis.Coloring

namespace Sophis

open ByteCodec GhostdagManager GhostdagRecord List Option ParentDag

/-!
# The blue blocks of a view form a cluster

The sizes of blue anticones are stored with the chain block that changed them
last. Colouring a candidate reads the sizes of the blues outside its past along
the chain; the candidate becomes blue when none of them is full and they are not
too many. So every blue block of a view has at most `k` other ones in its
anticone, and the sizes that are found along the chain are exact.
-/

/-- A size found in the last map along the chain that has one. -/
inductive HeaderDag.SizeAt (network : HeaderDag) (store : GhostdagStore)
    (block : Hash) : HashKTypeMap → Hash → UInt16 → Prop where
  | here {sizes : HashKTypeMap} {selectedParent : Hash} {size : UInt16} :
    sizes.lookup block = some size →
    SizeAt network store block sizes selectedParent size
  | further {sizes : HashKTypeMap} {selectedParent : Hash}
    {data : GhostdagRecord} {size : UInt16} :
    sizes.lookup block = none →
    selectedParent ≠ network.genesis →
    store.data selectedParent = some data →
    SizeAt network store block data.bluesAnticoneSizes data.selectedParent size →
    SizeAt network store block sizes selectedParent size

namespace HeaderDag

variable {network : HeaderDag} {store : GhostdagStore}
  {service : Hash → Hash → Bool} {block : Hash} {sizes : HashKTypeMap}
  {selectedParent : Hash} {size : UInt16}

theorem SizeAt.unique (first : network.SizeAt store block sizes selectedParent size)
    {other : UInt16} (second : network.SizeAt store block sizes selectedParent other) :
    size = other := by
  induction first with
  | here got =>
    cases second with
    | here alsoFound => exact Option.some.inj (got.symm.trans alsoFound)
    | further missing => cases got.symm.trans missing
  | further missing _ isData _ ih =>
    cases second with
    | here got => cases missing.symm.trans got
    | further _ _ alsoData further =>
      cases isData.symm.trans alsoData
      exact ih further

theorem SizeAt.congr (sizeAt : network.SizeAt store block sizes selectedParent size)
    {others : HashKTypeMap} (eq : others.lookup block = sizes.lookup block) :
    network.SizeAt store block others selectedParent size := by
  cases sizeAt with
  | here got => exact .here (eq.trans got)
  | further missing ne isData further =>
    exact .further (eq.trans missing) ne isData further

/-- The number of known blocks up to the rank of a block. -/
def rankCount (network : HeaderDag) (store : GhostdagStore) (block : Hash) : Nat :=
  (store.blocks.filter fun other => network.rank other ≤ network.rank block).length

theorem rankCount_lt (known : block ∈ store.blocks) {parent : Hash}
    (edge : parent ∈ network.parents block) :
    network.rankCount store parent < network.rankCount store block := by
  have smaller := network.rank_parent block parent edge
  have split : (store.blocks.filter fun other =>
      network.rank other ≤ network.rank parent) = (store.blocks.filter fun other =>
        network.rank other ≤ network.rank block).filter fun other =>
          network.rank other ≤ network.rank parent := by
    rw [List.filter_filter]
    refine filter_congr fun other _ => ?_
    rw [← Bool.decide_and, decide_eq_decide]
    omega
  rw [rankCount, split, rankCount, length_filter_lt_length_iff_exists]
  refine ⟨block, mem_filter.mpr ⟨known, by simp⟩, ?_⟩
  simpa using smaller

theorem rankCount_le (block : Hash) : network.rankCount store block ≤ store.blocks.length :=
  length_filter_le _ _

theorem SizeAt.findSize_eq (run : network.Run store)
    (sizeAt : network.SizeAt store block sizes selectedParent size) {fuel : Nat}
    (enough : network.rankCount store selectedParent < fuel) :
    (network.manager store service).findSize block fuel sizes selectedParent = some size := by
  induction sizeAt generalizing fuel with
  | here got =>
    obtain ⟨fuel, rfl⟩ := Nat.exists_eq_succ_of_ne_zero
      (Nat.ne_of_gt (Nat.lt_of_le_of_lt (Nat.zero_le _) enough))
    rw [findSize, got]
  | @further sizes selectedParent data size missing ne isData _
    ih =>
    obtain ⟨fuel, rfl⟩ := Nat.exists_eq_succ_of_ne_zero
      (Nat.ne_of_gt (Nat.lt_of_le_of_lt (Nat.zero_le _) enough))
    have known := run.stored.known_of_data isData
    have notOrigin := run.stored.known_ne_origin known
    have picked := (run.coloured isData ne).selected_parent
    have fewer := rankCount_lt known picked
    have read : (network.manager store service).ghostdagStore selectedParent = some data := isData
    have notEnd : ¬ (selectedParent = (network.manager store service).genesisHash ∨
        selectedParent = blockHashOrigin) :=
      not_or.mpr ⟨ne, notOrigin⟩
    rw [findSize, missing]
    simp only [if_neg notEnd, read, bind_eq_bind, bind_some]
    exact ih (by omega)

theorem SizeAt.insert (kept : network.Stored store)
    (sizeAt : network.SizeAt store block sizes selectedParent size) {added : Hash}
    (fresh : added ∉ store.blocks) (data : GhostdagRecord) :
    network.SizeAt (store.insert added data) block sizes selectedParent size := by
  induction sizeAt with
  | here got => exact .here got
  | further missing notGenesis isData _ ih =>
    have ne := ne_of_mem_of_not_mem (kept.known_of_data isData) fresh
    exact .further missing notGenesis ((store.insert_data_of_ne ne data).trans isData) ih

end HeaderDag

theorem GhostdagRecord.lookup_raiseSizes {entries : List (Sigma fun _ : Hash => UInt16)}
    {sizes next : HashKTypeMap} (nodup : entries.NodupKeys)
    (raised : raiseSizes sizes entries = some next) (blue : Hash) :
    next.lookup blue = ((entries.dlookup blue).map fun size => size + 1).or
      (sizes.lookup blue) := by
  induction entries generalizing sizes with
  | nil =>
    cases Option.some.inj raised
    rfl
  | cons entry rest ih =>
    obtain ⟨first, size⟩ := entry
    obtain ⟨notLater, restNodup⟩ := nodupKeys_cons.mp nodup
    rw [raiseSizes] at raised
    split at raised
    · rw [ih restNodup raised]
      by_cases eq : blue = first
      · subst eq
        rw [dlookup_eq_none.mpr notLater, AList.lookup_insert, dlookup_cons_eq]
        rfl
      · rw [AList.lookup_insert_ne eq, dlookup_cons_ne _ _ eq]
    · cases raised

section

variable {manager : GhostdagManager} {newBlockData : GhostdagRecord} {candidate : Hash}

/-- What a candidate has collected of the blues outside its past. -/
structure ColoringProgress.Collected (manager : GhostdagManager)
    (newBlockData : GhostdagRecord) (peers : List Hash)
    (progress : ColoringProgress) : Prop where
  lookup : ∀ blue, progress.candidateBluesAnticoneSizes.lookup blue =
    if blue ∈ peers then manager.blueAnticoneSize blue newBlockData else none
  size : progress.candidateBlueAnticoneSize.toNat = peers.length
  few : peers.length ≤ manager.k.toNat
  room : ∀ blue ∈ peers, ∃ size, manager.blueAnticoneSize blue newBlockData = some size ∧
    size.toNat < manager.k.toNat

theorem ColoringProgress.collected_empty :
    ColoringProgress.Collected manager newBlockData [] ⟨∅, 0⟩ where
  lookup _ := rfl
  size := rfl
  few := Nat.zero_le _
  room _ mem := absurd mem not_mem_nil

theorem ColoringProgress.Collected.insert {peers : List Hash} {progress : ColoringProgress}
    (collected : progress.Collected manager newBlockData peers) {peer : Hash} {peerSize : UInt16}
    (got : manager.blueAnticoneSize peer newBlockData = some peerSize)
    (fits : progress.candidateBlueAnticoneSize.toNat + 1 < 2 ^ 16)
    (few : ¬ manager.k < progress.candidateBlueAnticoneSize + 1) (notFull : peerSize ≠ manager.k)
    (atMost : peerSize ≤ manager.k) :
    ColoringProgress.Collected manager newBlockData (peers ++ [peer]) {
      candidateBluesAnticoneSizes := progress.candidateBluesAnticoneSizes.insert peer peerSize
      candidateBlueAnticoneSize := progress.candidateBlueAnticoneSize + 1 } := by
  have increased : (progress.candidateBlueAnticoneSize + 1).toNat =
      progress.candidateBlueAnticoneSize.toNat + 1 := by
    rw [UInt16.toNat_add]
    exact Nat.mod_eq_of_lt fits
  have total : (peers ++ [peer]).length = progress.candidateBlueAnticoneSize.toNat + 1 := by
    rw [length_append, collected.size]
    rfl
  refine ⟨fun blue => ?_, ?_, ?_, fun blue isPeer => ?_⟩
  · by_cases eq : blue = peer
    · subst eq
      rw [AList.lookup_insert, if_pos (by simp), got]
    · rw [AList.lookup_insert_ne eq, collected.lookup]
      simp [eq]
  · rw [increased, total]
  · rw [total, ← increased]
    exact UInt16.not_lt.mp few
  · rcases mem_append.mp isPeer with earlier | isLast
    · exact collected.room blue earlier
    · rw [mem_singleton.mp isLast]
      refine ⟨peerSize, got, Nat.lt_of_le_of_ne atMost fun eq => ?_⟩
      exact notFull (UInt16.toNat_inj.mp eq)

variable {peers : List Hash} {progress : ColoringProgress}
  (collected : progress.Collected manager newBlockData peers)
include collected

theorem ColoringProgress.Collected.checkPeers {blues : List Hash} {next : ColoringProgress}
    (ok : manager.checkPeers newBlockData candidate blues progress = some (some next)) :
    next.Collected manager newBlockData (peers ++ blues.filter fun blue =>
      ¬ manager.isDagAncestorOf blue candidate) := by
  induction blues generalizing peers progress with
  | nil =>
    cases Option.some.inj (Option.some.inj ok)
    simpa using collected
  | cons peer rest ih =>
    rw [checkPeers] at ok
    split at ok
    · next inPast =>
      rw [filter_cons_of_neg (by simpa using inPast)]
      exact ih collected ok
    · next notInPast =>
      simp only [bind_eq_bind, bind_eq_some_iff, guard_eq_some'] at ok
      obtain ⟨peerSize, got, _, fits, ok⟩ := ok
      rw [filter_cons_of_pos (by simpa using notInPast), append_cons]
      split at ok
      · cases ok
      · next few =>
        split at ok
        · cases ok
        · next notFull =>
          simp only [bind_eq_some_iff, guard_eq_some'] at ok
          obtain ⟨_, atMost, ok⟩ := ok
          exact ih (collected.insert got fits few notFull atMost) ok

theorem ColoringProgress.Collected.lookup_raiseSizes (notPeer : candidate ∉ peers)
    {sizes : HashKTypeMap}
    (raised : GhostdagRecord.raiseSizes (newBlockData.bluesAnticoneSizes.insert candidate
        progress.candidateBlueAnticoneSize)
      progress.candidateBluesAnticoneSizes.entries = some sizes) (blue : Hash) :
    sizes.lookup blue = if blue = candidate then
        some progress.candidateBlueAnticoneSize
      else if blue ∈ peers then
        (manager.blueAnticoneSize blue newBlockData).map fun size => size + 1
      else
        newBlockData.bluesAnticoneSizes.lookup blue := by
  have lookup := GhostdagRecord.lookup_raiseSizes
    progress.candidateBluesAnticoneSizes.nodupKeys raised blue
  change _ = ((progress.candidateBluesAnticoneSizes.lookup blue).map _).or _ at lookup
  rw [lookup, collected.lookup]
  by_cases isCandidate : blue = candidate
  · subst isCandidate
    rw [if_neg notPeer, if_pos rfl, AList.lookup_insert]
    rfl
  · rw [if_neg isCandidate, AList.lookup_insert_ne isCandidate]
    by_cases isPeer : blue ∈ peers
    · obtain ⟨size, got, -⟩ := collected.room blue isPeer
      rw [if_pos isPeer, if_pos isPeer, got]
      rfl
    · rw [if_neg isPeer, if_neg isPeer]
      rfl

end

namespace HeaderDag

variable {network : HeaderDag} {store : GhostdagStore}
  {service : Hash → Hash → Bool} {newBlockData : GhostdagRecord}
  {candidate : Hash}

/-- The blues that are not in the past of a candidate. -/
def outside (network : HeaderDag) (candidate : Hash) (blues : List Hash) : List Hash :=
  blues.filter fun blue => ¬ network.Below blue candidate

theorem outside_append (candidate : Hash) (first second : List Hash) :
    network.outside candidate (first ++ second) =
      network.outside candidate first ++ network.outside candidate second :=
  filter_append first second

variable {blues : List Hash}

theorem outside_eq_nil (inPast : ∀ blue ∈ blues, network.Below blue candidate) :
    network.outside candidate blues = [] := by
  refine filter_eq_nil_iff.mpr fun blue isBlue => ?_
  simpa using inPast blue isBlue

theorem outside_eq_filter (exact : network.Exact store service) (known : candidate ∈ store.blocks)
    (areKnown : ∀ blue ∈ blues, blue ∈ store.blocks) :
    (blues.filter fun blue =>
      ¬ (network.manager store service).isDagAncestorOf blue candidate) =
        network.outside candidate blues := by
  refine filter_congr fun blue isBlue => ?_
  rw [decide_eq_decide]
  exact not_congr (exact blue (areKnown blue isBlue) candidate known)

theorem Coloured.known_blue (kept : network.Stored store) {parents : List Hash}
    (parentsOf : network.ParentsOf store parents) {data : GhostdagRecord}
    (coloured : network.Coloured store parents data) {blue : Hash}
    (isBlue : blue ∈ data.mergesetBlues) : blue ∈ store.blocks :=
  kept.known_inPast parentsOf (coloured.mem_blues isBlue).1

variable {progress : ColoringProgress} (run : network.Run store)
  (exact : network.Exact store service) (known : candidate ∈ store.blocks)
include run exact known

theorem BlueView.checkChain {chainBlock : Hash} {view : List Hash}
    (isView : network.BlueView store chainBlock view) {fuel : Nat} {chainData : GhostdagRecord}
    (got : store.data chainBlock = some chainData) {peers : List Hash} {next : ColoringProgress}
    (collected : progress.Collected (network.manager store service) newBlockData peers)
    (ok : (network.manager store service).checkChain newBlockData
      candidate fuel (some chainBlock) chainData progress = some (some next)) :
    ∃ collectedPeers, collectedPeers.Perm (network.outside candidate view) ∧
      next.Collected (network.manager store service) newBlockData (peers ++ collectedPeers) := by
  have kept := run.stored
  -- A chain block in the past of the candidate has its whole view there.
  have stops {block : Hash} {blues : List Hash} (view : network.BlueView store block blues)
      (below : network.Below block candidate) :
      network.outside candidate blues = [] := by
    refine outside_eq_nil fun blue isBlue => ?_
    obtain ⟨parent, edge, further⟩ := view.inPast run isBlue
    exact .trans (.step edge further) below
  induction isView generalizing fuel chainData peers progress with
  | genesis =>
    cases fuel with
    | zero => cases ok
    | succ fuel =>
      have below := kept.genesis_below known
      have inPast : (network.manager store service).isDagAncestorOf
          network.genesis candidate = true :=
        (exact _ kept.genesis_known _ known).mpr below
      rw [checkChain, any_some, if_pos inPast] at ok
      cases Option.some.inj (Option.some.inj ok)
      refine ⟨[], .of_eq (stops .genesis below).symm, ?_⟩
      rw [append_nil]
      exact collected
  | @step block data view ne isData isView ih =>
    cases isData.symm.trans got
    have blockKnown := kept.known_of_data got
    cases fuel with
    | zero => cases ok
    | succ fuel =>
      rw [checkChain, any_some] at ok
      split at ok
      · next inPast =>
        have below := (exact _ blockKnown _ known).mp inPast
        cases Option.some.inj (Option.some.inj ok)
        refine ⟨[], .of_eq (stops (.step ne got isView) below).symm, ?_⟩
        rw [append_nil]
        exact collected
      · have coloured := run.coloured got ne
        have parentsOf := (kept.parents block blockKnown ne).2
        rw [bind_eq_bind, bind_eq_some_iff] at ok
        obtain ⟨outcome, peersChecked, ok⟩ := ok
        cases outcome with
        | none => cases ok
        | some mid =>
          have middleCollected := collected.checkPeers peersChecked
          rw [outside_eq_filter exact known fun blue isBlue =>
            coloured.known_blue kept parentsOf isBlue]
            at middleCollected
          simp only [bind_eq_bind, bind_eq_some_iff] at ok
          obtain ⟨parentData, isParentData, ok⟩ := ok
          obtain ⟨lower, perm, nextCollected⟩ := ih isParentData middleCollected ok
          rw [append_assoc] at nextCollected
          refine ⟨_, ?_, nextCollected⟩
          rw [outside_append]
          exact (perm.append_left _).trans perm_append_comm

/-- A candidate that passes has collected all blues outside its past. -/
theorem BlueView.checkBlueCandidate {earlier : List Hash}
    (isView : network.BlueView store newBlockData.selectedParent earlier)
    (areKnown : ∀ blue ∈ newBlockData.mergesetBlues, blue ∈ store.blocks)
    (ok : (network.manager store service).checkBlueCandidate newBlockData
      candidate = some (some progress)) :
    ∃ peers, peers.Perm (network.outside candidate (earlier ++ newBlockData.mergesetBlues)) ∧
      progress.Collected (network.manager store service) newBlockData peers := by
  obtain ⟨-, -, walked⟩ := GhostdagManager.checkBlueCandidate_eq_blue ok
  rw [GhostdagManager.checkChain, any_none, if_neg Bool.false_ne_true,
    bind_eq_bind, bind_eq_some_iff] at walked
  obtain ⟨outcome, peersChecked, walked⟩ := walked
  cases outcome with
  | none => cases walked
  | some mid =>
    have collected := ColoringProgress.collected_empty.checkPeers peersChecked
    rw [outside_eq_filter exact known areKnown, nil_append] at collected
    simp only [bind_eq_bind, bind_eq_some_iff] at walked
    obtain ⟨parentData, isParentData, walked⟩ := walked
    obtain ⟨lower, perm, nextCollected⟩ :=
      isView.checkChain run exact known isParentData collected walked
    refine ⟨_, ?_, nextCollected⟩
    rw [outside_append]
    exact (perm.append_left _).trans perm_append_comm

end HeaderDag

namespace HeaderDag

/-- The sizes along the chain of a record are exact for the blues of its view,
and no blue has too many in its anticone. -/
structure Counted (network : HeaderDag) (store : GhostdagStore)
    (data : GhostdagRecord) (view : List Hash) : Prop where
  own : ∀ blue ∈ data.mergesetBlues, (data.bluesAnticoneSizes.lookup blue).isSome = true
  exact : ∀ blue ∈ view, ∃ size,
    network.SizeAt store blue data.bluesAnticoneSizes data.selectedParent size ∧
      size.toNat = network.anticoneCount view blue
  cluster : ∀ blue ∈ view, network.anticoneCount view blue ≤ network.k.toNat

variable {network : HeaderDag} {store : GhostdagStore} {service : Hash → Hash → Bool}
  {data : GhostdagRecord} {earlier : List Hash} {candidate : Hash} {view : List Hash} {blue : Hash}

theorem Counted.blueAnticoneSize (run : network.Run store) (service : Hash → Hash → Bool)
    (counted : network.Counted store data view) (isBlue : blue ∈ view) :
    ∃ size, (network.manager store service).blueAnticoneSize blue data = some size ∧
      size.toNat = network.anticoneCount view blue := by
  obtain ⟨size, sizeAt, isCount⟩ := counted.exact blue isBlue
  refine ⟨size, sizeAt.findSize_eq run ?_, isCount⟩
  exact Nat.lt_succ_of_le (rankCount_le data.selectedParent)

theorem length_outside_eq (later : ∀ blue ∈ view, ¬ network.Below candidate blue) :
    (network.outside candidate view).length = network.anticoneCount view candidate := by
  rw [outside, Dag.anticoneCount, ← countP_eq_length_filter]
  refine countP_congr fun blue isBlue => ?_
  simp [Dag.Anticone, later blue isBlue]

variable {peers : List Hash} {progress : ColoringProgress}

theorem Counted.raised_peer (run : network.Run store) (counted : network.Counted store data view)
    (collected : progress.Collected (network.manager store service) data peers)
    (isBlue : blue ∈ view) (isPeer : blue ∈ peers) :
    ∃ size, ((network.manager store service).blueAnticoneSize blue data).map
        (fun size => size + 1) = some size ∧
      size.toNat = network.anticoneCount view blue + 1 ∧
      size.toNat ≤ network.k.toNat := by
  obtain ⟨size, got, room⟩ := collected.room blue isPeer
  obtain ⟨_, alsoFound, isCount⟩ := counted.blueAnticoneSize run service isBlue
  cases got.symm.trans alsoFound
  have small : network.k.toNat < 2 ^ 16 := network.k.toNat_lt
  change size.toNat < network.k.toNat at room
  have increased : (size + 1).toNat = size.toNat + 1 := by
    rw [UInt16.toNat_add]
    exact Nat.mod_eq_of_lt (Nat.lt_of_le_of_lt room small)
  refine ⟨size + 1, ?_, ?_, ?_⟩
  · rw [got]
    rfl
  · rw [increased, isCount]
  · rw [increased]
    exact room

theorem Counted.addBlue (run : network.Run store)
    (counted : network.Counted store data (earlier ++ data.mergesetBlues))
    (later : ∀ blue ∈ earlier ++ data.mergesetBlues, ¬ network.Below candidate blue)
    (perm : peers.Perm (network.outside candidate (earlier ++ data.mergesetBlues)))
    (collected : progress.Collected (network.manager store service) data peers)
    {sizes : HashKTypeMap}
    (raised : raiseSizes (data.bluesAnticoneSizes.insert candidate
        progress.candidateBlueAnticoneSize)
      progress.candidateBluesAnticoneSizes.entries = some sizes) :
    network.Counted store { data with
        mergesetBlues := data.mergesetBlues ++ [candidate]
        bluesAnticoneSizes := sizes }
      (earlier ++ (data.mergesetBlues ++ [candidate])) := by
  have isPeer {blue : Hash} : blue ∈ peers ↔ blue ∈ earlier ++ data.mergesetBlues ∧
      ¬ network.Below blue candidate := by
    rw [perm.mem_iff, outside, mem_filter, decide_eq_true_iff]
  have lookup := collected.lookup_raiseSizes (fun mem =>
    later candidate (isPeer.mp mem).1 (.refl candidate)) raised
  have count (blue : Hash) : network.anticoneCount
      (earlier ++ (data.mergesetBlues ++ [candidate])) blue =
        network.anticoneCount (earlier ++ data.mergesetBlues) blue +
          if network.Anticone blue candidate then 1 else 0 := by
    rw [← append_assoc, Dag.anticoneCount_append, Dag.anticoneCount_singleton]
  have exact : ∀ blue ∈ earlier ++ (data.mergesetBlues ++ [candidate]),
      ∃ size, network.SizeAt store blue sizes data.selectedParent size ∧
        size.toNat = network.anticoneCount (earlier ++ (data.mergesetBlues ++ [candidate])) blue ∧
        size.toNat ≤ network.k.toNat := by
    intro blue isBlue
    rw [← append_assoc] at isBlue
    rw [count]
    by_cases isCandidate : blue = candidate
    · -- The candidate has its peers in its anticone.
      subst isCandidate
      refine ⟨_, .here ((lookup blue).trans (if_pos rfl)), ?_,
        collected.size.trans_le collected.few⟩
      rw [collected.size, perm.length_eq, length_outside_eq later,
        if_neg fun apart => apart.1 (.refl blue)]
      rfl
    · have old : blue ∈ earlier ++ data.mergesetBlues :=
        (mem_append.mp isBlue).resolve_right fun isLast =>
          isCandidate (mem_singleton.mp isLast)
      have isLookup := (lookup blue).trans (if_neg isCandidate)
      by_cases mem : blue ∈ peers
      · obtain ⟨size, got, isCount, few⟩ := counted.raised_peer run collected old mem
        rw [if_pos mem] at isLookup
        refine ⟨size, .here (isLookup.trans got), ?_, few⟩
        rw [isCount, if_pos ⟨(isPeer.mp mem).2, later blue old⟩]
      · obtain ⟨size, sizeAt, isCount⟩ := counted.exact blue old
        rw [if_neg mem] at isLookup
        refine ⟨size, sizeAt.congr isLookup, ?_, isCount.trans_le (counted.cluster blue old)⟩
        rw [isCount, if_neg fun apart => mem (isPeer.mpr ⟨old, apart.1⟩)]
        rfl
  refine ⟨fun blue isBlue => ?_, fun blue isBlue => ?_, fun blue isBlue => ?_⟩
  · rw [lookup]
    split
    · rfl
    · next notCandidate =>
      have old : blue ∈ data.mergesetBlues :=
        (mem_append.mp isBlue).resolve_right fun isLast =>
          notCandidate (mem_singleton.mp isLast)
      split
      · next mem =>
        obtain ⟨size, got, -⟩ := collected.room blue mem
        rw [got]
        rfl
      · exact counted.own blue old
  · obtain ⟨size, sizeAt, isCount, -⟩ := exact blue isBlue
    exact ⟨size, sizeAt, isCount⟩
  · obtain ⟨size, -, isCount, few⟩ := exact blue isBlue
    exact isCount ▸ few

theorem Counted.addRed (counted : network.Counted store data view) (red : Hash) :
    network.Counted store (data.addRed red) view :=
  ⟨counted.own, counted.exact, counted.cluster⟩

/-- A record in the middle of its colouring: the remaining candidates stand in
topological order and none is in the past of a blue of the view. -/
structure Colouring (network : HeaderDag) (store : GhostdagStore)
    (earlier : List Hash) (data : GhostdagRecord) (candidates : List Hash) :
    Prop where
  view : network.BlueView store data.selectedParent earlier
  known_blue : ∀ blue ∈ data.mergesetBlues, blue ∈ store.blocks
  known : ∀ candidate ∈ candidates, candidate ∈ store.blocks
  ordered : candidates.Pairwise fun first second => ¬ network.Below second first
  later : ∀ candidate ∈ candidates,
    ∀ blue ∈ earlier ++ data.mergesetBlues, ¬ network.Below candidate blue
  counted : network.Counted store data (earlier ++ data.mergesetBlues)

variable {next : GhostdagRecord}

section

variable (run : network.Run store) (exact : network.Exact store service)
include run exact

theorem Colouring.colourCandidate {rest : List Hash}
    (colouring : network.Colouring store earlier data (candidate :: rest))
    (coloured : (network.manager store service).colourCandidate data candidate = some next) :
    network.Colouring store earlier next rest := by
  obtain ⟨candidateFirst, restOrdered⟩ := pairwise_cons.mp colouring.ordered
  obtain ⟨candidateKnown, restKnown⟩ := forall_mem_cons.mp colouring.known
  obtain ⟨candidateLater, restLater⟩ := forall_mem_cons.mp colouring.later
  rcases colourCandidate_cases coloured with
    ⟨progress, sizes, ok, raised, rfl⟩ | rfl
  · obtain ⟨peers, perm, collected⟩ := colouring.view.checkBlueCandidate run
      exact candidateKnown colouring.known_blue ok
    refine ⟨colouring.view, ?_, restKnown, restOrdered, ?_,
      colouring.counted.addBlue run candidateLater perm collected raised⟩
    · exact forall_mem_append.mpr ⟨colouring.known_blue, forall_mem_singleton.mpr candidateKnown⟩
    · intro further isFurther blue isBlue
      rw [← append_assoc] at isBlue
      rcases mem_append.mp isBlue with old | isLast
      · exact restLater further isFurther blue old
      · exact mem_singleton.mp isLast ▸ candidateFirst further isFurther
  · exact ⟨colouring.view, colouring.known_blue, restKnown, restOrdered,
      restLater, colouring.counted.addRed candidate⟩

theorem Colouring.foldlM {candidates : List Hash}
    (colouring : network.Colouring store earlier data candidates)
    (folded : candidates.foldlM (network.manager store service).colourCandidate data = some next) :
    network.Counted store next (earlier ++ next.mergesetBlues) := by
  induction candidates generalizing data with
  | nil =>
    cases Option.some.inj folded
    exact colouring.counted
  | cons candidate rest ih =>
    rw [foldlM_cons, bind_eq_bind, bind_eq_some_iff] at folded
    obtain ⟨mid, coloured, folded⟩ := folded
    exact ih (colouring.colourCandidate run exact coloured) folded

end

variable {parents : List Hash} {selectedParent : Hash} {ordered : List Hash}

section

variable (run : network.Run store)
include run

theorem OrderedMergeset.past_first (sound : network.SoundWork store)
    (parentsOf : network.ParentsOf store parents)
    (isOrdered : network.OrderedMergeset store parents selectedParent ordered) :
    ordered.Pairwise fun first second => ¬ network.Below second first := by
  refine isOrdered.ascending.imp_of_mem ?_
  intro first second isFirst _ less below
  have known := run.stored.known_inPast parentsOf ((isOrdered.mem_iff first).mp isFirst).1
  refine lt_asymm less (run.sortable_lt_of_below sound below known ?_)
  rintro rfl
  exact lt_irrefl _ less

variable (isView : network.BlueView store selectedParent earlier)
  (counted : ∀ parentData, store.data selectedParent = some parentData →
    network.Counted store parentData earlier)
include isView counted

theorem Counted.initial :
    network.Counted store (.uncoloured selectedParent) (earlier ++ [selectedParent]) := by
  have inPast {blue : Hash} (isBlue : blue ∈ earlier) :
      network.Below blue selectedParent ∧ blue ≠ selectedParent := by
    obtain ⟨parent, edge, below⟩ := isView.inPast run isBlue
    refine ⟨.step edge below, ?_⟩
    rintro rfl
    exact absurd (network.rank_parent _ _ edge) (Nat.not_lt.mpr below.rank_le)
  have count {blue : Hash} (below : network.Below blue selectedParent) :
      network.anticoneCount (earlier ++ [selectedParent]) blue =
        network.anticoneCount earlier blue := by
    rw [Dag.anticoneCount_append, Dag.anticoneCount_singleton, if_neg fun apart => apart.1 below]
    rfl
  have apartFromNone : network.anticoneCount earlier selectedParent = 0 :=
    Dag.anticoneCount_eq_zero fun blue isBlue apart => apart.2 (inPast isBlue).1
  have selectedLookup : ((∅ : HashKTypeMap).insert selectedParent 0).lookup
      selectedParent = some 0 :=
    AList.lookup_insert _
  refine ⟨fun blue isBlue => ?_, fun blue isBlue => ?_, fun blue isBlue => ?_⟩
  · rw [mem_singleton.mp isBlue, selectedLookup]
    rfl
  · rcases mem_append.mp isBlue with old | isLast
    · -- The sizes of earlier blues are those of the selected parent.
      obtain ⟨below, ne⟩ := inPast old
      rw [count below]
      cases isView with
      | genesis => cases old
      | step notGenesis got _ =>
        obtain ⟨size, sizeAt, isCount⟩ := (counted _ got).exact blue old
        have missing : ((∅ : HashKTypeMap).insert selectedParent 0).lookup blue = none :=
          AList.lookup_insert_ne ne
        exact ⟨size, .further missing notGenesis got sizeAt, isCount⟩
    · rw [mem_singleton.mp isLast, count (.refl _), apartFromNone]
      exact ⟨0, .here selectedLookup, rfl⟩
  · rcases mem_append.mp isBlue with old | isLast
    · rw [count (inPast old).1]
      cases isView with
      | genesis => cases old
      | step notGenesis got _ => exact (counted _ got).cluster blue old
    · rw [mem_singleton.mp isLast, count (.refl _), apartFromNone]
      exact Nat.zero_le _

theorem Colouring.initial (sound : network.SoundWork store)
    (parentsOf : network.ParentsOf store parents) (edge : selectedParent ∈ parents)
    (isOrdered : network.OrderedMergeset store parents selectedParent ordered) :
    network.Colouring store earlier (.uncoloured selectedParent) ordered where
  view := isView
  known_blue _ isBlue := mem_singleton.mp isBlue ▸ parentsOf.known _ edge
  known candidate isCandidate := run.stored.known_inPast parentsOf
    ((isOrdered.mem_iff candidate).mp isCandidate).1
  ordered := isOrdered.past_first run sound parentsOf
  later := by
    -- All blues so far are in the inclusive past of the selected parent.
    intro candidate isCandidate blue isBlue below
    refine ((isOrdered.mem_iff candidate).mp isCandidate).2 (below.trans ?_)
    rcases mem_append.mp isBlue with old | isLast
    · obtain ⟨parent, edge, further⟩ := isView.inPast run old
      exact .step edge further
    · exact mem_singleton.mp isLast ▸ .refl _
  counted := .initial run isView counted

end

theorem Counted.insert (kept : network.Stored store) {view : List Hash}
    (counted : network.Counted store data view) {added : Hash} (fresh : added ∉ store.blocks)
    (addedData : GhostdagRecord) : network.Counted (store.insert added addedData) data view := by
  refine ⟨counted.own, fun blue isBlue => ?_, counted.cluster⟩
  obtain ⟨size, sizeAt, isCount⟩ := counted.exact blue isBlue
  exact ⟨size, sizeAt.insert kept fresh addedData, isCount⟩

theorem Counted.ghostdag (run : network.Run store) (sound : network.SoundWork store)
    (exact : network.Exact store service) (parentsOf : network.ParentsOf store parents)
    (recorded : (network.manager store service).ghostdag parents = some data)
    (isView : network.BlueView store data.selectedParent earlier)
    (counted : ∀ parentData, store.data data.selectedParent = some parentData →
      network.Counted store parentData earlier) :
    network.Counted store data (earlier ++ data.mergesetBlues) := by
  have kept := run.stored
  obtain ⟨selectedParent, ordered, coloured, parentData, edge, -,
    isOrdered, -, folded, -, -, isRecorded⟩ :=
    kept.ghostdag_eq exact parentsOf recorded
  obtain ⟨-, blues, reds, split⟩ := split_of_foldlM folded (Nat.le_add_left 1 _)
  have picked : data.selectedParent = selectedParent := by
    rw [isRecorded]
    exact split.selected_parent
  rw [picked] at isView counted
  have colouredCounted := (Colouring.initial run isView counted sound parentsOf
    edge isOrdered).foldlM run exact folded
  rw [isRecorded]
  exact ⟨colouredCounted.own, colouredCounted.exact, colouredCounted.cluster⟩

variable {added block : Hash}

theorem Run.blueView_insert_iff (run : network.Run store) (fresh : added ∉ store.blocks)
    (addedData : GhostdagRecord) (known : block ∈ store.blocks) :
    network.BlueView (store.insert added addedData) block view ↔
      network.BlueView store block view := by
  have old {other : Hash} (known : other ∈ store.blocks) :
      (store.insert added addedData).data other = store.data other :=
    store.insert_data_of_ne (ne_of_mem_of_not_mem known fresh) addedData
  have picked {other : Hash} {data : GhostdagRecord}
      (known : other ∈ store.blocks) (ne : other ≠ network.genesis)
      (got : store.data other = some data) :
      data.selectedParent ∈ store.blocks :=
    run.stored.known_parent known (run.coloured got ne).selected_parent
  constructor
  · intro isView
    induction isView with
    | genesis => exact .genesis
    | step ne got _ ih =>
      rw [old known] at got
      exact .step ne got (ih (picked known ne got))
  · intro isView
    induction isView with
    | genesis => exact .genesis
    | step ne got _ ih =>
      exact .step ne ((old known).trans got) (ih (picked known ne got))

theorem BlueView.known (kept : network.Stored store) (isView : network.BlueView store block view) :
    block ∈ store.blocks := by
  cases isView with
  | genesis => exact kept.genesis_known
  | step _ got _ => exact kept.known_of_data got

theorem SoundWork.of_insert (run : network.Run store) (fresh : added ∉ store.blocks)
    {addedData : GhostdagRecord} (sound : network.SoundWork (store.insert added addedData)) :
    network.SoundWork store := by
  refine ⟨fun block known =>
    sound.positive block (mem_cons_of_mem added known),
    fun block view isView => sound.bounded block view ?_⟩
  exact (run.blueView_insert_iff fresh addedData (isView.known run.stored)).mpr isView

/-- The sizes along every chain of a run are exact. -/
theorem Run.counted (run : network.Run store) (sound : network.SoundWork store)
    (isView : network.BlueView store block view) (got : store.data block = some data) :
    network.Counted store data view := by
  induction run generalizing block view data with
  | genesis =>
    cases isView with
    | genesis =>
      cases (if_pos rfl).symm.trans got
      exact ⟨forall_mem_nil _, forall_mem_nil _, forall_mem_nil _⟩
    | step ne got _ => cases got.symm.trans (if_neg ne)
  | @insert store added service addedData run fresh notOrigin parentsOf exact
    recorded ih =>
    have earlierSound := sound.of_insert run fresh
    by_cases eq : block = added
    · subst eq
      rw [store.insert_data_self, Option.some.injEq] at got
      subst got
      cases isView with
      | genesis => exact absurd run.stored.genesis_known fresh
      | step ne got isView =>
        rw [store.insert_data_self, Option.some.injEq] at got
        subst got
        have coloured := run.stored.coloured_of_ghostdag exact parentsOf recorded
        have known := parentsOf.known _ coloured.selected_parent
        rw [run.blueView_insert_iff fresh addedData known] at isView
        refine (Counted.ghostdag run earlierSound exact parentsOf recorded
          isView ?_).insert run.stored fresh addedData
        exact fun parentData isParentData => ih earlierSound isView isParentData
    · have old : store.data block = some data :=
        (store.insert_data_of_ne eq addedData).symm.trans got
      have known := run.stored.known_of_data old
      exact (ih earlierSound ((run.blueView_insert_iff fresh addedData known).mp isView)
        old).insert run.stored fresh addedData

/-- The blue blocks of a view form a cluster: each has at most `k` other ones in
its anticone, and the recorded sizes are these numbers. -/
theorem blueView_cluster (run : network.Run store) (sound : network.SoundWork store) {block : Hash}
    (found : store.data block = some data) :
    ∃ view, network.BlueView store block view ∧ view.Nodup ∧ (∀ blue ∈ view,
        network.anticoneCount view blue ≤ network.k.toNat) ∧
      ∀ blue ∈ data.mergesetBlues, ∃ size, data.bluesAnticoneSizes.lookup blue = some size ∧
        size.toNat = network.anticoneCount view blue := by
  obtain ⟨view, isView⟩ := run.exists_blueView (run.stored.known_of_data found)
  have counted := run.counted sound isView found
  refine ⟨view, isView, isView.nodup run, counted.cluster, fun blue isBlue => ?_⟩
  have mem : blue ∈ view := by
    cases isView with
    | genesis =>
      cases run.stored.genesis_data.symm.trans found
      cases isBlue
    | step _ alsoFound _ =>
      cases alsoFound.symm.trans found
      exact mem_append_right _ isBlue
  obtain ⟨own, isOwn⟩ := isSome_iff_exists.mp (counted.own blue isBlue)
  obtain ⟨size, sizeAt, isCount⟩ := counted.exact blue mem
  rw [sizeAt.unique (.here isOwn)] at isCount
  exact ⟨own, isOwn, isCount⟩

end HeaderDag

/-- The two blues beside each other have one blue in their anticones. -/
theorem diamondStore_cluster : ∃ data view, diamondStore.data (.replicate 32 4) = some data ∧
    diamondNetwork.BlueView diamondStore (.replicate 32 4) view ∧
    ∀ blue ∈ view, diamondNetwork.anticoneCount view blue ≤ 2 := by
  have recorded : (diamondStore.data (.replicate 32 4)).isSome = true := by decide +kernel
  obtain ⟨data, got⟩ := isSome_iff_exists.mp recorded
  obtain ⟨view, isView, -, cluster, -⟩ :=
    HeaderDag.blueView_cluster diamondStore_run diamondStore_soundWork got
  exact ⟨data, view, got, isView, cluster⟩

/-- A recorded block with a size that is not that of the anticone. -/
def HeaderDag.MiscountsAnticones (network : HeaderDag) : Prop := ∃ store block data view blue size,
    network.Run store ∧ store.data block = some data ∧ network.BlueView store block view ∧
      blue ∈ data.mergesetBlues ∧
      data.bluesAnticoneSizes.lookup blue = some size ∧
      size.toNat ≠ network.anticoneCount view blue

/-- What the merging block of the reversed headers and its selected parent
record. -/
def reversedStoreSizes (bits : UInt32) :
    Option (Hash × List Hash × Option UInt16 × Hash × List Hash) := do
  let data ← (reversedStore bits).data (.replicate 32 5)
  let parentData ← (reversedStore bits).data (.replicate 32 4)
  return (data.selectedParent, data.mergesetBlues, data.bluesAnticoneSizes.lookup (.replicate 32 3),
    parentData.selectedParent, parentData.mergesetBlues)

theorem reversedNetwork_miscounts {bits : UInt32} (replayed : ((reversedNetwork bits).replay
      ((reversedHeaders bits).map HeaderEntry.hash)).isSome = true)
    (recorded : reversedStoreSizes bits = some (.replicate 32 4,
      [.replicate 32 4, .replicate 32 2, .replicate 32 3], some 2,
      .replicate 32 1, [.replicate 32 1]))
    (count : (reversedNetwork bits).anticoneCount
      [.replicate 32 1, .replicate 32 4, .replicate 32 2, .replicate 32 3]
      (.replicate 32 3) = 1) : (reversedNetwork bits).MiscountsAnticones := by
  simp only [reversedStoreSizes, bind_eq_bind, bind_eq_some_iff,
    Option.pure_def, Option.some.injEq, Prod.mk.injEq] at recorded
  obtain ⟨data, got, parentData, parentFound, picked, areBlues, size,
    parentSelected, parentBlues⟩ := recorded
  have notGenesis {byte : UInt8} (ne : FixedBytes.replicate 32 byte ≠ FixedBytes.replicate 32 1) :
      FixedBytes.replicate 32 byte ≠ (reversedNetwork bits).genesis := ne
  have parentView : (reversedNetwork bits).BlueView (reversedStore bits)
      (.replicate 32 4) ([] ++ parentData.mergesetBlues) := by
    refine .step (notGenesis (by decide)) parentFound ?_
    rw [parentSelected]
    exact .genesis
  have view : (reversedNetwork bits).BlueView (reversedStore bits) (.replicate 32 5)
      ([] ++ parentData.mergesetBlues ++ data.mergesetBlues) := by
    refine .step (notGenesis (by decide)) got ?_
    rw [picked]
    exact parentView
  rw [parentBlues, areBlues] at view
  refine ⟨_, _, data, _, .replicate 32 3, 2, reversedStore_run replayed,
    got, view, by simp [areBlues], size, ?_⟩
  exact fun eq => absurd (eq.trans count) (by decide)

/-- Without work, and with sums of works out of range, a candidate can be
coloured after a blue of its future, which is then counted in its anticone. -/
theorem reversedNetwork_sizes_inexact :
    (reversedNetwork 0).MiscountsAnticones ∧ (reversedNetwork 0x09018000).MiscountsAnticones := by
  constructor
  · exact reversedNetwork_miscounts (by decide +kernel) (by decide +kernel) (by decide +kernel)
  · exact reversedNetwork_miscounts (by decide +kernel) (by decide +kernel) (by decide +kernel)

end Sophis
