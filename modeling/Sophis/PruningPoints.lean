import Sophis.MachineWord
import Sophis.ScoreSamples
import Sophis.Transaction

namespace Sophis

open ByteCodec Function MachineWord Option ScoreSamples

/-!
# Pruning points

`PruningPointManager` of `processes/pruning.rs`. Every finality depth of blue
score a chain block becomes a pruning sample, and the pruning point of a block
is the most recent sample that is deep enough below it. Each block stores the
most recent sample before it, so samples are found by following these links.
A read of a missing row aborts, and so does a sum of blue score and pruning depth
that is no word.
-/

/-- The rows the manager reads: the headers, and the stored samples. -/
structure PruningStores where
  blueScore : Hash → Option UInt64
  pruningPoint : Hash → Option Hash
  pruningSampleFromPov : Hash → Option Hash

/-- The part of the data that pruning reads. -/
structure CompactGhostdagData where
  blueScore : UInt64
  selectedParent : Hash
  deriving Repr, DecidableEq

/-- The sample and the pruning point of a block. -/
structure PruningPointReply where
  pruningSample : Hash
  pruningPoint : Hash
  deriving Repr, DecidableEq

/-- The depths and the genesis. -/
structure PruningPointManager where
  pruningDepth : UInt64
  finalityDepth : UInt64
  genesisHash : Hash
  originHash : Hash
  deriving Repr, DecidableEq

namespace PruningPointManager

variable (manager : PruningPointManager) (stores : PruningStores)

/-- The number of samples from a sample down to its pruning point, the
pruning depth in finality depths rounded up. -/
def pruningSamplesSteps : UInt64 := manager.pruningDepth / manager.finalityDepth +
    if manager.pruningDepth % manager.finalityDepth = 0 then 0 else 1

def finalityScore (blueScore : UInt64) : UInt64 := blueScore / manager.finalityDepth

/-- A sample has a larger finality score than the samples before it. -/
def isPruningSample (selfBlueScore epochChainAncestorBlueScore : UInt64) : Bool :=
  manager.finalityScore epochChainAncestorBlueScore < manager.finalityScore selfBlueScore

/-- Follows the samples down to one that is deep enough, with the two clamps of
the source. -/
def findPruningPoint (blueScore : UInt64) (isSelfPruningSample : Bool)
    (selectedParentPruningPoint : Hash) :
    Nat → Nat → Hash → Option Hash
  | 0, _, _ => none
  | fuel + 1, steps, current =>
    if current = manager.genesisHash then
      some current
    else do
      let currentBlueScore ← stores.blueScore current
      let deepFrom ← checkedAdd currentBlueScore manager.pruningDepth
      if deepFrom ≤ blueScore then
        some current
      else if isSelfPruningSample && steps = manager.pruningSamplesSteps.toNat then
        some current
      else if current = selectedParentPruningPoint then
        some current
      else
        let next ← stores.pruningSampleFromPov current
        findPruningPoint blueScore isSelfPruningSample
          selectedParentPruningPoint fuel (steps + 1) next

def mostRecentSample (data : CompactGhostdagData) (selectedParentBlueScore : UInt64) :
    Option Hash :=
  if data.selectedParent = manager.genesisHash then
    some manager.genesisHash
  else do
    let sample ← stores.pruningSampleFromPov data.selectedParent
    let sampleBlueScore ← stores.blueScore sample
    if manager.isPruningSample selectedParentBlueScore sampleBlueScore then
      some data.selectedParent
    else
      some sample

/-- The sample and the pruning point of a new block. -/
def expectedHeaderPruningPoint (fuel : Nat) (data : CompactGhostdagData) :
    Option PruningPointReply := do
  let selectedParentBlueScore ← stores.blueScore data.selectedParent
  let pruningSample ← manager.mostRecentSample stores data selectedParentBlueScore
  let isSelfPruningSample := manager.isPruningSample data.blueScore selectedParentBlueScore
  let selectedParentPruningPoint ← stores.pruningPoint data.selectedParent
  let pruningPoint ← manager.findPruningPoint stores data.blueScore
    isSelfPruningSample selectedParentPruningPoint fuel 1 pruningSample
  return { pruningSample, pruningPoint }

/-- The samples from one down to another, which is left out, lowest first. -/
def samplesDownTo (currentPruningPoint : Hash) : Nat → List Hash → Hash → Option (List Hash)
  | 0, _, _ => none
  | fuel + 1, deque, current =>
    if current = currentPruningPoint then
      some deque
    else do
      let next ← stores.pruningSampleFromPov current
      samplesDownTo currentPruningPoint fuel (current :: deque) next

/-- The samples that become pruning points, oldest first. -/
def nextPruningPoints (fuel : Nat) (sink : CompactGhostdagData)
    (currentPruningPoint : Hash) : Option (List Hash) :=
  if sink.selectedParent = manager.originHash then
    some []
  else do
    let currentBlueScore ← stores.blueScore currentPruningPoint
    let deepFrom ← checkedAdd currentBlueScore manager.pruningDepth
    if deepFrom > sink.blueScore then
      some []
    else
      let reply ← manager.expectedHeaderPruningPoint stores fuel sink
      let sinkBlueScore ← stores.blueScore reply.pruningPoint
      if sinkBlueScore ≤ currentBlueScore then
        some []
      else
        samplesDownTo stores currentPruningPoint fuel [] reply.pruningPoint

end PruningPointManager

/-- A chain of blocks with growing blue scores. -/
structure SelectedChain (manager : PruningPointManager) where
  last : Nat
  hash : Nat → Hash
  blueScore : Nat → UInt64
  genesis : hash 0 = manager.genesisHash
  distinct : ∀ first ≤ last, ∀ second ≤ last, hash first = hash second → first = second
  notOrigin : ∀ position ≤ last, hash position ≠ manager.originHash

variable {manager : PruningPointManager} (chain : SelectedChain manager)

def SelectedChain.score (position : Nat) : Nat := (chain.blueScore position).toNat

def SelectedChain.data (position : Nat) : CompactGhostdagData where
  blueScore := chain.blueScore position
  selectedParent := if position = 0 then manager.originHash else chain.hash (position - 1)

def SelectedChain.genesisStores (genesisPruningPoint : Hash) : PruningStores where
  blueScore hash := if hash = chain.hash 0 then some (chain.blueScore 0) else none
  pruningPoint hash := if hash = chain.hash 0 then some genesisPruningPoint else none
  pruningSampleFromPov _ := none

def PruningStores.insert (stores : PruningStores) (hash : Hash)
    (blueScore : UInt64) (reply : PruningPointReply) : PruningStores where
  blueScore := update stores.blueScore hash (some blueScore)
  pruningPoint := update stores.pruningPoint hash (some reply.pruningPoint)
  pruningSampleFromPov := update stores.pruningSampleFromPov hash
    (some reply.pruningSample)

/-- The rows after the blocks up to a position have been processed in their
order. -/
def SelectedChain.process (genesisPruningPoint : Hash) (fuel : Nat) : Nat → Option PruningStores
  | 0 => some (chain.genesisStores genesisPruningPoint)
  | position + 1 => do
    let stores ← SelectedChain.process genesisPruningPoint fuel position
    let reply ← manager.expectedHeaderPruningPoint stores fuel (chain.data (position + 1))
    return stores.insert (chain.hash (position + 1)) (chain.blueScore (position + 1)) reply

/-- The rows of the blocks up to a position hold the last samples before them
and the deep samples below them. -/
structure PruningStores.Tracks (stores : PruningStores)
    (chain : SelectedChain manager) (top : Nat) : Prop where
  blueScore : ∀ position ≤ top,
    stores.blueScore (chain.hash position) = some (chain.blueScore position)
  genesisPoint : (stores.pruningPoint (chain.hash 0)).isSome
  sample : ∀ position ≤ top, 0 < position → stores.pruningSampleFromPov (chain.hash position) =
    some (chain.hash (lastSample chain.score manager.finalityDepth.toNat position))
  pruningPoint : ∀ position ≤ top, 0 < position → stores.pruningPoint (chain.hash position) =
    some (chain.hash (deepSample chain.score manager.finalityDepth.toNat
      manager.pruningDepth.toNat position))

variable {position : Nat}

theorem SelectedChain.ne_genesis (nonzero : position ≠ 0) (within : position ≤ chain.last) :
    chain.hash position ≠ manager.genesisHash := by
  rw [← chain.genesis]
  intro same
  exact nonzero (chain.distinct position within 0 (Nat.zero_le _) same)

theorem PruningPointManager.isPruningSample_eq (self ancestor : UInt64) :
    manager.isPruningSample self ancestor = decide (ancestor.toNat / manager.finalityDepth.toNat <
      self.toNat / manager.finalityDepth.toNat) := by
  rw [isPruningSample, finalityScore, finalityScore]
  simp only [UInt64.lt_iff_toNat_lt, UInt64.toNat_div]

theorem PruningPointManager.toNat_pruningSamplesSteps
    (unaligned : 0 < manager.pruningDepth.toNat % manager.finalityDepth.toNat)
    (least : 1 < manager.finalityDepth.toNat) : manager.pruningSamplesSteps.toNat =
      manager.pruningDepth.toNat / manager.finalityDepth.toNat + 1 := by
  have nonzero : manager.pruningDepth % manager.finalityDepth ≠ 0 := by
    intro zero
    have remainder := UInt64.toNat_mod manager.pruningDepth manager.finalityDepth
    rw [zero] at remainder
    exact Nat.ne_of_gt unaligned remainder.symm
  have smaller := Nat.div_lt_self
    (Nat.pos_of_ne_zero fun (zero : manager.pruningDepth.toNat = 0) =>
      Nat.ne_of_gt unaligned (by rw [zero, Nat.zero_mod])) least
  have word := manager.pruningDepth.toNat_lt
  rw [pruningSamplesSteps, if_neg nonzero, UInt64.toNat_add, UInt64.toNat_div]
  exact Nat.mod_eq_of_lt (by simp only [UInt64.toNat_one]; omega)

open PruningPointManager

theorem isPruningSample_succ (position : Nat) :
    manager.isPruningSample (chain.blueScore (position + 1)) (chain.blueScore position) =
      decide (IsSample chain.score manager.finalityDepth.toNat (position + 1)) := by
  rw [isPruningSample_eq]
  exact decide_eq_decide.mpr ⟨.inr, fun isSample => isSample.resolve_left (Nat.succ_ne_zero _)⟩

variable {noise : Nat}

theorem SelectedChain.deep_of_last_step (growth : Growth chain.score noise chain.last)
    (off : OffMultiples noise manager.finalityDepth.toNat manager.pruningDepth.toNat) {sample : Nat}
    (positive : 0 < sample) (within : sample ≤ chain.last)
    (isSample : IsSample chain.score manager.finalityDepth.toNat sample)
    (counted : chain.score sample / manager.finalityDepth.toNat +
      manager.pruningSamplesSteps.toNat =
      chain.score position / manager.finalityDepth.toNat) :
    chain.score sample + manager.pruningDepth.toNat ≤ chain.score position := by
  have roundedUp : manager.pruningSamplesSteps.toNat =
      manager.pruningDepth.toNat / manager.finalityDepth.toNat + 1 := by
    have above := off.above
    have below := off.below
    exact toNat_pruningSamplesSteps (by omega) (by omega)
  have low := growth.sample_le (Nat.lt_of_le_of_lt (Nat.zero_le _)
    off.noise_lt) positive within isSample
  have high := Nat.div_mul_le_self (chain.score position) manager.finalityDepth.toNat
  have room := off.lt_ceil
  rw [← counted, roundedUp, Nat.add_mul] at high
  omega

section

variable {chain} {noise : Nat} (growth : Growth chain.score noise chain.last)
  (off : OffMultiples noise manager.finalityDepth.toNat manager.pruningDepth.toNat)
  (fits : chain.score chain.last + manager.pruningDepth.toNat < 2 ^ 64)
  {stores : PruningStores} {top : Nat}
  (tracks : stores.Tracks chain top) (within : top ≤ chain.last)

include growth fits in
/-- The sum of a blue score and the pruning depth is the word that is compared. -/
theorem SelectedChain.deepFrom_eq {sample : Nat} (inChain : sample ≤ chain.last) :
    ∃ deepFrom, checkedAdd (chain.blueScore sample) manager.pruningDepth = some deepFrom ∧
      ∀ position, deepFrom ≤ chain.blueScore position ↔
        chain.score sample + manager.pruningDepth.toNat ≤ chain.score position := by
  have grown := growth.le inChain le_rfl
  have sum : (chain.blueScore sample).toNat + manager.pruningDepth.toNat < 2 ^ 64 :=
    lt_of_le_of_lt (Nat.add_le_add_right grown _) fits
  refine ⟨_, if_pos sum, fun position => ?_⟩
  rw [UInt64.le_iff_toNat_le, UInt64.toNat_add, Nat.mod_eq_of_lt sum]
  rfl

include tracks within

variable {current sample fuel : Nat}

theorem SelectedChain.samplesDownTo_eq
    (currentSample : IsSample chain.score manager.finalityDepth.toNat current)
    (isSample : IsSample chain.score manager.finalityDepth.toNat sample) (above : current ≤ sample)
    (below : sample ≤ top) (enough : sample < fuel) (deque : List Hash) :
    samplesDownTo stores (chain.hash current) fuel deque (chain.hash sample) =
      some ((samplesBetween chain.score manager.finalityDepth.toNat current
        sample).map chain.hash ++ deque) := by
  induction fuel generalizing sample deque with
  | zero => omega
  | succ fuel ih =>
    rw [samplesDownTo]
    by_cases reached : sample = current
    · rw [if_pos (congrArg chain.hash reached), samplesBetween_eq_nil reached.le]
      rfl
    · have strictly : current < sample := by omega
      have unequal : chain.hash sample ≠ chain.hash current := fun same =>
        reached (chain.distinct sample (by omega) current (by omega) same)
      have positive : 0 < sample := by omega
      have before := lastSample_lt chain.score manager.finalityDepth.toNat positive
      rw [if_neg unequal, tracks.sample sample below positive, bind_eq_bind, bind_some,
        ih (isSample_lastSample sample) (Nat.le_findGreatest (by omega) currentSample) (by omega)
          (by omega),
        samplesBetween_sample strictly isSample, List.map_append,
        List.append_assoc]
      rfl

include growth

variable {position : Nat}

theorem SelectedChain.mostRecentSample_eq (isNext : position ≤ top) :
    manager.mostRecentSample stores ⟨chain.blueScore (position + 1), chain.hash position⟩
        (chain.blueScore position) =
      some (chain.hash (lastSample chain.score manager.finalityDepth.toNat (position + 1))) := by
  rw [mostRecentSample, lastSample_succ]
  by_cases first : position = 0
  · subst first
    rw [if_pos chain.genesis, if_pos isSample_zero, chain.genesis]
  · have positive : 0 < position := Nat.pos_of_ne_zero first
    have below := lastSample_lt chain.score manager.finalityDepth.toNat positive
    rw [if_neg (chain.ne_genesis first (by omega))]
    simp only [tracks.sample position isNext positive, tracks.blueScore _ (below.le.trans isNext),
      bind_eq_bind, bind_some]
    have sameTest : manager.isPruningSample (chain.blueScore position)
          (chain.blueScore (lastSample chain.score manager.finalityDepth.toNat position)) =
        decide (IsSample chain.score manager.finalityDepth.toNat position) := by
      rw [isPruningSample_eq]
      change decide (chain.score _ / _ < chain.score _ / _) = _
      rw [← growth.epoch_lastSample positive (by omega)]
      exact decide_eq_decide.mpr ⟨.inr, fun isSample => isSample.resolve_left first⟩
    rw [sameTest]
    by_cases isSample : IsSample chain.score manager.finalityDepth.toNat position
    · simp [isSample]
    · simp [isSample]

include off fits

omit within in
theorem SelectedChain.findPruningPoint_eq {steps : Nat} (isNext : position ≤ top)
    (inChain : position + 1 ≤ chain.last)
    (isSample : IsSample chain.score manager.finalityDepth.toNat sample) (below : sample ≤ position)
    (shallow : ∀ later, sample < later → later ≤ position →
      IsSample chain.score manager.finalityDepth.toNat later → chain.score (position + 1) <
        chain.score later + manager.pruningDepth.toNat)
    (counted : IsSample chain.score manager.finalityDepth.toNat (position + 1) →
      chain.score sample / manager.finalityDepth.toNat + steps =
        chain.score (position + 1) / manager.finalityDepth.toNat) (enough : sample < fuel)
    {parentPoint : Hash}
    (isParentPoint : stores.pruningPoint (chain.hash position) = some parentPoint) :
    manager.findPruningPoint stores (chain.blueScore (position + 1))
        (manager.isPruningSample (chain.blueScore (position + 1)) (chain.blueScore position))
        parentPoint fuel steps (chain.hash sample) =
      some (chain.hash (deepSample chain.score manager.finalityDepth.toNat
        manager.pruningDepth.toNat (position + 1))) := by
  induction fuel generalizing sample steps with
  | zero => omega
  | succ fuel ih =>
    have positiveDepth := off.depth_pos
    have none : ∀ later, sample < later → later ≤ position + 1 →
        IsSample chain.score manager.finalityDepth.toNat later → chain.score (position + 1) <
          chain.score later + manager.pruningDepth.toNat := by
      intro later above laterBelow laterSample
      by_cases isSelf : later = position + 1
      · subst isSelf
        omega
      · exact shallow later above (by omega) laterSample
    rw [findPruningPoint]
    by_cases first : sample = 0
    · rw [if_pos (by rw [first, chain.genesis]),
        deepSample_eq isSample (by omega) (fun nonzero => absurd first nonzero) none]
    · have positive : 0 < sample := Nat.pos_of_ne_zero first
      rw [if_neg (chain.ne_genesis first (by omega))]
      obtain ⟨deepFrom, added, isDeep⟩ := chain.deepFrom_eq growth fits
        (by omega : sample ≤ chain.last)
      simp only [tracks.blueScore sample (below.trans isNext), added, bind_eq_bind, bind_some,
        isDeep]
      by_cases deep : chain.score sample + manager.pruningDepth.toNat ≤ chain.score (position + 1)
      · rw [if_pos deep, deepSample_eq isSample (by omega) (fun _ => deep) none]
      · rw [if_neg deep, if_neg ?stepsLeft, if_neg ?notParent,
          tracks.sample sample (below.trans isNext) positive, bind_some]
        case stepsLeft =>
          rw [isPruningSample_succ, Bool.and_eq_true, decide_eq_true_eq, decide_eq_true_eq]
          rintro ⟨selfSample, lastStep⟩
          exact deep (chain.deep_of_last_step growth off positive
            (by omega) isSample (lastStep ▸ counted selfSample))
        case notParent =>
          rintro rfl
          have parentPositive : 0 < position := by omega
          have isDeep := (tracks.pruningPoint position isNext
            parentPositive).symm.trans isParentPoint
          have same := chain.distinct _ ((deepSample_le _ _ _ position).trans (by omega)) sample
            (by omega) (Option.some.inj isDeep)
          have parentDeep := (deepSample_spec (same.symm ▸ first)).2
          rw [same] at parentDeep
          have grows := growth.grows position (by omega)
          omega
        have before := lastSample_lt chain.score manager.finalityDepth.toNat positive
        refine ih (isSample_lastSample sample) (by omega) ?_ ?_ (by omega)
        · intro later above laterBelow laterSample
          rcases Nat.lt_trichotomy later sample with between | rfl | after
          · exact absurd laterSample (not_isSample_between above between)
          · omega
          · exact shallow later after laterBelow laterSample
        · intro selfSample
          have opened := growth.epoch_sample off.noise_lt positive (by omega) isSample
          have soFar := counted selfSample
          omega

theorem SelectedChain.expectedHeaderPruningPoint_eq (isNext : position ≤ top)
    (inChain : position + 1 ≤ chain.last) (enough : position < fuel) :
    manager.expectedHeaderPruningPoint stores fuel (chain.data (position + 1)) = some {
        pruningSample := chain.hash
          (lastSample chain.score manager.finalityDepth.toNat (position + 1))
        pruningPoint := chain.hash (deepSample chain.score manager.finalityDepth.toNat
          manager.pruningDepth.toNat (position + 1))
      } := by
  have parent : chain.data (position + 1) = ⟨chain.blueScore (position + 1), chain.hash position⟩ :=
    rfl
  obtain ⟨parentPoint, isParentPoint⟩ :
      ∃ point, stores.pruningPoint (chain.hash position) = some point := by
    by_cases first : position = 0
    · rw [first]
      exact isSome_iff_exists.mp tracks.genesisPoint
    · exact ⟨_, tracks.pruningPoint position isNext (Nat.pos_of_ne_zero first)⟩
  have before : lastSample chain.score manager.finalityDepth.toNat (position + 1) < position + 1 :=
    lastSample_lt _ _ (Nat.succ_pos position)
  have got := chain.findPruningPoint_eq growth off fits tracks isNext
    inChain (isSample_lastSample (position + 1)) (by omega)
    (fun later above below laterSample =>
      absurd laterSample (not_isSample_between above (by omega)))
    (fun selfSample => (growth.epoch_sample off.noise_lt (Nat.succ_pos _) inChain selfSample).symm)
    (by omega : _ < fuel) isParentPoint
  rw [expectedHeaderPruningPoint, parent]
  simp only [tracks.blueScore position isNext,
    chain.mostRecentSample_eq growth tracks within isNext, isParentPoint,
    got, bind_eq_bind, bind_some, Option.pure_def]

theorem SelectedChain.nextPruningPoints_eq {sink : Nat}
    (currentSample : IsSample chain.score manager.finalityDepth.toNat current)
    (above : current ≤ sink) (below : sink ≤ top) (enough : sink < fuel) :
    manager.nextPruningPoints stores fuel (chain.data sink) (chain.hash current) =
      some ((samplesBetween chain.score manager.finalityDepth.toNat current
        (deepSample chain.score manager.finalityDepth.toNat
          manager.pruningDepth.toNat sink)).map chain.hash) := by
  have deepBelow :=
    deepSample_le chain.score manager.finalityDepth.toNat manager.pruningDepth.toNat sink
  -- The early returns are taken only when no sample is left to collect.
  have nothing : deepSample chain.score manager.finalityDepth.toNat
        manager.pruningDepth.toNat sink ≤ current →
      some [] = some ((samplesBetween chain.score manager.finalityDepth.toNat
        current (deepSample chain.score manager.finalityDepth.toNat
          manager.pruningDepth.toNat sink)).map chain.hash) := by
    intro reached
    rw [samplesBetween_eq_nil reached]
    rfl
  rw [nextPruningPoints]
  cases sink with
  | zero =>
    have noParent : (chain.data 0).selectedParent = manager.originHash := rfl
    rw [if_pos noParent]
    exact nothing (by omega)
  | succ parent =>
    have parentBlock : (chain.data (parent + 1)).selectedParent = chain.hash parent := rfl
    rw [parentBlock, if_neg (chain.notOrigin parent (by omega)),
      tracks.blueScore current (by omega), bind_eq_bind, bind_some]
    obtain ⟨deepFrom, added, isDeep⟩ := chain.deepFrom_eq growth fits
      (by omega : current ≤ chain.last)
    have compared : deepFrom > (chain.data (parent + 1)).blueScore ↔
        chain.score (parent + 1) < chain.score current + manager.pruningDepth.toNat := by
      rw [← Nat.not_le, ← isDeep, gt_iff_lt, UInt64.not_le]
      rfl
    rw [added, bind_some]
    simp only [compared]
    by_cases shallow : chain.score (parent + 1) < chain.score current + manager.pruningDepth.toNat
    · rw [if_pos shallow]
      refine nothing (Nat.le_of_not_lt fun after => ?_)
      have deep := (deepSample_spec (Nat.ne_zero_of_lt after)).2
      have higher := growth.lt after (by omega)
      omega
    · rw [if_neg shallow, chain.expectedHeaderPruningPoint_eq growth off fits tracks within
          (by omega) (by omega) (by omega),
        bind_eq_bind, bind_some,
        tracks.blueScore _ (deepBelow.trans below), bind_some]
      by_cases passed : deepSample chain.score manager.finalityDepth.toNat
        manager.pruningDepth.toNat (parent + 1) ≤ current
      · rw [if_pos (UInt64.le_iff_toNat_le.mpr (growth.le passed (by omega)))]
        exact nothing passed
      · have higher := growth.lt (Nat.lt_of_not_le passed) (by omega)
        rw [if_neg (UInt64.not_le.mpr (UInt64.lt_iff_toNat_lt.mpr higher)),
          chain.samplesDownTo_eq tracks within currentSample
            (isSample_deepSample _ _) (by omega) (by omega) (by omega),
          List.append_nil]

end

theorem PruningStores.Tracks.insert {stores : PruningStores} {top : Nat}
    (tracks : stores.Tracks chain top)
    (unequal : ∀ position ≤ top, chain.hash position ≠ chain.hash (top + 1)) :
    (stores.insert (chain.hash (top + 1)) (chain.blueScore (top + 1)) {
        pruningSample := chain.hash (lastSample chain.score manager.finalityDepth.toNat (top + 1))
        pruningPoint := chain.hash (deepSample chain.score manager.finalityDepth.toNat
          manager.pruningDepth.toNat (top + 1))
      }).Tracks chain (top + 1) := by
  have written {α : Type} {old : Hash → α} {last row : α} {position : Nat}
      (below : position ≤ top + 1)
      (kept : position ≤ top → old (chain.hash position) = row)
      (new : position = top + 1 → last = row) :
      update old (chain.hash (top + 1)) last (chain.hash position) = row := by
    rcases Nat.le_succ_iff.mp below with prior | same
    · exact (update_of_ne (unequal position prior) ..).trans (kept prior)
    · rw [same, update_self, new same]
  exact {
    blueScore := fun position below =>
      written below (tracks.blueScore position) fun same => same ▸ rfl
    genesisPoint := (congrArg Option.isSome (update_of_ne (unequal 0 (Nat.zero_le _)) ..)).trans
      tracks.genesisPoint
    sample := fun position below positive =>
      written below (tracks.sample position · positive) fun same => same ▸ rfl
    pruningPoint := fun position below positive =>
      written below (tracks.pruningPoint position · positive) fun same => same ▸ rfl }

theorem SelectedChain.process_tracks (growth : Growth chain.score noise chain.last)
    (off : OffMultiples noise manager.finalityDepth.toNat manager.pruningDepth.toNat)
    (fits : chain.score chain.last + manager.pruningDepth.toNat < 2 ^ 64)
    (genesisPruningPoint : Hash) {fuel top : Nat} (within : top ≤ chain.last)
    (enough : top ≤ fuel) :
    ∃ stores, chain.process genesisPruningPoint fuel top = some stores ∧
      stores.Tracks chain top := by
  induction top with
  | zero =>
    refine ⟨_, rfl, ?_, ?_, ?_, ?_⟩
    · intro position first
      rw [Nat.le_zero.mp first]
      exact if_pos rfl
    · simp [genesisStores]
    · intro position first positive
      omega
    · intro position first positive
      omega
  | succ top ih =>
    obtain ⟨stores, ran, tracks⟩ := ih (by omega) (by omega)
    have reply := chain.expectedHeaderPruningPoint_eq growth off fits tracks
      (by omega) le_rfl within (by omega : _ < fuel)
    have unequal : ∀ position ≤ top, chain.hash position ≠ chain.hash (top + 1) := by
      intro position below same
      have := chain.distinct position (by omega) (top + 1) within same
      omega
    refine ⟨_, by rw [process, ran, bind_eq_bind, bind_some, reply]; rfl, ?_⟩
    exact tracks.insert chain unequal

/-- Processing a chain block by block returns for each block the last sample
at the pruning depth below it, the pruning point never moves down from a block
to its child, and the next pruning points are the samples from the current
pruning point to that of the sink. -/
theorem pruningPoints_are_deep_samples {noise : Nat}
    (growth : Growth chain.score noise chain.last)
    (off : OffMultiples noise manager.finalityDepth.toNat manager.pruningDepth.toNat)
    (fits : chain.score chain.last + manager.pruningDepth.toNat < 2 ^ 64)
    (genesisPruningPoint : Hash) {fuel : Nat} (enough : chain.last < fuel) :
    (∀ position < chain.last, ∃ stores,
      chain.process genesisPruningPoint fuel position = some stores ∧
        manager.expectedHeaderPruningPoint stores fuel (chain.data (position + 1)) = some {
            pruningSample := chain.hash (lastSample chain.score manager.finalityDepth.toNat
              (position + 1))
            pruningPoint := chain.hash (deepSample chain.score manager.finalityDepth.toNat
              manager.pruningDepth.toNat (position + 1))
          }) ∧
      (∀ position < chain.last, deepSample chain.score manager.finalityDepth.toNat
          manager.pruningDepth.toNat position ≤
        deepSample chain.score manager.finalityDepth.toNat manager.pruningDepth.toNat
          (position + 1)) ∧
      ∃ stores, chain.process genesisPruningPoint fuel chain.last = some stores ∧
        ∀ sink ≤ chain.last, ∀ current ≤ sink,
          IsSample chain.score manager.finalityDepth.toNat current →
          manager.nextPruningPoints stores fuel (chain.data sink) (chain.hash current) =
            some ((samplesBetween chain.score manager.finalityDepth.toNat
              current (deepSample chain.score manager.finalityDepth.toNat
                manager.pruningDepth.toNat sink)).map chain.hash) := by
  refine ⟨?replies, ?upward, ?following⟩
  case replies =>
    intro position below
    obtain ⟨stores, ran, tracks⟩ := chain.process_tracks growth off fits
      genesisPruningPoint below.le (by omega : position ≤ fuel)
    exact ⟨stores, ran, chain.expectedHeaderPruningPoint_eq growth off
      fits tracks below.le le_rfl below (by omega)⟩
  case upward =>
    intro position below
    exact growth.deepSample_le_succ manager.pruningDepth.toNat below
  case following =>
    obtain ⟨stores, ran, tracks⟩ := chain.process_tracks growth off fits
      genesisPruningPoint le_rfl enough.le
    refine ⟨stores, ran, ?_⟩
    intro sink inChain current above currentSample
    exact chain.nextPruningPoints_eq growth off fits tracks le_rfl currentSample above inChain
      (by omega)

def tenManager (pruningDepth : UInt64) : PruningPointManager :=
  ⟨pruningDepth, 10, .ofPrefix 32 (leBytes 8 0), .ofPrefix 32 (leBytes 8 1000)⟩

/-- A chain of numbered blocks whose blue score grows by a step each time. -/
def steadyChain (pruningDepth : UInt64) (step : Nat) : SelectedChain (tenManager pruningDepth) where
  last := 40
  hash position := .ofPrefix 32 (leBytes 8 position)
  blueScore position := UInt64.ofNat (step * position)
  genesis := rfl
  distinct := by
    intro first inFirst second inSecond same
    exact eq_of_ofPrefix_leBytes_eq (by omega) (by omega) (by decide) same
  notOrigin := by
    intro position within same
    have := eq_of_ofPrefix_leBytes_eq (by omega) (by decide) (by decide) same
    omega

theorem steadyChain_deep_samples :
    ∃ stores, (steadyChain 25 2).process (.ofPrefix 32 []) 41 39 = some stores ∧
      ((tenManager 25).expectedHeaderPruningPoint stores 41 ((steadyChain 25 2).data 40)).map
        (·.pruningPoint) = some (.ofPrefix 32 (leBytes 8 25)) := by
  have growth : Growth (steadyChain 25 2).score 1 (steadyChain 25 2).last := by
    constructor <;>
    · intro position below
      simp only [SelectedChain.score, steadyChain, UInt64.toNat_ofNat'] at below ⊢
      omega
  obtain ⟨stores, ran, reply⟩ := (pruningPoints_are_deep_samples (steadyChain 25 2) growth
      ⟨by decide, by decide⟩ (by decide) (.ofPrefix 32 [])
      (by decide : (steadyChain 25 2).last < 41)).1 39 (by decide)
  refine ⟨stores, ran, ?_⟩
  rw [reply]
  have deep : deepSample (steadyChain 25 2).score 10 25 40 = 25 := by decide
  exact congrArg (fun position => some ((steadyChain 25 2).hash position)) deep

/-- A pruning depth near the largest word, with no noise: the first sample plus
this depth is no word, so the block after it has no pruning point. -/
theorem deepestChain_aborts :
    OffMultiples 0 10 (2 ^ 64 - 1) ∧
      ((steadyChain 0xFFFFFFFFFFFFFFFF 1).process (.ofPrefix 32 []) 41 10).isSome = true ∧
      (steadyChain 0xFFFFFFFFFFFFFFFF 1).process (.ofPrefix 32 []) 41 11 = none :=
  ⟨⟨by decide, by decide⟩, by decide +kernel,
    by rw [← Option.not_isSome_iff_eq_none]; decide +kernel⟩

end Sophis
