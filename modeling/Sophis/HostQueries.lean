import Sophis.NodeHistory

namespace Sophis

open ByteCodec ExecutionContext Option SophisDaBackend SophisVrfBackend

/-!
# What a contract learns about the node that runs it

The two host functions of `svm/runtime/src/host.rs` that read the node:
`sophis_verify_da` and `sophis_vrf_random_at`. They answer from the live
availability store, the live blue score of virtual and the live selected chain
of the node, not from the past of the block under validation.
-/

/-- The arguments of a host call, with what the engine finds out about the
caller: whether the gas could be charged, and the bytes at a guest address. -/
inductive HostQuery where
  | verifyDa (charged : Bool) (id : Option PayloadId) (padding : Int32)
    (minConfirmations : Int64) (queryKind : Int32)
  | vrfRandomAt (charged : Bool) (chainIndex : Int64) (writable : Bool)

/-- A status and, if it succeeds, the bytes for the guest. -/
abbrev HostAnswer := Int32 × Option (FixedBytes 32)

variable (context : ExecutionContext)

def ExecutionContext.hasCapability (capability : Capability) : Bool :=
  context.manifest.requiredCapabilities.contains capability

def sophisVerifyDa (charged : Bool) (id : Option PayloadId)
    (padding : Int32) (minConfirmations : Int64) (queryKind : Int32) :
    HostAnswer :=
  if !context.hasCapability .verifyDataAvailability then (-2, none)
  else if !charged then (-3, none)
  else if padding ≠ 0 then (-4, none)
  else if queryKind ≠ 0 ∧ queryKind ≠ 1 then (-1, none)
  else if minConfirmations < 0 then (-1, none)
  else
    match id with
    | none => (-4, none)
    | some id =>
      let present :=
        if queryKind = 0 then
          context.da.verifyPayload id minConfirmations.toUInt64
        else
          context.da.verifyBundle id minConfirmations.toUInt64
      (if present then 1 else 0, none)

def sophisVrfRandomAt (charged : Bool) (chainIndex : Int64) (writable : Bool) : HostAnswer :=
  if !context.hasCapability .vrfRandomness then (-1, none)
  else if !charged then (-2, none)
  else if chainIndex < 0 then (-4, none)
  else if chainIndex.toUInt64 ≥ context.vrf.currentTipIndex then (-3, none)
  else
    match context.vrf.vrfRandomAt chainIndex.toUInt64 with
    | none => (-6, none)
    | some bytes => if writable then (0, some bytes) else (-5, none)

def ExecutionContext.answer : HostQuery → HostAnswer
  | .verifyDa charged id padding minConfirmations queryKind =>
    sophisVerifyDa context charged id padding minConfirmations queryKind
  | .vrfRandomAt charged chainIndex writable =>
    sophisVrfRandomAt context charged chainIndex writable

variable {context} {minConfirmations : Int64}

section

variable (granted : context.hasCapability .verifyDataAvailability = true)
  (nonnegative : ¬ minConfirmations < 0)
include granted nonnegative

theorem sophisVerifyDa_payload (payload : PayloadId) :
    sophisVerifyDa context true (some payload) 0 minConfirmations 0 =
      (if context.da.verifyPayload payload minConfirmations.toUInt64 then 1
        else 0, none) := by
  simp [sophisVerifyDa, granted, nonnegative]

theorem sophisVerifyDa_bundle (bundle : PayloadId) :
    sophisVerifyDa context true (some bundle) 0 minConfirmations 1 =
      (if context.da.verifyBundle bundle minConfirmations.toUInt64 then 1
        else 0, none) := by
  simp [sophisVerifyDa, granted, nonnegative]

end

/-- What a granted and paid randomness query with a writable buffer gets. -/
def HostVrf.reply (vrf : HostVrf) (index : UInt64) : HostAnswer :=
  if index ≥ vrf.currentTipIndex then (-3, none)
  else
    match vrf.vrfRandomAt index with
    | none => (-6, none)
    | some bytes => (0, some bytes)

theorem sophisVrfRandomAt_eq {chainIndex : Int64} (nonnegative : ¬ chainIndex < 0)
    (charged writable : Bool) :
    sophisVrfRandomAt context charged chainIndex writable =
      if !context.hasCapability .vrfRandomness then (-1, none)
      else if !charged then (-2, none)
      else if (context.vrf.reply chainIndex.toUInt64).2.isSome && !writable then
        (-5, none)
      else context.vrf.reply chainIndex.toUInt64 := by
  rw [sophisVrfRandomAt, if_neg nonnegative, HostVrf.reply]
  by_cases pending : chainIndex.toUInt64 ≥ context.vrf.currentTipIndex
  · simp [pending]
  · cases context.vrf.vrfRandomAt chainIndex.toUInt64 with
    | none => simp [pending]
    | some bytes => cases writable <;> simp [pending]

def queryLimit : Nat := 2 ^ 63 - 1

/-- Whether there is a count and it reaches a bound. -/
def reaches (count : Option Nat) (bound : Nat) : Bool :=
  count.any fun found => bound ≤ found

variable {first second : Option Nat}

theorem eq_of_reaches (firstBounded : ∀ count, first = some count → count ≤ queryLimit)
    (secondBounded : ∀ count, second = some count → count ≤ queryLimit)
    (eq : ∀ bound ≤ queryLimit, reaches first bound = reaches second bound) : first = second := by
  cases first with
  | none =>
    cases second with
    | none => rfl
    | some count =>
      have atZero := eq 0 (Nat.zero_le _)
      simp [reaches] at atZero
  | some firstCount =>
    cases second with
    | none =>
      have atZero := eq 0 (Nat.zero_le _)
      simp [reaches] at atZero
    | some secondCount =>
      have atFirst := eq firstCount (firstBounded _ rfl)
      have atSecond := eq secondCount (secondBounded _ rfl)
      simp only [reaches, any_some, decide_eq_decide] at atFirst
      simp only [reaches, any_some, decide_eq_decide] at atSecond
      rw [Option.some.injEq]
      omega

theorem exists_query {bound : Nat} (bounded : bound ≤ queryLimit) :
    ∃ arg : Int64, ¬ arg < 0 ∧ arg.toUInt64.toNat = bound := by
  have small : bound < 2 ^ 63 := by
    rw [queryLimit] at bounded
    omega
  refine ⟨Int64.ofNat bound, ?_, ?_⟩
  · rw [Int64.not_lt, Int64.le_iff_toInt_le, Int64.toInt_ofNat_of_lt small]
    exact Int.natCast_nonneg bound
  · rw [Int64.toUInt64_ofNat', UInt64.toNat_ofNat', Nat.mod_eq_of_lt (by omega)]

theorem query_le {arg : Int64} (nonnegative : ¬ arg < 0) :
    arg.toUInt64.toNat ≤ queryLimit := by
  rw [Int64.toNat_toUInt64_of_le (Int64.not_lt.mp nonnegative), queryLimit]
  have bounded := arg.toNatClampNeg_lt
  omega

theorem reaches_query_iff (firstBounded : ∀ count, first = some count → count ≤ queryLimit)
    (secondBounded : ∀ count, second = some count → count ≤ queryLimit) :
    (∀ arg : Int64, ¬ arg < 0 → reaches first arg.toUInt64.toNat =
        reaches second arg.toUInt64.toNat) ↔
      first = second := by
  constructor
  · intro eq
    apply eq_of_reaches firstBounded secondBounded
    intro bound bounded
    obtain ⟨arg, nonnegative, rfl⟩ := exists_query bounded
    exact eq arg nonnegative
  · rintro rfl arg nonnegative
    rfl

namespace DaStore

variable (store : DaStore) (blueScore : UInt64)

/-- The confirmations of a recorded payload, as far as a query can tell. -/
def payloadConfirmations (payload : PayloadId) : Option Nat :=
  (store.payloads payload).map fun fragment =>
    min (SophisDaBackend.confirmations blueScore fragment.blueScore).toNat queryLimit

/-- The smallest number of confirmations among payloads, if all of them are
recorded. -/
def leastConfirmations : List PayloadId → Option Nat
  | [] => some queryLimit
  | payload :: rest => do
    let own ← store.payloadConfirmations blueScore payload
    let others ← leastConfirmations rest
    return min own others

def bundleConfirmations (bundle : PayloadId) : Option Nat :=
  match store.bundles bundle with
  | none => none
  | some index =>
    if UInt8.ofNat index.payloadIds.length = index.fragmentCount then
      store.leastConfirmations blueScore index.payloadIds
    else
      none

variable {store} {blueScore} {count : Nat}

theorem payloadConfirmations_le {payload : PayloadId}
    (got : store.payloadConfirmations blueScore payload = some count) : count ≤ queryLimit := by
  obtain ⟨fragment, -, rfl⟩ := map_eq_some_iff.mp got
  exact Nat.min_le_right _ _

theorem leastConfirmations_le {payloads : List PayloadId}
    (got : store.leastConfirmations blueScore payloads = some count) : count ≤ queryLimit := by
  cases payloads with
  | nil =>
    cases got
    exact Nat.le_refl _
  | cons payload rest =>
    obtain ⟨own, ownFound, more⟩ := bind_eq_some_iff.mp got
    obtain ⟨others, -, eq⟩ := bind_eq_some_iff.mp more
    cases eq
    exact (Nat.min_le_left _ _).trans (payloadConfirmations_le ownFound)

theorem bundleConfirmations_le {bundle : PayloadId}
    (got : store.bundleConfirmations blueScore bundle = some count) : count ≤ queryLimit := by
  rw [bundleConfirmations] at got
  split at got
  · cases got
  · split at got
    · exact leastConfirmations_le got
    · cases got

variable {minConfirmations : UInt64}

section

variable (bounded : minConfirmations.toNat ≤ queryLimit)
include bounded

theorem verifyPayload_eq (payload : PayloadId) :
    verifyPayload store blueScore payload minConfirmations =
      reaches (store.payloadConfirmations blueScore payload) minConfirmations.toNat := by
  rw [verifyPayload, payloadConfirmations, reaches]
  cases store.payloads payload with
  | none => rfl
  | some fragment =>
    simp only [map_some, any_some, ge_iff_le, UInt64.le_iff_toNat_le, decide_eq_decide]
    omega

theorem all_verifyPayload_eq (payloads : List PayloadId) : (payloads.all fun payload =>
      verifyPayload store blueScore payload minConfirmations) =
    reaches (store.leastConfirmations blueScore payloads) minConfirmations.toNat := by
  induction payloads with
  | nil => simp [leastConfirmations, reaches, bounded]
  | cons payload rest ih =>
    rw [List.all_cons, ih, verifyPayload_eq bounded, leastConfirmations]
    cases store.payloadConfirmations blueScore payload with
    | none => rfl
    | some own =>
      cases store.leastConfirmations blueScore rest with
      | none | some => simp [reaches]

theorem verifyBundle_eq (bundle : PayloadId) :
    verifyBundle store blueScore bundle minConfirmations =
      reaches (store.bundleConfirmations blueScore bundle) minConfirmations.toNat := by
  rw [verifyBundle, bundleConfirmations]
  cases store.bundles bundle with
  | none => rfl
  | some index =>
    simp only [all_verifyPayload_eq bounded]
    by_cases complete : UInt8.ofNat index.payloadIds.length = index.fragmentCount
    · simp [complete]
    · simp [complete, reaches]

end

variable {other : DaStore} {otherScore : UInt64}

theorem verifyPayload_agree_iff (payload : PayloadId) : (∀ arg : Int64, ¬ arg < 0 →
      verifyPayload store blueScore payload arg.toUInt64 =
        verifyPayload other otherScore payload arg.toUInt64) ↔
    store.payloadConfirmations blueScore payload =
      other.payloadConfirmations otherScore payload := by
  rw [← reaches_query_iff (fun _ => payloadConfirmations_le) (fun _ => payloadConfirmations_le)]
  refine forall₂_congr fun arg nonnegative => ?_
  rw [verifyPayload_eq (query_le nonnegative), verifyPayload_eq (query_le nonnegative)]

theorem verifyBundle_agree_iff (bundle : PayloadId) : (∀ arg : Int64, ¬ arg < 0 →
      verifyBundle store blueScore bundle arg.toUInt64 =
        verifyBundle other otherScore bundle arg.toUInt64) ↔
    store.bundleConfirmations blueScore bundle = other.bundleConfirmations otherScore bundle := by
  rw [← reaches_query_iff (fun _ => bundleConfirmations_le) (fun _ => bundleConfirmations_le)]
  refine forall₂_congr fun arg nonnegative => ?_
  rw [verifyBundle_eq (query_le nonnegative), verifyBundle_eq (query_le nonnegative)]

end DaStore

section

variable {hashers : Hashers}

def vrfDigest (hashers : Hashers) (index : UInt64) (block : Hash) : FixedBytes 32 :=
  FixedBytes.ofPrefix 32 (hashers.sha3
    (vrfDomainSeparator ++ leBytes 8 index.toNat ++ block.bytes)).bytes

/-- The tip of a chain, as far as a query can tell. -/
def SelectedChainStore.visibleTip (chain : SelectedChainStore) : Nat :=
  min ((chain.getTip.map Prod.fst).getD 0).toNat (queryLimit + 1)

variable {chain : SelectedChainStore} {index : UInt64}

section

variable (bounded : index.toNat ≤ queryLimit)
include bounded

theorem SelectedChainStore.visibleTip_le_iff : chain.visibleTip ≤ index.toNat ↔
    index ≥ (SophisVrfBackend.new hashers chain).currentTipIndex := by
  simp only [visibleTip, SophisVrfBackend.new, ge_iff_le, UInt64.le_iff_toNat_le]
  omega

theorem reply_pending_iff : (new hashers chain).reply index = (-3, none) ↔
    chain.visibleTip ≤ index.toNat := by
  rw [SelectedChainStore.visibleTip_le_iff bounded, HostVrf.reply]
  by_cases pending : index ≥ (new hashers chain).currentTipIndex
  · exact ⟨fun _ => pending, fun _ => if_pos pending⟩
  · refine ⟨fun answered => ?_, fun reached => absurd reached pending⟩
    rw [if_neg pending] at answered
    split at answered <;> simp at answered

theorem reply_of_lt_visibleTip (below : index.toNat < chain.visibleTip) :
    (new hashers chain).reply index =
      match (chain.getByIndex index).map (vrfDigest hashers index) with
      | none => (-6, none)
      | some bytes => (0, some bytes) := by
  have reached : ¬ index ≥ (new hashers chain).currentTipIndex := fun pending =>
      absurd ((SelectedChainStore.visibleTip_le_iff bounded).mpr pending) (Nat.not_le_of_lt below)
  rw [HostVrf.reply, if_neg reached]
  dsimp only [SophisVrfBackend.new, vrfRandomAt]
  cases chain.getByIndex index <;> rfl

end

/-- The randomness does not collide on the blocks that two chains have at one
index. -/
def Hashers.VrfCollisionFree (hashers : Hashers) (first second : SelectedChainStore) : Prop :=
  ∀ index block other, first.getByIndex index = some block → second.getByIndex index = some other →
      vrfDigest hashers index block = vrfDigest hashers index other → block = other

variable {first second : SelectedChainStore}

/-- Two chains answer every randomness query alike. -/
def SameReplies (hashers : Hashers) (first second : SelectedChainStore) :
    Prop :=
  ∀ index : Int64, ¬ index < 0 → (SophisVrfBackend.new hashers first).reply index.toUInt64 =
    (SophisVrfBackend.new hashers second).reply index.toUInt64

namespace SameReplies

theorem visibleTip_le (eq : SameReplies hashers first second) :
    first.visibleTip ≤ second.visibleTip := by
  by_contra shorter
  have tipBounded : first.visibleTip ≤ queryLimit + 1 := Nat.min_le_right _ _
  have bounded : second.visibleTip ≤ queryLimit := by omega
  obtain ⟨arg, nonnegative, atTip⟩ := exists_query bounded
  have refused : (new hashers second).reply arg.toUInt64 = (-3, none) :=
    (reply_pending_iff (query_le nonnegative)).mpr (Nat.le_of_eq atTip.symm)
  have reached := (reply_pending_iff (query_le nonnegative)).mp ((eq arg nonnegative).trans refused)
  exact shorter (atTip ▸ reached)

theorem symm (eq : SameReplies hashers first second) : SameReplies hashers second first :=
  fun index nonnegative => (eq index nonnegative).symm

theorem getByIndex_eq (free : hashers.VrfCollisionFree first second)
    (eq : SameReplies hashers first second) {index : Nat} (below : index < first.visibleTip) :
    first.getByIndex (UInt64.ofNat index) = second.getByIndex (UInt64.ofNat index) := by
  have tipBounded : first.visibleTip ≤ queryLimit + 1 := Nat.min_le_right _ _
  obtain ⟨arg, nonnegative, rfl⟩ := exists_query (Nat.le_of_lt_succ (below.trans_le tipBounded))
  have bounded := query_le nonnegative
  have replies := eq arg nonnegative
  rw [UInt64.ofNat_toNat]
  rw [reply_of_lt_visibleTip bounded below,
    reply_of_lt_visibleTip bounded (below.trans_le eq.visibleTip_le)] at replies
  cases firstFound : first.getByIndex arg.toUInt64 with
  | none =>
    cases secondFound : second.getByIndex arg.toUInt64 with
    | none => rfl
    | some other => simp [firstFound, secondFound] at replies
  | some block =>
    cases secondFound : second.getByIndex arg.toUInt64 with
    | none => simp [firstFound, secondFound] at replies
    | some other =>
      simp only [firstFound, secondFound, map_some, Prod.mk.injEq,
        Option.some.injEq, true_and] at replies
      rw [free _ _ _ firstFound secondFound replies]

end SameReplies

theorem sameReplies_iff (free : hashers.VrfCollisionFree first second) :
    SameReplies hashers first second ↔ first.visibleTip = second.visibleTip ∧
      ∀ index < first.visibleTip, first.getByIndex (UInt64.ofNat index) =
        second.getByIndex (UInt64.ofNat index) := by
  constructor
  · intro eq
    exact ⟨eq.visibleTip_le.antisymm eq.symm.visibleTip_le,
      fun _ below => eq.getByIndex_eq free below⟩
  · rintro ⟨tips, blocks⟩ arg nonnegative
    have bounded := query_le nonnegative
    by_cases below : arg.toUInt64.toNat < first.visibleTip
    · have sameBlock := blocks _ below
      rw [UInt64.ofNat_toNat] at sameBlock
      rw [reply_of_lt_visibleTip bounded below,
        reply_of_lt_visibleTip bounded (tips ▸ below), sameBlock]
    · have reached := Nat.le_of_not_lt below
      rw [(reply_pending_iff bounded).mpr reached, (reply_pending_iff bounded).mpr (tips ▸ reached)]

end

variable {hashers : Hashers}

/-- Two nodes show contracts the same payloads and bundles with the same
confirmations, and the same blocks below the same tip. -/
structure SameView (node other : Node) : Prop where
  payloads : ∀ payload, node.daStore.payloadConfirmations node.virtualBlueScore payload =
    other.daStore.payloadConfirmations other.virtualBlueScore payload
  bundles : ∀ bundle, node.daStore.bundleConfirmations node.virtualBlueScore bundle =
    other.daStore.bundleConfirmations other.virtualBlueScore bundle
  tips : node.selectedChain.visibleTip = other.selectedChain.visibleTip
  blocks : ∀ index < node.selectedChain.visibleTip,
    node.selectedChain.getByIndex (UInt64.ofNat index) =
      other.selectedChain.getByIndex (UInt64.ofNat index)

def Node.contractContext (hashers : Hashers) (executor : ContractExecutor)
    (headersDaaScore : Hash → Option UInt64) (node : Node)
    (populated : PopulatedTransaction) (povDaaScore : UInt64)
    (manifest : ContractManifest) (contractId : ContractId) :
    ExecutionContext :=
  (node.svm executor headersDaaScore).executionContext hashers populated
    povDaaScore manifest contractId

def queryManifest : ContractManifest where
  scriptHash := zeroHash
  upgradePolicy := .immutable
  requiredCapabilities := [.verifyDataAvailability, .vrfRandomness]

variable {executor : ContractExecutor}
  {headersDaaScore : Hash → Option UInt64} {node other : Node}

section

variable {first second : ExecutionContext}

theorem answer_congr (sameManifest : first.manifest = second.manifest)
    (samePayloads : ∀ payload (arg : Int64), ¬ arg < 0 →
      first.da.verifyPayload payload arg.toUInt64 =
        second.da.verifyPayload payload arg.toUInt64)
    (sameBundles : ∀ bundle (arg : Int64), ¬ arg < 0 →
      first.da.verifyBundle bundle arg.toUInt64 =
        second.da.verifyBundle bundle arg.toUInt64)
    (sameReplies : ∀ arg : Int64, ¬ arg < 0 →
      first.vrf.reply arg.toUInt64 = second.vrf.reply arg.toUInt64) (query : HostQuery) :
    first.answer query = second.answer query := by
  have sameGrants (capability : Capability) :
      first.hasCapability capability = second.hasCapability capability := by
    rw [hasCapability, hasCapability, sameManifest]
  cases query with
  | verifyDa charged id padding minConfirmations queryKind =>
    simp only [answer, sophisVerifyDa, sameGrants]
    by_cases negative : minConfirmations < 0
    · simp [negative]
    · cases id with
      | none => rfl
      | some id =>
        simp only [samePayloads id minConfirmations negative,
          sameBundles id minConfirmations negative]
  | vrfRandomAt charged chainIndex writable =>
    rw [answer, answer]
    by_cases negative : chainIndex < 0
    · simp [sophisVrfRandomAt, sameGrants, negative]
    · rw [sophisVrfRandomAt_eq negative, sophisVrfRandomAt_eq negative,
        sameGrants, sameReplies chainIndex negative]

theorem backends_of_answers (firstGrants : first.manifest = queryManifest)
    (secondGrants : second.manifest = queryManifest)
    (eq : ∀ query, first.answer query = second.answer query) {arg : Int64}
    (nonnegative : ¬ arg < 0) :
    (∀ payload, first.da.verifyPayload payload arg.toUInt64 =
        second.da.verifyPayload payload arg.toUInt64) ∧
      (∀ bundle, first.da.verifyBundle bundle arg.toUInt64 =
        second.da.verifyBundle bundle arg.toUInt64) ∧
      first.vrf.reply arg.toUInt64 = second.vrf.reply arg.toUInt64 := by
  have grants {context : ExecutionContext} (manifest : context.manifest = queryManifest) :
      context.hasCapability .verifyDataAvailability = true ∧
        context.hasCapability .vrfRandomness = true := by
    rw [hasCapability, hasCapability, manifest]
    exact ⟨rfl, rfl⟩
  -- One and zero are different answers.
  have same_of_presence {left right : Bool}
      (answers : ((if left then 1 else 0, none) : HostAnswer) = (if right then 1 else 0, none)) :
      left = right := by
    cases left <;> cases right <;> simp at answers ⊢
  obtain ⟨firstDa, firstVrf⟩ := grants firstGrants
  obtain ⟨secondDa, secondVrf⟩ := grants secondGrants
  refine ⟨fun payload => ?_, fun bundle => ?_, ?_⟩
  · have answers := eq (.verifyDa true (some payload) 0 arg 0)
    rw [answer, answer, sophisVerifyDa_payload firstDa nonnegative,
      sophisVerifyDa_payload secondDa nonnegative] at answers
    exact same_of_presence answers
  · have answers := eq (.verifyDa true (some bundle) 0 arg 1)
    rw [answer, answer, sophisVerifyDa_bundle firstDa nonnegative,
      sophisVerifyDa_bundle secondDa nonnegative] at answers
    exact same_of_presence answers
  · have answers := eq (.vrfRandomAt true arg true)
    rw [answer, answer, sophisVrfRandomAt_eq nonnegative,
      sophisVrfRandomAt_eq nonnegative, firstVrf, secondVrf] at answers
    simpa using answers

end

/-- Two nodes answer every query of every contract alike exactly when they
show the same view, whatever the past of the validated block is. -/
theorem hostQueries_agree_iff (hashers : Hashers) (executor : ContractExecutor)
    (headersDaaScore : Hash → Option UInt64) (node other : Node)
    (collisionFree : hashers.VrfCollisionFree node.selectedChain other.selectedChain) :
    (∀ populated povDaaScore manifest contractId query,
        (node.contractContext hashers executor headersDaaScore populated
            povDaaScore manifest contractId).answer query =
          (other.contractContext hashers executor headersDaaScore populated
            povDaaScore manifest contractId).answer query) ↔
      SameView node other := by
  constructor
  · intro eq
    have backends {arg : Int64} (nonnegative : ¬ arg < 0) := backends_of_answers rfl rfl
        (eq (unsignedSpend ⟨0, []⟩) 0 queryManifest zeroHash) nonnegative
    obtain ⟨tips, blocks⟩ := (sameReplies_iff collisionFree).mp fun _ nonnegative =>
        (backends nonnegative).2.2
    exact
      { payloads := fun payload =>
          (DaStore.verifyPayload_agree_iff payload).mp fun _ nonnegative =>
            (backends nonnegative).1 payload
        bundles := fun bundle =>
          (DaStore.verifyBundle_agree_iff bundle).mp fun _ nonnegative =>
            (backends nonnegative).2.1 bundle
        tips := tips
        blocks := blocks }
  · intro view populated povDaaScore manifest contractId query
    refine answer_congr ?_ ?_ ?_ ?_ query
    · rfl
    · exact fun payload => (DaStore.verifyPayload_agree_iff payload).mpr (view.payloads payload)
    · exact fun bundle => (DaStore.verifyBundle_agree_iff bundle).mpr (view.bundles bundle)
    · exact (sameReplies_iff collisionFree).mpr ⟨view.tips, view.blocks⟩

def carriedBundle : PayloadId :=
  ⟨[56, 111, 14, 151, 126, 101, 231, 96, 146, 23, 113, 74, 124, 212, 80, 225, 69, 239, 188, 100, 90,
    215, 199, 199, 141, 108, 159, 18, 181, 44, 180, 223, 34, 114, 155, 35, 48, 183, 245, 38, 123,
    172, 154, 87, 80, 217, 19, 14], rfl⟩

def carriedPayload : PayloadId :=
  ⟨[73, 216, 39, 80, 179, 31, 30, 143, 68, 216, 128, 234, 20, 130, 153, 231,
    170, 175, 17, 93, 171, 203, 218, 51, 120, 123, 216, 26, 97, 180, 194, 22,
    65, 151, 62, 3, 171, 20, 59, 150, 134, 136, 24, 229, 7, 89, 111, 18], rfl⟩

def firstBlockDigest : Sha3Digest :=
  ⟨[209, 136, 59, 254, 169, 43, 134, 74, 154, 159, 213, 157, 140, 223, 30, 185, 203, 14, 166, 5, 85,
    110, 109, 191, 200, 93, 29, 9, 125, 148, 186, 171, 46, 144, 247, 228, 170, 241, 26, 145, 169,
    251, 147, 99, 76, 87, 137, 86], rfl⟩

/-- The hash functions with the digests of the fragment, which has 65 bytes,
and of the block. -/
def carrierHashers : Hashers :=
  { Hashers.zero with
    sha3 := fun bytes =>
      if bytes.length = 65 then carriedPayload else firstBlockDigest }

def publication : Transaction :=
  { (unsignedSpend ⟨0, [0x51]⟩).tx with
    outputs := [
      ⟨0, ⟨scriptVersionCarrier, carrierMagic ++ [carrierFlagLast, 0, 1, 0] ++
        leBytes 4 1 ++ carriedBundle.bytes ++ [42]⟩⟩] }

def publishingBlock : ChainBlock where
  hash := FixedBytes.replicate 32 1
  daaScore := 1
  blueScore := 1
  accepted := [publication]

def laterBlock : ChainBlock where
  hash := FixedBytes.replicate 32 2
  daaScore := 2
  blueScore := 2
  accepted := []

/-- The node has the block that published the bundle. -/
def publishedHistory : List NodeEvent :=
  [.commitUtxoState publishingBlock, .commitVirtualState ⟨[], [publishingBlock.hash]⟩ 2]

/-- The node has one block more. -/
def aheadHistory : List NodeEvent :=
  publishedHistory ++ [.commitUtxoState laterBlock, .commitVirtualState ⟨[], [laterBlock.hash]⟩ 3]

/-- The answers of a node to the questions whether the bundle has two
confirmations and what the randomness of the first block is. -/
def answersAfter (events : List NodeEvent) : Option (HostAnswer × HostAnswer) :=
  ((Node.initial zeroHash).run carrierHashers events).map fun node =>
    let context := node.contractContext carrierHashers idleExecutor
      (fun _ => none) (unsignedSpend ⟨1, []⟩) 2 queryManifest zeroHash
    (context.answer (.verifyDa true (some carriedBundle) 0 2 1),
      context.answer (.vrfRandomAt true 1 true))

/-- Both nodes judge the same transaction for the same block, and their
answers differ. -/
theorem aheadNode_answers_differ : answersAfter publishedHistory = some ((0, none), (-3, none)) ∧
    answersAfter aheadHistory = some ((1, none),
      (0, some (FixedBytes.ofPrefix 32 firstBlockDigest.bytes))) := by
  constructor <;> decide +kernel

/-- A side block that a node has committed, but that is not on its chain, does
not show. -/
theorem sideBlock_answers_agree : ∃ node other,
    (Node.initial zeroHash).run carrierHashers publishedHistory = some node ∧
      node.run carrierHashers [.commitUtxoState laterBlock] = some other ∧
      ∀ populated povDaaScore manifest contractId query,
        (node.contractContext carrierHashers idleExecutor (fun _ => none)
            populated povDaaScore manifest contractId).answer query =
          (other.contractContext carrierHashers idleExecutor (fun _ => none) populated povDaaScore
            manifest contractId).answer query := by
  have ran : ((Node.initial zeroHash).run carrierHashers publishedHistory).isSome = true := by
    decide +kernel
  obtain ⟨node, published⟩ := isSome_iff_exists.mp ran
  exact ⟨node, _, published, rfl,
    (hostQueries_agree_iff carrierHashers idleExecutor (fun _ => none) node _
      (fun _ _ _ got alsoFound _ => Option.some.inj (got.symm.trans alsoFound))).mpr
      ⟨fun _ => rfl, fun _ => rfl, rfl, fun _ _ => rfl⟩⟩

end Sophis
