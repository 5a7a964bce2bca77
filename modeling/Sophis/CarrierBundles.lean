import Sophis.NodeHistory

namespace Sophis

open ByteCodec ExceptLoop Function List SophisDaBackend

/-!
# Bundles of carriers

Anyone may publish carriers under any bundle identifier. The index of a bundle
takes them all and has the count of the first, and a bundle counts as complete
when the number of its carriers is that count. This is completeness only
while no two carriers of the bundle disagree or repeat an index.
-/

variable {accepted : CarrierIndex → Prop} {store : DaStore}

def DaStore.Holds (store : DaStore) (bundle payload : PayloadId) (fragment : PayloadMeta) : Prop :=
  store.payloads payload = some fragment ∧ fragment.bundleId = bundle

/-- The index of a bundle lists its payload rows once each and has the count of
one of them. -/
structure BundleIndex.Lists (index : BundleIndex) (store : DaStore)
    (bundle : PayloadId) : Prop where
  distinct : index.payloadIds.Nodup
  mem_iff : ∀ payload, payload ∈ index.payloadIds ↔ ∃ fragment, store.Holds bundle payload fragment
  claimed : ∃ payload fragment, store.Holds bundle payload fragment ∧
    fragment.fragmentCount = index.fragmentCount

/-- What indexing keeps true: every row is that of an accepted carrier, and the
bundles list the rows. -/
structure DaStore.Indexed (accepted : CarrierIndex → Prop)
    (store : DaStore) : Prop where
  sources : ∀ payload fragment, store.payloads payload = some fragment →
    accepted ⟨payload, fragment⟩
  bundles : ∀ bundle index, store.bundles bundle = some index → index.Lists store bundle
  unlisted : ∀ bundle, store.bundles bundle = none →
    ∀ payload fragment, ¬ store.Holds bundle payload fragment

open DaStore

theorem DaStore.indexed_empty : empty.Indexed accepted where
  sources _ _ got := by cases got
  bundles _ _ got := by cases got
  unlisted := by rintro _ - _ _ ⟨⟨⟩, -⟩

section

variable {carrier : CarrierIndex} (block : Hash) (isNew : store.payloads carrier.payloadId = none)
include isNew

theorem DaStore.indexCarrier_of_new : store.indexCarrier block carrier =
    { payloads := update store.payloads carrier.payloadId (some carrier.entry)
      bundles := update store.bundles carrier.entry.bundleId
        (some (store.extendedBundle carrier))
      byBlock := update store.byBlock block (some ((store.byBlock block).getD [] ++
        [carrier.payloadId])) } := by
  simp only [indexCarrier, isNew]

theorem DaStore.holds_indexCarrier_iff {bundle payload : PayloadId} {fragment : PayloadMeta} :
    (store.indexCarrier block carrier).Holds bundle payload fragment ↔
      store.Holds bundle payload fragment ∨
        (payload = carrier.payloadId ∧ bundle = carrier.entry.bundleId ∧
          fragment = carrier.entry) := by
  rw [indexCarrier_of_new block isNew]
  simp only [DaStore.Holds]
  by_cases eq : payload = carrier.payloadId
  · subst eq
    rw [update_self, isNew]
    constructor
    · rintro ⟨⟨⟩, rfl⟩
      exact .inr ⟨rfl, rfl, rfl⟩
    · rintro (⟨⟨⟩, -⟩ | ⟨-, rfl, rfl⟩)
      exact ⟨rfl, rfl⟩
  · rw [update_of_ne eq]
    constructor
    · exact .inl
    · rintro (held | ⟨absurdity, -⟩)
      · exact held
      · exact absurd absurdity eq

theorem BundleIndex.lists_extendedBundle (indexed : store.Indexed accepted) :
    (store.extendedBundle carrier).Lists (store.indexCarrier block carrier)
      carrier.entry.bundleId := by
  have holdsNew : (store.indexCarrier block carrier).Holds
      carrier.entry.bundleId carrier.payloadId carrier.entry :=
    (holds_indexCarrier_iff block isNew).mpr (.inr ⟨rfl, rfl, rfl⟩)
  have sorted : ∀ ids : List PayloadId, (ids.insertionSort fun first second =>
      store.fragmentPosition carrier first ≤ store.fragmentPosition carrier second).Perm ids :=
    fun ids => perm_insertionSort _ ids
  cases known : store.bundles carrier.entry.bundleId with
  | none =>
    have none := indexed.unlisted _ known
    have single : (store.extendedBundle carrier) =
        ⟨carrier.entry.fragmentCount, [carrier.payloadId]⟩ := by
      simp [extendedBundle, known]
    rw [single]
    refine ⟨nodup_singleton _, fun payload => ?_, _, _, holdsNew, rfl⟩
    simp only [mem_singleton, holds_indexCarrier_iff block isNew]
    constructor
    · rintro rfl
      exact ⟨_, .inr ⟨rfl, trivial, rfl⟩⟩
    · rintro ⟨fragment, held | ⟨eq, -⟩⟩
      · exact absurd held (none _ _)
      · exact eq
  | some index =>
    have lists := indexed.bundles _ _ known
    have ids : (store.extendedBundle carrier).payloadIds.Perm
        (index.payloadIds ++ [carrier.payloadId]) := by
      rw [extendedBundle, known]
      exact sorted _
    have count : (store.extendedBundle carrier).fragmentCount = index.fragmentCount := by
      rw [extendedBundle, known]
      rfl
    have unlisted : carrier.payloadId ∉ index.payloadIds := by
      intro mem
      obtain ⟨fragment, got, -⟩ := (lists.mem_iff _).mp mem
      rw [isNew] at got
      cases got
    refine ⟨?nodup, fun payload => ?mem_iff, ?claimed⟩
    case nodup =>
      rw [ids.nodup_iff]
      exact nodup_append.mpr ⟨lists.distinct, nodup_singleton _,
        fun first mem second isNew eq => unlisted (by
          rw [← mem_singleton.mp isNew, ← eq]
          exact mem)⟩
    case mem_iff =>
      rw [ids.mem_iff, mem_append, mem_singleton, lists.mem_iff]
      simp only [holds_indexCarrier_iff block isNew]
      constructor
      · rintro (⟨fragment, held⟩ | rfl)
        · exact ⟨fragment, .inl held⟩
        · exact ⟨_, .inr ⟨rfl, trivial, rfl⟩⟩
      · rintro ⟨fragment, held | ⟨eq, -⟩⟩
        · exact .inl ⟨fragment, held⟩
        · exact .inr eq
    case claimed =>
      obtain ⟨payload, fragment, held, eq⟩ := lists.claimed
      exact ⟨payload, fragment, (holds_indexCarrier_iff block isNew).mpr (.inl held),
        eq.trans count.symm⟩

end

variable {carrier : CarrierIndex}

theorem DaStore.Indexed.indexCarrier (indexed : store.Indexed accepted) (block : Hash)
    (isAccepted : accepted carrier) : (store.indexCarrier block carrier).Indexed accepted := by
  cases known : store.payloads carrier.payloadId with
  | some fragment =>
    have unchanged : store.indexCarrier block carrier = store := by
      simp only [DaStore.indexCarrier, known]
    rwa [unchanged]
  | none =>
    have holds := @DaStore.holds_indexCarrier_iff store carrier block known
    have kept := indexCarrier_of_new block known
    refine ⟨?sources, ?bundles, ?unlisted⟩
    case sources =>
      intro payload fragment got
      rcases holds.mp ⟨got, rfl⟩ with ⟨old, -⟩ | ⟨rfl, -, rfl⟩
      · exact indexed.sources _ _ old
      · exact isAccepted
    case bundles =>
      intro bundle index got
      by_cases eq : bundle = carrier.entry.bundleId
      · subst eq
        have listed := BundleIndex.lists_extendedBundle block known indexed
        rw [kept] at got
        simp only [update_self, Option.some.injEq] at got
        rwa [got] at listed
      · have old : store.bundles bundle = some index := by
          rw [kept] at got
          simpa only [update_of_ne eq] using got
        have lists := indexed.bundles bundle index old
        have sameRows : ∀ payload fragment, (store.indexCarrier block carrier).Holds bundle payload
            fragment ↔ store.Holds bundle payload fragment := by
          intro payload fragment
          rw [holds]
          exact or_iff_left fun named => eq named.2.1
        obtain ⟨payload, fragment, held, claims⟩ := lists.claimed
        refine ⟨lists.distinct, fun payload => ?_, payload, fragment,
          (sameRows _ _).mpr held, claims⟩
        simp only [sameRows]
        exact lists.mem_iff payload
    case unlisted =>
      intro bundle missing payload fragment held
      have ne : bundle ≠ carrier.entry.bundleId := by
        rintro rfl
        rw [kept] at missing
        simp only [update_self] at missing
        cases missing
      rw [kept] at missing
      simp only [update_of_ne ne] at missing
      rcases holds.mp held with old | ⟨-, named, -⟩
      · exact indexed.unlisted bundle missing payload fragment old
      · exact ne named

theorem DaStore.payloads_indexCarrier {block : Hash} {payload : PayloadId} {fragment : PayloadMeta}
    (got : store.payloads payload = some fragment) :
    (store.indexCarrier block carrier).payloads payload = some fragment := by
  cases known : store.payloads carrier.payloadId with
  | some other => simpa only [indexCarrier, known] using got
  | none => exact ((holds_indexCarrier_iff block known).mpr (.inl ⟨got, rfl⟩)).1

theorem DaStore.Indexed.indexCarrierBatch (indexed : store.Indexed accepted) (block : Hash)
    {carriers : List CarrierIndex} (areAccepted : ∀ carrier ∈ carriers, accepted carrier) :
    (store.indexCarrierBatch block carriers).Indexed accepted ∧
      ∀ payload fragment, store.payloads payload = some fragment →
        (store.indexCarrierBatch block carriers).payloads payload = some fragment := by
  induction carriers generalizing store with
  | nil => exact ⟨indexed, fun _ _ got => got⟩
  | cons carrier rest ih =>
    obtain ⟨restIndexed, restKept⟩ := ih (indexed.indexCarrier block (areAccepted _ mem_cons_self))
      (forall_mem_cons.mp areAccepted).2
    exact ⟨restIndexed, fun payload fragment got =>
      restKept payload fragment (payloads_indexCarrier got)⟩

variable (hashers : Hashers)

/-- The store after a history of chain blocks. -/
def indexHistory (history : List ChainBlock) : DaStore :=
  history.foldl (fun store block => store.indexCarrierBatch block.hash (block.carriers hashers))
    .empty

def AcceptedIn (history : List ChainBlock) (carrier : CarrierIndex) : Prop :=
  ∃ block ∈ history, carrier ∈ block.carriers hashers

variable {hashers}

theorem DaStore.Indexed.mono {accepted wider : CarrierIndex → Prop} {store : DaStore}
    (indexed : store.Indexed accepted) (implies : ∀ carrier, accepted carrier → wider carrier) :
    store.Indexed wider :=
  { indexed with
    sources := fun payload fragment got => implies _ (indexed.sources payload fragment got) }

theorem indexHistory_append (history : List ChainBlock) (block : ChainBlock) :
    indexHistory hashers (history ++ [block]) =
      (indexHistory hashers history).indexCarrierBatch block.hash (block.carriers hashers) := by
  simp [indexHistory, foldl_append]

theorem indexHistory_indexed (history : List ChainBlock) :
    (indexHistory hashers history).Indexed (AcceptedIn hashers history) := by
  induction history using List.reverseRecOn with
  | nil => exact indexed_empty
  | append_singleton history block ih =>
    rw [indexHistory_append]
    refine ((ih.mono ?_).indexCarrierBatch block.hash fun carrier mem => ⟨block, by simp, mem⟩).1
    rintro carrier ⟨other, isOld, mem⟩
    exact ⟨other, mem_append_left _ isOld, mem⟩

theorem payloads_indexHistory_append (history later : List ChainBlock) {payload : PayloadId}
    {fragment : PayloadMeta}
    (got : (indexHistory hashers history).payloads payload = some fragment) :
    (indexHistory hashers (history ++ later)).payloads payload = some fragment := by
  induction later using List.reverseRecOn with
  | nil => rwa [append_nil]
  | append_singleton later block ih =>
    rw [← append_assoc, indexHistory_append]
    exact ((indexHistory_indexed _).mono (fun _ _ => trivial) |>.indexCarrierBatch block.hash
      (fun _ _ => trivial)).2 _ _ ih

theorem fragment_bounds_of_parse {script : List UInt8} {header : CarrierHeader}
    (parses : parseCarrierHeader script = .ok header) :
    header.fragmentIndex < header.fragmentCount ∧ header.fragmentCount ≤ maxFragments := by
  simp only [parseCarrierHeader, bind_eq_ok, check_eq_ok, reject_eq_ok, not_or] at parses
  obtain ⟨-, -, -, -, -, ⟨-, small⟩, inRange, -, -, -, -, eq⟩ := parses
  cases eq
  exact ⟨UInt8.not_le.mp inRange, UInt8.not_lt.mp small⟩

theorem fragment_bounds_of_accepted {history : List ChainBlock} {carrier : CarrierIndex}
    (isAccepted : AcceptedIn hashers history carrier) :
    carrier.entry.fragmentIndex < carrier.entry.fragmentCount ∧
      carrier.entry.fragmentCount ≤ maxFragments := by
  obtain ⟨block, -, mem⟩ := isAccepted
  obtain ⟨tx, -, inTx⟩ := mem_flatMap.mp mem
  obtain ⟨output, -, indexed⟩ := mem_filterMap.mp inTx
  rw [carrierIndex?] at indexed
  split at indexed
  · cases indexed
  split at indexed
  · cases indexed
  · rename_i header parses
    cases indexed
    exact fragment_bounds_of_parse parses

section

/-- The fragments of a bundle agree on their number and no two have the same
index. -/
structure DaStore.Uniform (store : DaStore) (bundle : PayloadId) : Prop where
  sameCount : ∀ {first second row other},
    store.Holds bundle first row → store.Holds bundle second other →
      row.fragmentCount = other.fragmentCount
  distinctIndex : ∀ {first second row other},
    store.Holds bundle first row → store.Holds bundle second other →
      row.fragmentIndex = other.fragmentIndex → first = second

/-- Some count that a fragment of the bundle claims is met: every index below
it has a fragment with that count and enough confirmations. -/
def DaStore.Complete (store : DaStore) (currentBlueScore : UInt64)
    (bundle : PayloadId) (minConfirmations : UInt64) : Prop :=
  ∃ count : UInt8, (∃ payload fragment, store.Holds bundle payload fragment ∧
      fragment.fragmentCount = count) ∧
    ∀ position < count, ∃ payload fragment, store.Holds bundle payload fragment ∧
      fragment.fragmentCount = count ∧
      fragment.fragmentIndex = position ∧
      SophisDaBackend.confirmations currentBlueScore fragment.blueScore ≥ minConfirmations

theorem nodup_below_spec {numbers : List Nat} {bound : Nat} (nodup : numbers.Nodup)
    (below : ∀ number ∈ numbers, number < bound) :
    numbers.length ≤ bound ∧ (numbers.length = bound → ∀ number < bound, number ∈ numbers) := by
  have subset : numbers.toFinset ⊆ Finset.range bound := by
    intro other mem
    exact Finset.mem_range.mpr (below other (List.mem_toFinset.mp mem))
  have size : numbers.toFinset.card = numbers.length := toFinset_card_of_nodup nodup
  have within := Finset.card_le_card subset
  rw [size, Finset.card_range] at within
  refine ⟨within, fun many number inRange => ?_⟩
  have full : numbers.toFinset = Finset.range bound := by
    refine Finset.eq_of_subset_of_card_le subset ?_
    rw [Finset.card_range, size, many]
  rw [← List.mem_toFinset, full]
  exact Finset.mem_range.mpr inRange

section

variable {accepted : CarrierIndex → Prop} {store : DaStore}
  {bundle : PayloadId} {index : BundleIndex}

def DaStore.positionOf (store : DaStore) (payload : PayloadId) : Nat :=
  match store.payloads payload with
  | some fragment => fragment.fragmentIndex.toNat
  | none => 0

variable {payload : PayloadId} {fragment : PayloadMeta}

theorem DaStore.Holds.positionOf_eq (held : store.Holds bundle payload fragment) :
    store.positionOf payload = fragment.fragmentIndex.toNat := by
  rw [positionOf, held.1]

variable (lists : index.Lists store bundle) (uniform : store.Uniform bundle)
  (bounds : ∀ payload fragment, store.Holds bundle payload fragment →
    fragment.fragmentIndex < fragment.fragmentCount ∧ fragment.fragmentCount ≤ maxFragments)
include lists uniform

theorem BundleIndex.Lists.count_eq (held : store.Holds bundle payload fragment) :
    fragment.fragmentCount = index.fragmentCount := by
  obtain ⟨_, _, other, eq⟩ := lists.claimed
  exact (uniform.sameCount held other).trans eq

include bounds

theorem BundleIndex.Lists.positions : (index.payloadIds.map store.positionOf).Nodup ∧
    ∀ pos ∈ index.payloadIds.map store.positionOf, pos < index.fragmentCount.toNat := by
  constructor
  · refine List.Nodup.map_on ?_ lists.distinct
    intro first isFirst second isSecond eq
    obtain ⟨row, held⟩ := (lists.mem_iff first).mp isFirst
    obtain ⟨other, otherHeld⟩ := (lists.mem_iff second).mp isSecond
    rw [held.positionOf_eq, otherHeld.positionOf_eq] at eq
    exact uniform.distinctIndex held otherHeld (UInt8.toNat_inj.mp eq)
  · intro pos mem
    obtain ⟨payload, isListed, rfl⟩ := List.mem_map.mp mem
    obtain ⟨row, held⟩ := (lists.mem_iff payload).mp isListed
    rw [held.positionOf_eq, ← lists.count_eq uniform held]
    exact (bounds payload row held).1

theorem BundleIndex.Lists.full_iff : UInt8.ofNat index.payloadIds.length = index.fragmentCount ↔
    index.payloadIds.length = index.fragmentCount.toNat := by
  obtain ⟨nodup, below⟩ := lists.positions uniform bounds
  have within := (nodup_below_spec nodup below).1
  rw [length_map] at within
  have small : index.payloadIds.length < 256 := Nat.lt_of_le_of_lt within (UInt8.toNat_lt _)
  rw [← UInt8.toNat_inj, UInt8.toNat_ofNat', Nat.mod_eq_of_lt small]

end

variable {bundle : PayloadId}

theorem verifyBundle_iff_complete {accepted : CarrierIndex → Prop} {store : DaStore}
    (indexed : store.Indexed accepted)
    (bounds : ∀ payload fragment, store.Holds bundle payload fragment →
      fragment.fragmentIndex < fragment.fragmentCount ∧
        fragment.fragmentCount ≤ maxFragments) (uniform : store.Uniform bundle)
    (currentBlueScore minConfirmations : UInt64) :
    verifyBundle store currentBlueScore bundle minConfirmations = true ↔
      store.Complete currentBlueScore bundle minConfirmations := by
  rw [verifyBundle]
  cases known : store.bundles bundle with
  | none =>
    constructor
    · intro absurdity
      cases absurdity
    · rintro ⟨_, ⟨payload, fragment, held, -⟩, -⟩
      exact absurd held (indexed.unlisted bundle known payload fragment)
  | some index =>
    have lists := indexed.bundles bundle index known
    obtain ⟨nodup, below⟩ := lists.positions uniform bounds
    obtain ⟨within, surjective⟩ := nodup_below_spec nodup below
    rw [length_map] at within surjective
    simp only [Bool.and_eq_true, decide_eq_true_eq, List.all_eq_true, lists.full_iff uniform bounds]
    constructor
    · rintro ⟨full, confirmed⟩
      refine ⟨index.fragmentCount, lists.claimed, ?_⟩
      intro pos inRange
      obtain ⟨payload, isListed, eq⟩ := List.mem_map.mp (surjective full pos.toNat inRange)
      obtain ⟨fragment, held⟩ := (lists.mem_iff payload).mp isListed
      rw [held.positionOf_eq] at eq
      have isConfirmed := confirmed payload isListed
      simp only [verifyPayload, held.1, decide_eq_true_eq] at isConfirmed
      exact ⟨payload, fragment, held, lists.count_eq uniform held,
        UInt8.toNat_inj.mp eq, isConfirmed⟩
    · rintro ⟨count, ⟨_, _, claims, rfl⟩, present⟩
      rw [lists.count_eq uniform claims] at present
      constructor
      · refine Nat.le_antisymm within ?_
        have covers : Finset.range index.fragmentCount.toNat ⊆
            (index.payloadIds.map store.positionOf).toFinset := by
          intro pos inRange
          rw [Finset.mem_range] at inRange
          have isByte : pos < 256 := inRange.trans (UInt8.toNat_lt _)
          have asByte : (UInt8.ofNat pos).toNat = pos := UInt8.toNat_ofNat_of_lt' isByte
          obtain ⟨payload, fragment, held, -, eq, -⟩ := present (UInt8.ofNat pos)
              (UInt8.lt_iff_toNat_lt.mpr (by rwa [asByte]))
          rw [List.mem_toFinset, List.mem_map]
          exact ⟨payload, (lists.mem_iff payload).mpr ⟨fragment, held⟩, by
            rw [held.positionOf_eq, eq, asByte]⟩
        have enough := (Finset.card_le_card covers).trans (toFinset_card_le _)
        rwa [Finset.card_range, length_map] at enough
      · intro payload isListed
        obtain ⟨fragment, held⟩ := (lists.mem_iff payload).mp isListed
        have inRange := (bounds payload fragment held).1
        rw [lists.count_eq uniform held] at inRange
        obtain ⟨other, row, otherHeld, -, eq, isConfirmed⟩ := present fragment.fragmentIndex inRange
        cases uniform.distinctIndex held otherHeld eq.symm
        cases held.1.symm.trans otherHeld.1
        simp only [verifyPayload, held.1, decide_eq_true_eq]
        exact isConfirmed

variable {hashers : Hashers} {history : List ChainBlock}

theorem DaStore.Holds.indexHistory_append {payload : PayloadId} {fragment : PayloadMeta}
    (held : (indexHistory hashers history).Holds bundle payload fragment)
    (later : List ChainBlock) :
    (indexHistory hashers (history ++ later)).Holds bundle payload fragment :=
  ⟨payloads_indexHistory_append history later held.1, held.2⟩

theorem uniform_of_append {later : List ChainBlock}
    (uniform : (indexHistory hashers (history ++ later)).Uniform bundle) :
    (indexHistory hashers history).Uniform bundle := by
  refine ⟨fun first second => ?_, fun first second => ?_⟩
  · exact uniform.sameCount (first.indexHistory_append later) (second.indexHistory_append later)
  · exact uniform.distinctIndex (first.indexHistory_append later) (second.indexHistory_append later)

end

/-- Hash functions that tell scripts apart by the byte after the header. -/
def bundleHashers : Hashers :=
  { Hashers.zero with sha3 := fun script => FixedBytes.ofPrefix 48 (script.drop 64) }

/-- A fragment that holds one byte. -/
def oneByteCarrier (flags count index data : UInt8) : List UInt8 :=
  carrierMagic ++ [flags, 0, count, index, 1, 0, 0, 0] ++ List.replicate 48 5 ++ [data]

/-- A chain block that accepts one transaction with one fragment. -/
def bundleBlock (flags count index data : UInt8) : ChainBlock where
  hash := FixedBytes.replicate 32 data
  daaScore := 10
  blueScore := 10
  accepted := [{
    version := 0
    inputs := []
    outputs := [{
      value := 0
      scriptPublicKey := {
        version := scriptVersionCarrier
        script := oneByteCarrier flags count index data
      }
    }]
    lockTime := 0
    subnetworkId := subnetworkIdNative
    gas := 0
    payload := []
    mass := 0
  }]

def intrudedBundle : PayloadId := FixedBytes.replicate 48 5

def oneByteFragment (count index data : UInt8) : PayloadMeta where
  acceptingBlockHash := FixedBytes.replicate 32 data
  blueScore := 10
  fragmentIndex := index
  fragmentCount := count
  bundleId := intrudedBundle

/-- A bundle of two fragments, in two blocks. -/
def twoFragments : List ChainBlock :=
  [bundleBlock carrierFlagFragmented 2 0 1,
    bundleBlock (carrierFlagFragmented ||| carrierFlagLast) 2 1 2]

def twoRows : List CarrierIndex :=
  [⟨FixedBytes.ofPrefix 48 [1], oneByteFragment 2 0 1⟩,
    ⟨FixedBytes.ofPrefix 48 [2], oneByteFragment 2 1 2⟩]

theorem twoFragments_uniform :
    (indexHistory bundleHashers twoFragments).Uniform intrudedBundle := by
  have only : ∀ {payload fragment},
      (indexHistory bundleHashers twoFragments).Holds intrudedBundle payload fragment →
        ⟨payload, fragment⟩ ∈ twoRows := by
    intro payload fragment held
    obtain ⟨block, isBlock, mem⟩ :=
      (indexHistory_indexed twoFragments).sources payload fragment held.1
    have rows : twoFragments.flatMap (ChainBlock.carriers bundleHashers) = twoRows := by
      decide
    rw [← rows]
    exact mem_flatMap.mpr ⟨block, isBlock, mem⟩
  have counts : ∀ row ∈ twoRows, row.entry.fragmentCount = 2 := by decide
  have distinct : ∀ row ∈ twoRows, ∀ other ∈ twoRows,
      row.entry.fragmentIndex = other.entry.fragmentIndex → row.payloadId = other.payloadId := by
    decide
  constructor
  · intro first second row other held otherHeld
    exact (counts _ (only held)).trans (counts _ (only otherHeld)).symm
  · intro first second row other held otherHeld same
    exact distinct _ (only held) _ (only otherHeld) same

end Sophis
