import Sophis.TransactionHashing

namespace Sophis

open ByteCodec List Option

/-!
# Header hashes

`consensus/core/src/header.rs` and `consensus/core/src/hashing/header.rs`: a
header with its parents by level in run-length encoding, and the bytes that are
hashed for it. The hash is a stored field, so a header may carry one that is
not its own. Different contents are hashed from different bytes.
-/

section

/-- The parents by level, as runs `(end, parents)`: the levels from the end of
the run before up to this end have these parents. A vector has a machine word
as its length. -/
structure CompressedParents where
  runs : List (UInt8 × List Hash)
  length_lt : ∀ run ∈ runs, run.2.length < 256 ^ 8
  deriving DecidableEq

/-- Repeats each item up to its cumulative count, `none` when the counts do not
strictly increase. -/
def expandRleFrom {α : Type} : Nat → List (UInt8 × α) → Option (List α)
  | _, [] => some []
  | previous, (cumulative, item) :: rest =>
    if previous < cumulative.toNat then do
      let others ← expandRleFrom cumulative.toNat rest
      return List.replicate (cumulative.toNat - previous) item ++ others
    else
      none

namespace CompressedParents

def expandedLen (parents : CompressedParents) : Nat := match parents.runs.getLast? with
  | some (cumulative, _) => cumulative.toNat
  | none => 0

def expandedIter (parents : CompressedParents) : Option (List (List Hash)) :=
  expandRleFrom 0 parents.runs

/-- The parents at level zero, as `get(0)` finds them. -/
def direct (parents : CompressedParents) : List Hash :=
  if parents.expandedLen = 0 then
    []
  else
    match parents.runs with
    | [] => []
    | (_, level) :: _ => level

end CompressedParents

variable {α : Type} {previous : Nat} {runs : List (UInt8 × α)} {items : List α}

theorem length_expandRleFrom (expanded : expandRleFrom previous runs = some items) :
    previous + items.length = (runs.getLast?.map fun run => run.1.toNat).getD previous := by
  induction runs generalizing previous items with
  | nil =>
    cases expanded
    rfl
  | cons run rest ih =>
    obtain ⟨cumulative, item⟩ := run
    unfold expandRleFrom at expanded
    split_ifs at expanded with increasing
    obtain ⟨others, expandedRest, eq⟩ := bind_eq_some_iff.mp expanded
    cases eq
    have count := ih expandedRest
    rw [length_append, length_replicate]
    cases rest with
    | nil =>
      cases expandedRest
      simp only [getLast?_singleton, map_some, getD_some, length_nil]
      omega
    | cons next rest =>
      rw [getLast?_cons_cons]
      rw [getLast?_eq_some_getLast (cons_ne_nil next rest)] at count ⊢
      simp only [map_some, getD_some] at count ⊢
      omega

variable {parents : CompressedParents} {levels : List (List Hash)}

theorem CompressedParents.length_expandedIter (expanded : parents.expandedIter = some levels) :
    levels.length = parents.expandedLen := by
  have count := length_expandRleFrom expanded
  unfold CompressedParents.expandedLen
  cases last : parents.runs.getLast? with
  | none | some => simpa [last] using count

theorem mem_of_mem_expandRleFrom (expanded : expandRleFrom previous runs = some items) :
    ∀ item ∈ items, ∃ run ∈ runs, run.2 = item := by
  induction runs generalizing previous items with
  | nil =>
    cases expanded
    simp
  | cons run rest ih =>
    obtain ⟨cumulative, repeated⟩ := run
    unfold expandRleFrom at expanded
    split_ifs at expanded
    obtain ⟨others, expandedRest, eq⟩ := bind_eq_some_iff.mp expanded
    cases eq
    intro item mem
    rcases mem_append.mp mem with first | later
    · exact ⟨_, mem_cons_self, (eq_of_mem_replicate first).symm⟩
    · exact exists_mem_cons_of_exists (ih expandedRest item later)

variable (expanded : parents.expandedIter = some levels)
include expanded

theorem CompressedParents.length_level_lt : ∀ level ∈ levels, level.length < 256 ^ 8 := by
  intro level mem
  obtain ⟨run, inRuns, rfl⟩ := mem_of_mem_expandRleFrom expanded level mem
  exact parents.length_lt run inRuns

theorem CompressedParents.direct_eq : parents.direct = levels.headD [] := by
  have count := length_expandedIter expanded
  unfold direct
  unfold expandedIter at expanded
  split_ifs with none
  · rw [none] at count
    rw [eq_nil_of_length_eq_zero count]
    rfl
  · cases runs : parents.runs with
    | nil =>
      rw [runs] at expanded
      cases expanded
      rfl
    | cons run rest =>
      obtain ⟨cumulative, level⟩ := run
      rw [runs] at expanded
      unfold expandRleFrom at expanded
      split_ifs at expanded with pos
      obtain ⟨others, -, eq⟩ := bind_eq_some_iff.mp expanded
      cases eq
      obtain ⟨more, again⟩ := Nat.exists_eq_add_of_lt pos
      rw [again, show 0 + more + 1 - 0 = more + 1 by omega, replicate_succ]
      rfl

end

/-- A block header. `hash` is the cached hash. -/
structure BlockHeader where
  hash : Hash
  version : UInt16
  parentsByLevel : CompressedParents
  hashMerkleRoot : MerkleHash
  acceptedIdMerkleRoot : MerkleHash
  utxoCommitment : Hash
  timestamp : UInt64
  bits : UInt32
  nonce : UInt64
  daaScore : UInt64
  blueWork : BitVec 192
  blueScore : UInt64
  pruningPoint : Hash
  deriving DecidableEq

def writeVarArray (items : List Hash) : List UInt8 :=
  writeLen items.length ++ items.flatMap FixedBytes.bytes

/-- Blue work as big-endian bytes without the leading zeros. -/
def writeBlueWork (work : BitVec 192) : List UInt8 :=
  writeVarBytes ((leBytes 24 work.toNat).reverse.dropWhile (· == 0))

def BlockHeader.writeFields (header : BlockHeader) (nonce timestamp : UInt64) : List UInt8 :=
  header.hashMerkleRoot.bytes ++ (header.acceptedIdMerkleRoot.bytes ++
    (header.utxoCommitment.bytes ++ (leBytes 8 timestamp.toNat ++
    (leBytes 4 header.bits.toNat ++ (leBytes 8 nonce.toNat ++
    (leBytes 8 header.daaScore.toNat ++ (leBytes 8 header.blueScore.toNat ++
    (writeBlueWork header.blueWork ++ header.pruningPoint.bytes))))))))

/-- The bytes that are hashed for a header with the given nonce and time,
`none` when the parents cannot be expanded. -/
def BlockHeader.preimage (header : BlockHeader) (nonce timestamp : UInt64) :
    Option (List UInt8) := do
  let levels ← header.parentsByLevel.expandedIter
  return leBytes 2 header.version.toNat ++ (writeLen header.parentsByLevel.expandedLen ++
    (levels.flatMap writeVarArray ++ header.writeFields nonce timestamp))

def BlockHeader.hashOverrideNonceTime (blockHash : List UInt8 → Hash)
    (header : BlockHeader) (nonce timestamp : UInt64) : Option Hash :=
  (header.preimage nonce timestamp).map blockHash

def BlockHeader.computeHash (blockHash : List UInt8 → Hash) (header : BlockHeader) : Option Hash :=
  header.hashOverrideNonceTime blockHash header.nonce header.timestamp

def BlockHeader.directParents (header : BlockHeader) : List Hash := header.parentsByLevel.direct

variable {rest otherRest : List UInt8}

theorem FixedBytes.append_inj {size : Nat} {first second : FixedBytes size}
    (eq : first.bytes ++ rest = second.bytes ++ otherRest) :
    first = second ∧ rest = otherRest := by
  obtain ⟨sameBytes, sameRest⟩ := List.append_inj eq
    (first.length_bytes.trans second.length_bytes.symm)
  refine ⟨?_, sameRest⟩
  cases first
  cases second
  cases sameBytes
  rfl

theorem writeVarArray_append_inj {items others : List Hash} (itemsFit : items.length < 256 ^ 8)
    (othersFit : others.length < 256 ^ 8)
    (eq : writeVarArray items ++ rest = writeVarArray others ++ otherRest) :
    items = others ∧ rest = otherRest := by
  unfold writeVarArray writeLen at eq
  rw [append_assoc, append_assoc] at eq
  obtain ⟨sameLength, sameItems⟩ := leBytes_append_inj itemsFit othersFit eq
  have split : ∀ {first second : Hash} {rest otherRest : List UInt8},
      True → True → first.bytes ++ rest = second.bytes ++ otherRest →
        first = second ∧ rest = otherRest :=
    fun _ _ eq => FixedBytes.append_inj eq
  exact flatMap_append_inj split sameLength (fun _ _ => trivial) (fun _ _ => trivial) sameItems

variable {bytes : List UInt8}

theorem writeVarBytes_append_inj {others : List UInt8} (bytesFit : bytes.length < 256 ^ 8)
    (othersFit : others.length < 256 ^ 8)
    (eq : writeVarBytes bytes ++ rest = writeVarBytes others ++ otherRest) :
    bytes = others ∧ rest = otherRest := by
  unfold writeVarBytes writeLen at eq
  rw [append_assoc, append_assoc] at eq
  obtain ⟨sameLength, sameBytes⟩ := leBytes_append_inj bytesFit othersFit eq
  exact List.append_inj sameBytes sameLength

theorem eq_replicate_append_dropWhile (bytes : List UInt8) :
    bytes = List.replicate (bytes.length - (bytes.dropWhile (· == 0)).length) 0 ++
      bytes.dropWhile (· == 0) := by
  induction bytes with
  | nil => rfl
  | cons byte bytes ih =>
    by_cases zero : byte = 0
    · have shorter : (bytes.dropWhile (· == 0)).length ≤ bytes.length :=
        (dropWhile_sublist _).length_le
      rw [dropWhile_cons_of_pos (by simp [zero]), length_cons, Nat.succ_sub shorter, replicate_succ,
        cons_append, ← ih, zero]
    · rw [dropWhile_cons_of_neg (by simp [zero]), Nat.sub_self]
      rfl

theorem writeBlueWork_append_inj {work other : BitVec 192}
    (eq : writeBlueWork work ++ rest = writeBlueWork other ++ otherRest) :
    work = other ∧ rest = otherRest := by
  have short : ∀ work : BitVec 192, ((leBytes 24 work.toNat).reverse.dropWhile (· == 0)).length <
      256 ^ 8 := by
    intro work
    refine lt_of_le_of_lt ((dropWhile_sublist _).length_le) ?_
    rw [length_reverse, length_leBytes]
    decide
  obtain ⟨sameTrimmed, sameRest⟩ := writeVarBytes_append_inj (short work) (short other) eq
  refine ⟨?_, sameRest⟩
  have sameReversed : (leBytes 24 work.toNat).reverse = (leBytes 24 other.toNat).reverse := by
    rw [eq_replicate_append_dropWhile (leBytes 24 work.toNat).reverse,
      eq_replicate_append_dropWhile (leBytes 24 other.toNat).reverse, sameTrimmed]
    simp only [length_reverse, length_leBytes]
  have sameBytes := reverse_injective sameReversed
  have fits : ∀ work : BitVec 192, work.toNat < 256 ^ 24 := fun work => work.isLt
  apply BitVec.eq_of_toNat_eq
  rw [← leValue_leBytes (fits work), sameBytes, leValue_leBytes (fits other)]

/-- Two headers with the same contents: all fields agree but the cached hash,
and the parents agree level by level. -/
structure BlockHeader.SameContents (header other : BlockHeader) : Prop where
  version : header.version = other.version
  levels : header.parentsByLevel.expandedIter = other.parentsByLevel.expandedIter
  hashMerkleRoot : header.hashMerkleRoot = other.hashMerkleRoot
  acceptedIdMerkleRoot : header.acceptedIdMerkleRoot = other.acceptedIdMerkleRoot
  utxoCommitment : header.utxoCommitment = other.utxoCommitment
  timestamp : header.timestamp = other.timestamp
  bits : header.bits = other.bits
  nonce : header.nonce = other.nonce
  daaScore : header.daaScore = other.daaScore
  blueWork : header.blueWork = other.blueWork
  blueScore : header.blueScore = other.blueScore
  pruningPoint : header.pruningPoint = other.pruningPoint

variable {header other : BlockHeader}

/-- Headers that are hashed from the same bytes have the same contents. -/
theorem BlockHeader.sameContents_of_preimage
    (ofHeader : header.preimage header.nonce header.timestamp = some bytes)
    (ofOther : other.preimage other.nonce other.timestamp = some bytes) :
    header.SameContents other := by
  obtain ⟨levels, expanded, written⟩ := bind_eq_some_iff.mp ofHeader
  obtain ⟨otherLevels, otherExpanded, otherWritten⟩ := bind_eq_some_iff.mp ofOther
  have eq := (Option.some.inj written).trans (Option.some.inj otherWritten).symm
  obtain ⟨version, eq⟩ := leBytes_uint16_append_inj eq
  have lenFits : ∀ parents : CompressedParents, parents.expandedLen < 256 ^ 8 := by
    intro parents
    unfold CompressedParents.expandedLen
    cases parents.runs.getLast? with
    | none => decide
    | some run => exact lt_trans run.1.toNat_lt (by decide)
  obtain ⟨sameLen, eq⟩ := leBytes_append_inj (lenFits _) (lenFits _) eq
  rw [← CompressedParents.length_expandedIter expanded,
    ← CompressedParents.length_expandedIter otherExpanded] at sameLen
  obtain ⟨sameLevels, eq⟩ := flatMap_append_inj writeVarArray_append_inj
    sameLen (CompressedParents.length_level_lt expanded)
    (CompressedParents.length_level_lt otherExpanded) eq
  unfold BlockHeader.writeFields at eq
  obtain ⟨hashMerkleRoot, eq⟩ := FixedBytes.append_inj eq
  obtain ⟨acceptedIdMerkleRoot, eq⟩ := FixedBytes.append_inj eq
  obtain ⟨utxoCommitment, eq⟩ := FixedBytes.append_inj eq
  obtain ⟨timestamp, eq⟩ := leBytes_uint64_append_inj eq
  obtain ⟨bits, eq⟩ := leBytes_uint32_append_inj eq
  obtain ⟨nonce, eq⟩ := leBytes_uint64_append_inj eq
  obtain ⟨daaScore, eq⟩ := leBytes_uint64_append_inj eq
  obtain ⟨blueScore, eq⟩ := leBytes_uint64_append_inj eq
  obtain ⟨blueWork, eq⟩ := writeBlueWork_append_inj eq
  have pruningPoint : header.pruningPoint = other.pruningPoint :=
    (FixedBytes.append_inj (congrArg (· ++ []) eq)).1
  rw [sameLevels] at expanded
  exact ⟨version, expanded.trans otherExpanded.symm, hashMerkleRoot, acceptedIdMerkleRoot,
    utxoCommitment, timestamp, bits, nonce, daaScore, blueWork, blueScore, pruningPoint⟩

theorem BlockHeader.SameContents.directParents {levels : List (List Hash)}
    (eq : header.SameContents other) (expanded : header.parentsByLevel.expandedIter = some levels) :
    header.directParents = other.directParents := by
  unfold BlockHeader.directParents
  rw [CompressedParents.direct_eq expanded,
    CompressedParents.direct_eq (eq.levels.symm.trans expanded)]

end Sophis
