import Sophis.Ghostdag
import Sophis.HeaderHashing

namespace Sophis

open ByteCodec ExceptLoop List MachineWord Option

/-!
# Header links of the light client

`wallet/spv/src/header_chain.rs` and `consensus/pow/src/lib.rs`: the light
client follows the selected chain with records that keep a few header fields,
and checks the proof of work of the full header that is handed over with each
record. The record and the header are tied by the hash field of the header
only.
-/

/-- The functions outside the repository. Allocating the cache of an epoch may
fail with a message. `randomx` hashes with the seed of an epoch, `none` when no
virtual machine can be created. -/
structure PowExternal where
  blockHash : List UInt8 → Hash
  allocateCache : Nat → Except String Unit
  randomx : List UInt8 → List UInt8 → Option (FixedBytes 32)

def epochLength : Nat := 2048

/-- What is kept of a header to test nonces. -/
structure PowState where
  target : Nat
  prePowHash : Hash
  timestamp : UInt64
  epochNum : Nat
  deriving DecidableEq

variable (external : PowExternal)

def PowState.tryNew (header : BlockHeader) : Except (Failure String) PowState := do
  let target := fromCompactTargetBits header.bits
  let prePowHash ← orPanic (header.hashOverrideNonceTime external.blockHash 0 0)
  let epochNum := header.daaScore.toNat / epochLength
  raising (external.allocateCache epochNum)
  return { target, prePowHash, timestamp := header.timestamp, epochNum }

def PowState.calculatePow (state : PowState) (nonce : UInt64) : Option Nat := do
  let seed := leBytes 8 state.epochNum
  let input := state.prePowHash.bytes ++ leBytes 8 state.timestamp.toNat ++ leBytes 8 nonce.toNat
  let hash ← external.randomx seed input
  return leValue hash.bytes

def PowState.checkPow (state : PowState) (nonce : UInt64) : Option (Bool × Nat) := do
  let pow ← state.calculatePow external nonce
  return (decide (pow ≤ state.target), pow)

section

/-- What the client keeps of a header. -/
structure MinHeader where
  hash : Hash
  selectedParentHash : Hash
  blueScore : UInt64
  daaScore : UInt64
  blueWork : BitVec 192
  timestamp : UInt64
  bits : UInt32
  deriving Repr, DecidableEq

/-- Why a link is refused. -/
inductive HeaderChainError where
  | parentLinkageBroken (prev nextParent : Hash)
  | blueScoreNonIncreasing (prev next : UInt64)
  | daaScoreWentBackwards (prev next : UInt64)
  | powInitFailed (msg : String)
  | powInvalid (hash : Hash)
  | blueWorkNonIncreasing (prev next : BitVec 192)
  | bitsMismatch (hash : Hash) (declared expected : UInt32)
  | headerHashMismatch (min full : Hash)
  deriving Repr, DecidableEq

/-- The checks of a record against the one before it. -/
def validateHeaderLink (prev next : MinHeader) : Except HeaderChainError Unit := do
  reject (next.selectedParentHash ≠ prev.hash)
    (.parentLinkageBroken prev.hash next.selectedParentHash)
  reject (next.blueScore ≤ prev.blueScore) (.blueScoreNonIncreasing prev.blueScore next.blueScore)
  reject (next.daaScore < prev.daaScore) (.daaScoreWentBackwards prev.daaScore next.daaScore)
  reject (next.blueWork ≤ prev.blueWork) (.blueWorkNonIncreasing prev.blueWork next.blueWork)

/-- An error of the cache becomes an error of the chain. -/
def powInitFailure : Failure String → Failure HeaderChainError
  | .raised msg => .raised (.powInitFailed msg)
  | .panicked => .panicked

variable (external : PowExternal)

/-- Checks the work of a header. -/
def verifyPow (header : BlockHeader) : Except (Failure HeaderChainError) Unit := do
  let state ← (PowState.tryNew external header).mapError powInitFailure
  let (passed, _) ← orPanic (state.checkPow external header.nonce)
  reject (passed = false) (.raised (.powInvalid header.hash))

def validateHeaderLinkAndPow (prev next : MinHeader) (nextFull : BlockHeader)
    (expectedBits : UInt32) : Except (Failure HeaderChainError) Unit := do
  reject (nextFull.hash ≠ next.hash) (.raised (.headerHashMismatch next.hash nextFull.hash))
  raising (validateHeaderLink prev next)
  reject (nextFull.bits ≠ expectedBits)
    (.raised (.bitsMismatch nextFull.hash nextFull.bits expectedBits))
  verifyPow external nextFull

end

section

variable {external : PowExternal}

/-- The nonce of a header meets a target. -/
def BlockHeader.Worked (external : PowExternal) (header : BlockHeader) (target : Nat) : Prop :=
  ∃ prePowHash hash, header.hashOverrideNonceTime external.blockHash 0 0 = some prePowHash ∧
    external.randomx (leBytes 8 (header.daaScore.toNat / epochLength))
      (prePowHash.bytes ++ leBytes 8 header.timestamp.toNat ++
        leBytes 8 header.nonce.toNat) = some hash ∧
    leValue hash.bytes ≤ target

theorem worked_of_verifyPow {header : BlockHeader} (verified : verifyPow external header = .ok ()) :
    header.Worked external (fromCompactTargetBits header.bits) := by
  obtain ⟨state, created, verified⟩ := bind_eq_ok.mp verified
  obtain ⟨⟨passed, pow⟩, checked, notRejected⟩ := bind_eq_ok.mp verified
  obtain ⟨prePowHash, hashed, created⟩ := bind_eq_ok.mp (mapError_eq_ok.mp created)
  obtain ⟨-, -, sameState⟩ := bind_eq_ok.mp created
  cases sameState
  obtain ⟨value, calculated, sameResult⟩ := bind_eq_some_iff.mp (orPanic_eq_ok.mp checked)
  cases sameResult
  obtain ⟨hash, ran, sameValue⟩ := bind_eq_some_iff.mp calculated
  cases sameValue
  refine ⟨prePowHash, hash, orPanic_eq_ok.mp hashed, ran, ?_⟩
  simpa using notRejected

/-- A record that may follow another one. -/
structure MinHeader.Extends (prev next : MinHeader) : Prop where
  selectedParent : next.selectedParentHash = prev.hash
  blueScore : prev.blueScore < next.blueScore
  daaScore : prev.daaScore ≤ next.daaScore
  blueWork : prev.blueWork < next.blueWork

variable {prev next : MinHeader}

theorem validateHeaderLink_eq_ok_iff :
    validateHeaderLink prev next = .ok () ↔ prev.Extends next := by
  unfold validateHeaderLink
  simp only [bind_eq_ok, check_eq_ok, reject_eq_ok, not_not,
    UInt64.not_le, UInt64.not_lt, BitVec.not_le]
  constructor
  · rintro ⟨parent, score, daa, work⟩
    exact ⟨parent, score, daa, work⟩
  · rintro ⟨parent, score, daa, work⟩
    exact ⟨parent, score, daa, work⟩

theorem checked_of_validateHeaderLinkAndPow {nextFull : BlockHeader} {expectedBits : UInt32}
    (accepted : validateHeaderLinkAndPow external prev next nextFull expectedBits = .ok ()) :
    nextFull.hash = next.hash ∧ prev.Extends next ∧ nextFull.bits = expectedBits ∧
      nextFull.Worked external (fromCompactTargetBits expectedBits) := by
  unfold validateHeaderLinkAndPow at accepted
  simp only [bind_eq_ok, check_eq_ok, reject_eq_ok, not_not,
    raising_eq_ok, validateHeaderLink_eq_ok_iff] at accepted
  obtain ⟨sameHash, extending, sameBits, verified⟩ := accepted
  refine ⟨sameHash, extending, sameBits, ?_⟩
  rw [← sameBits]
  exact worked_of_verifyPow verified

end

section

/-- A record with its header and the bits expected of it. -/
structure HeaderLink where
  next : MinHeader
  full : BlockHeader
  expectedBits : UInt32

/-- Links that are accepted one after the other, starting at a trusted
record. -/
def AcceptedLinks (external : PowExternal) : MinHeader → List HeaderLink → Prop
  | _, [] => True
  | prev, link :: rest =>
    validateHeaderLinkAndPow external prev link.next link.full link.expectedBits = .ok () ∧
      AcceptedLinks external link.next rest

/-- A record that keeps the fields of a header. The selected parent is one of
the direct parents: no header field says which. -/
structure MinHeader.Describes (record : MinHeader) (header : BlockHeader) : Prop where
  selectedParent : record.selectedParentHash ∈ header.directParents
  blueScore : record.blueScore = header.blueScore
  daaScore : record.daaScore = header.daaScore
  blueWork : record.blueWork = header.blueWork
  timestamp : record.timestamp = header.timestamp
  bits : record.bits = header.bits

/-- A link whose record is the one of a header with its hash, and this header
has the work that is expected. -/
structure HeaderLink.Bound (external : PowExternal) (link : HeaderLink) : Prop where
  hashed : link.full.computeHash external.blockHash = some link.next.hash
  describes : link.next.Describes link.full
  worked : link.full.Worked external (fromCompactTargetBits link.expectedBits)

/-- The hash function does not collide on the contents of two headers. -/
def BlockHeader.Apart (external : PowExternal) (header other : BlockHeader) : Prop :=
  ∀ bytes otherBytes, header.preimage header.nonce header.timestamp = some bytes →
    other.preimage other.nonce other.timestamp = some otherBytes →
    external.blockHash bytes = external.blockHash otherBytes → bytes = otherBytes

/-- What the light client would have to know of the two representations it is
handed: the cached hash of the header is its own, and the record is that of some
header with the hash of the record. -/
structure HeaderLink.SelfConsistent (external : PowExternal) (link : HeaderLink) : Prop where
  finalized : link.full.computeHash external.blockHash = some link.full.hash
  origin : ∃ origin : BlockHeader, origin.computeHash external.blockHash = some link.next.hash ∧
    link.next.Describes origin ∧ origin.Apart external link.full

variable {external : PowExternal} {header other : BlockHeader} {hash : Hash}

theorem sameContents_of_computeHash (apart : header.Apart external other)
    (ofHeader : header.computeHash external.blockHash = some hash)
    (ofOther : other.computeHash external.blockHash = some hash) : header.SameContents other := by
  obtain ⟨bytes, written, hashed⟩ := map_eq_some_iff.mp ofHeader
  obtain ⟨otherBytes, otherWritten, otherHashed⟩ := map_eq_some_iff.mp ofOther
  have sameBytes := apart bytes otherBytes written otherWritten (hashed.trans otherHashed.symm)
  rw [← sameBytes] at otherWritten
  exact BlockHeader.sameContents_of_preimage written otherWritten

theorem MinHeader.Describes.of_sameContents {record : MinHeader}
    (describes : record.Describes header)
    (hashed : header.computeHash external.blockHash = some hash) (eq : header.SameContents other) :
    record.Describes other := by
  obtain ⟨bytes, written, -⟩ := map_eq_some_iff.mp hashed
  obtain ⟨levels, expanded, -⟩ := bind_eq_some_iff.mp written
  constructor
  · rw [← eq.directParents expanded]
    exact describes.selectedParent
  · exact describes.blueScore.trans eq.blueScore
  · exact describes.daaScore.trans eq.daaScore
  · exact describes.blueWork.trans eq.blueWork
  · exact describes.timestamp.trans eq.timestamp
  · exact describes.bits.trans eq.bits

variable {link : HeaderLink}

theorem HeaderLink.SelfConsistent.bound {prev : MinHeader}
    (consistent : link.SelfConsistent external)
    (accepted : validateHeaderLinkAndPow external prev link.next link.full
      link.expectedBits = .ok ()) : link.Bound external := by
  obtain ⟨sameHash, -, -, worked⟩ := checked_of_validateHeaderLinkAndPow accepted
  have hashed := consistent.finalized
  rw [sameHash] at hashed
  obtain ⟨origin, originHashed, describes, apart⟩ := consistent.origin
  have eq := sameContents_of_computeHash apart originHashed hashed
  exact ⟨hashed, describes.of_sameContents originHashed eq, worked⟩

/-- The parts of a link that is bound are consistent: the header itself is one
that the record describes. -/
theorem HeaderLink.Bound.selfConsistent {prev : MinHeader}
    (bound : link.Bound external)
    (accepted : validateHeaderLinkAndPow external prev link.next link.full
      link.expectedBits = .ok ()) : link.SelfConsistent external := by
  obtain ⟨sameHash, -, -, -⟩ := checked_of_validateHeaderLinkAndPow accepted
  refine ⟨sameHash ▸ bound.hashed, link.full, bound.hashed, bound.describes, ?_⟩
  intro bytes otherBytes written otherWritten _
  exact Option.some.inj (written.symm.trans otherWritten)

def lastRecord (trusted : MinHeader) (links : List HeaderLink) : MinHeader :=
  links.foldl (fun _ link => link.next) trusted

/-- A chain of accepted links carries no forged values exactly when the parts of
each link are consistent: then every record is bound to the proof of work of its
header and has the fields of every header with its hash. The work grows with
every link in any case. -/
theorem acceptedLinks_bound {trusted : MinHeader} {links : List HeaderLink}
    (accepted : AcceptedLinks external trusted links) :
    ((∀ link ∈ links, link.Bound external ∧ ∀ genuine : BlockHeader,
        genuine.computeHash external.blockHash = some link.next.hash →
        link.full.Apart external genuine → link.next.Describes genuine) ↔
      ∀ link ∈ links, link.SelfConsistent external) ∧
      trusted.blueWork.toNat + links.length ≤ (lastRecord trusted links).blueWork.toNat := by
  induction links generalizing trusted with
  | nil => exact ⟨by simp, le_refl _⟩
  | cons link rest ih =>
    obtain ⟨acceptedFirst, acceptedRest⟩ := accepted
    obtain ⟨restBound, restWork⟩ := ih acceptedRest
    obtain ⟨-, extending, -, -⟩ := checked_of_validateHeaderLinkAndPow acceptedFirst
    have grows : trusted.blueWork.toNat < link.next.blueWork.toNat := extending.blueWork
    constructor
    · rw [forall_mem_cons, forall_mem_cons, restBound]
      refine and_congr_left fun _ => ⟨fun bound => bound.1.selfConsistent acceptedFirst, ?_⟩
      intro consistent
      have bound := consistent.bound acceptedFirst
      refine ⟨bound, fun genuine hashed apart => ?_⟩
      exact bound.describes.of_sameContents bound.hashed
        (sameContents_of_computeHash apart bound.hashed hashed)
    · have sameLast : lastRecord trusted (link :: rest) = lastRecord link.next rest := rfl
      rw [sameLast, length_cons]
      omega

end

/-- Functions to run the checks with: the hash is the start of the bytes, and
every nonce meets every target. -/
def toyPow : PowExternal where
  blockHash := FixedBytes.ofPrefix 32
  allocateCache := fun _ => .ok ()
  randomx := fun _ _ => some zeroHash

def toyTrusted : MinHeader where
  hash := zeroHash
  selectedParentHash := zeroHash
  blueScore := 0
  daaScore := 0
  blueWork := 0
  timestamp := 0
  bits := 0x1d0e5073

def toyParents : CompressedParents where
  runs := [(1, [zeroHash])]
  length_lt := by simp

def toyHeaderHash : Hash := FixedBytes.ofPrefix 32 [1, 0, 1, 0, 0, 0, 0, 0, 0, 0, 1]

def toyHeader : BlockHeader where
  hash := toyHeaderHash
  version := 1
  parentsByLevel := toyParents
  hashMerkleRoot := zeroMerkleHash
  acceptedIdMerkleRoot := zeroMerkleHash
  utxoCommitment := zeroHash
  timestamp := 100
  bits := 0x1d0e5073
  nonce := 7
  daaScore := 1
  blueWork := 5
  blueScore := 1
  pruningPoint := zeroHash

def toyRecord : MinHeader where
  hash := toyHeaderHash
  selectedParentHash := zeroHash
  blueScore := 1
  daaScore := 1
  blueWork := 5
  timestamp := 100
  bits := 0x1d0e5073

def toyLink : HeaderLink := ⟨toyRecord, toyHeader, 0x1d0e5073⟩

theorem toyLink_bound : (toyLink.Bound toyPow ∧ ∀ genuine : BlockHeader,
      genuine.computeHash toyPow.blockHash = some toyHeaderHash →
      toyHeader.Apart toyPow genuine → toyRecord.Describes genuine) ∧
    1 ≤ toyRecord.blueWork.toNat := by
  have ok : AcceptedLinks toyPow toyTrusted [toyLink] := ⟨by decide +kernel, trivial⟩
  have hashed : toyHeader.computeHash toyPow.blockHash = some toyHeaderHash := by decide +kernel
  have describes : toyRecord.Describes toyHeader := ⟨by decide, rfl, rfl, rfl, rfl, rfl⟩
  have apart : toyHeader.Apart toyPow toyHeader := by
    intro bytes otherBytes written otherWritten _
    exact Option.some.inj (written.symm.trans otherWritten)
  have consistent : ∀ link ∈ [toyLink], link.SelfConsistent toyPow := by
    exact forall_mem_singleton.mpr ⟨hashed, toyHeader, hashed, describes, apart⟩
  obtain ⟨bound, work⟩ := acceptedLinks_bound ok
  exact ⟨bound.mpr consistent toyLink mem_cons_self, work⟩

/-- The record of the header with other values for all that it keeps. -/
def forgedRecord : MinHeader where
  hash := toyHeaderHash
  selectedParentHash := zeroHash
  blueScore := 1000
  daaScore := 2000
  blueWork := 2 ^ 191
  timestamp := 300
  bits := 0x207fffff

/-- A header whose cached hash is not its own. -/
def mislabelledHeader : BlockHeader := { toyHeader with hash := FixedBytes.replicate 32 0xAB }

def mislabelledRecord : MinHeader := { toyRecord with hash := FixedBytes.replicate 32 0xAB }

/-- Both forgeries are accepted: a record with the right hash whose values are
made up, and a header under a hash that is not its own. -/
theorem forgedLinks_accepted :
    validateHeaderLinkAndPow toyPow toyTrusted forgedRecord toyHeader 0x1d0e5073 = .ok () ∧
      forgedRecord.blueWork ≠ toyHeader.blueWork ∧
      forgedRecord.blueScore ≠ toyHeader.blueScore ∧
      forgedRecord.daaScore ≠ toyHeader.daaScore ∧
      forgedRecord.timestamp ≠ toyHeader.timestamp ∧
      forgedRecord.bits ≠ toyHeader.bits ∧
      validateHeaderLinkAndPow toyPow toyTrusted mislabelledRecord
        mislabelledHeader 0x1d0e5073 = .ok () ∧
      mislabelledHeader.computeHash toyPow.blockHash ≠ some mislabelledRecord.hash := by
  decide +kernel

end Sophis
