import Sophis.DataCarrier

namespace Sophis

open ByteCodec ExceptLoop List MachineWord

/-!
# Data availability bundles

`consensus/core/src/da/codec.rs`: a blob is split into carrier scripts, and
reassembled from them in any order. The SHA3-384 of the blob is the bundle
identifier.
-/

def maxBundleBytes : Nat := maxFragments.toNat * maxDataPerCarrier.toNat

/-- What the data of a carrier is for. -/
inductive CarrierDomain where
  | rollup
  | oracle
  | user
  deriving DecidableEq

def carrierDomainFlag : Option CarrierDomain → UInt8
  | none => 0
  | some .rollup => 0x10
  | some .oracle => 0x20
  | some .user => 0x40

/-- The domain bit that is set. `none` stands for the unreachable case of several
bits. -/
def CarrierHeader.domain (header : CarrierHeader) : Option (Option CarrierDomain) :=
  [none, some .rollup, some .oracle, some .user].find? fun domain =>
    carrierDomainFlag domain = header.flags &&& domainFlagMask

def carrierBytes (flags fragmentCount fragmentIndex : UInt8) (data : List UInt8)
    (bundleId : Sha3Digest) : List UInt8 :=
  carrierMagic ++ [flags, 0, fragmentCount, fragmentIndex] ++ leBytes 4 data.length ++
    bundleId.bytes ++ data

def encodeCarrierScript (flags fragmentCount fragmentIndex : UInt8) (data : List UInt8)
    (bundleId : Sha3Digest) : Except CarrierError (List UInt8) := do
  reject (fragmentCount = 0 ∨ fragmentCount > maxFragments) (.badFragmentCount fragmentCount)
  reject (fragmentIndex ≥ fragmentCount) (.fragmentIndexOutOfRange fragmentIndex fragmentCount)
  reject (data.length > maxDataPerCarrier.toNat) (.dataTooLarge (UInt32.ofNat data.length))
  return carrierBytes flags fragmentCount fragmentIndex data bundleId

/-- The bytes of a range, `none` when it is not inside. -/
def byteRange (bytes : List UInt8) (start stop : Nat) : Option (List UInt8) :=
  if start ≤ stop ∧ stop ≤ bytes.length then some (slice bytes start (stop - start)) else none

def fragmentFlags (domain : Option CarrierDomain) (fragmented last : Bool) : UInt8 :=
  carrierDomainFlag domain ||| (if fragmented then carrierFlagFragmented else 0) |||
    (if last then carrierFlagLast else 0)

def encodeFragment (blob : List UInt8) (domain : Option CarrierDomain) (bundleId : Sha3Digest)
    (count i : Nat) : Except (Failure CarrierError) (List UInt8) := do
  let start := i * maxDataPerCarrier.toNat
  let stop := min (start + maxDataPerCarrier.toNat) blob.length
  let part ← orPanic (byteRange blob start stop)
  raising (encodeCarrierScript (fragmentFlags domain (1 < count) (i = count - 1))
    (UInt8.ofNat count) (UInt8.ofNat i) part bundleId)

def fragmentsOf (total : Nat) : Nat :=
  if total = 0 then 1 else (total + maxDataPerCarrier.toNat - 1) / maxDataPerCarrier.toNat

def encodeBundle (sha3 : List UInt8 → Sha3Digest) (blob : List UInt8)
    (domain : Option CarrierDomain) : Except (Failure CarrierError) (List (List UInt8)) := do
  let count := fragmentsOf blob.length
  reject (count > maxFragments.toNat) (.raised (.dataTooLarge (UInt32.ofNat blob.length)))
  (List.range count).mapM (encodeFragment blob domain (sha3 blob) count)

/-- A carrier script and its parsed header. -/
structure ReassembleInput where
  header : CarrierHeader
  script : List UInt8

/-- Why fragments do not make up a bundle. -/
inductive ReassembleError where
  | noFragments
  | fragmentCountMismatch (first found : UInt8)
  | bundleIdMismatch
  | missingFragmentIndex (index : UInt8)
  | duplicateFragmentIndex (index : UInt8)
  | fragmentIndexOutOfRange (index count : UInt8)
  | fragmentDataOutOfRange (index : UInt8)
  | bundleHashMismatch
  deriving DecidableEq

def checkAgreement (first input : CarrierHeader) : Except ReassembleError Unit := do
  reject (input.fragmentCount ≠ first.fragmentCount)
    (.fragmentCountMismatch first.fragmentCount input.fragmentCount)
  reject (input.bundleId ≠ first.bundleId) .bundleIdMismatch

/-- Puts the data of a fragment into its slot. Indexing and slicing abort outside
of their bounds. -/
def placeFragment (count : UInt8) (slots : List (Option (List UInt8))) (input : ReassembleInput) :
    Except (Failure ReassembleError) (List (Option (List UInt8))) := do
  let index := input.header.fragmentIndex
  reject (count.toNat ≤ index.toNat) (.raised (.fragmentIndexOutOfRange index count))
  let slot ← orPanic slots[index.toNat]?
  reject (slot.isSome = true) (.raised (.duplicateFragmentIndex index))
  let dataEnd := carrierHeaderLen + input.header.dataLen.toNat
  reject (input.script.length < dataEnd) (.raised (.fragmentDataOutOfRange index))
  let data ← orPanic (byteRange input.script carrierHeaderLen dataEnd)
  return slots.set index.toNat (some data)

def filledSlots : Nat → List (Option (List UInt8)) → Except ReassembleError (List (List UInt8))
  | _, [] => .ok []
  | i, none :: _ => .error (.missingFragmentIndex (UInt8.ofNat i))
  | i, some data :: rest => do
    let others ← filledSlots (i + 1) rest
    return data :: others

def reassemble (sha3 : List UInt8 → Sha3Digest) :
    List ReassembleInput → Except (Failure ReassembleError) (List UInt8)
  | [] => .error (.raised .noFragments)
  | first :: rest => do
    let header := first.header
    raising (forEach (fun _ input => checkAgreement header input.header) rest)
    let slots ← (first :: rest).foldlM (placeFragment header.fragmentCount)
      (List.replicate header.fragmentCount.toNat none)
    let parts ← raising (filledSlots 0 slots)
    reject (sha3 parts.flatten ≠ header.bundleId) (.raised .bundleHashMismatch)
    return parts.flatten

def parseInput (script : List UInt8) : Except ReassembleError ReassembleInput := do
  let header ← (parseCarrierHeader script).mapError fun _ => .bundleHashMismatch
  return ⟨header, script⟩

def parseAndReassemble (sha3 : List UInt8 → Sha3Digest) (scripts : List (List UInt8)) :
    Except (Failure ReassembleError) (List UInt8) := do
  let inputs ← raising (scripts.mapM parseInput)
  reassemble sha3 inputs

namespace ReassembleInput

def index (input : ReassembleInput) : Nat := input.header.fragmentIndex.toNat

def body (input : ReassembleInput) : List UInt8 :=
  slice input.script carrierHeaderLen input.header.dataLen.toNat

def Fits (count : UInt8) (input : ReassembleInput) : Prop :=
  input.index < count.toNat ∧ carrierHeaderLen + input.header.dataLen.toNat ≤ input.script.length

end ReassembleInput

def slotsOf (count : Nat) (inputs : List ReassembleInput) : List (Option (List UInt8)) :=
  (List.range count).map fun i =>
    (inputs.find? fun input => input.index = i).map ReassembleInput.body

variable {count : UInt8} {done inputs : List ReassembleInput} {input : ReassembleInput}
  {slots next : List (Option (List UInt8))}

theorem slotsOf_concat {size : Nat} (inside : input.index < size)
    (new : ∀ other ∈ done, other.index ≠ input.index) :
    (slotsOf size done).set input.index (some input.body) = slotsOf size (done ++ [input]) := by
  refine ext_getElem? fun i => ?_
  by_cases eq : input.index = i
  · subst eq
    have absent : done.find? (fun other => other.index = input.index) = none := by simpa using new
    simp [slotsOf, inside, find?_append, absent]
  · rw [getElem?_set_ne eq]
    by_cases inRange : i < size <;> simp [slotsOf, find?_append, eq, inRange]

open ReassembleInput

/-- A fragment is placed when it fits and its slot is free. -/
theorem placeFragment_eq_ok : placeFragment count (slotsOf count.toNat done) input = .ok next ↔
    input.Fits count ∧ (∀ other ∈ done, other.index ≠ input.index) ∧
      next = slotsOf count.toNat (done ++ [input]) := by
  simp only [placeFragment, bind_eq_ok, check_eq_ok, reject_eq_ok, orPanic_eq_ok,
    Nat.not_le, Nat.not_lt, Bool.not_eq_true, Option.isSome_eq_false_iff, Option.isNone_iff_eq_none]
  constructor
  · rintro ⟨inside, slot, got, free, fits, data, isData, eq⟩
    have new : ∀ other ∈ done, other.index ≠ input.index := by
      subst free
      simpa [slotsOf, inside, index] using got
    rw [byteRange, if_pos ⟨Nat.le_add_right _ _, fits⟩, Nat.add_sub_cancel_left] at isData
    cases isData
    cases eq
    exact ⟨⟨inside, fits⟩, new, slotsOf_concat inside new⟩
  · rintro ⟨⟨inside, fits⟩, new, rfl⟩
    refine ⟨inside, none, ?_, rfl, fits, input.body, ?_, ?_⟩
    · simpa [slotsOf, index, show input.header.fragmentIndex.toNat < count.toNat
        from inside] using new
    · rw [byteRange, if_pos ⟨Nat.le_add_right _ _, fits⟩, Nat.add_sub_cancel_left]
      rfl
    · exact congrArg Except.ok (slotsOf_concat inside new)

/-- All fragments are placed when they fit and no index occurs twice. -/
theorem placeFragments_eq_ok (distinct : (done.map index).Nodup) :
    inputs.foldlM (placeFragment count) (slotsOf count.toNat done) = .ok slots ↔
      (∀ input ∈ inputs, input.Fits count) ∧ ((done ++ inputs).map index).Nodup ∧
        slots = slotsOf count.toNat (done ++ inputs) := by
  induction inputs generalizing done with
  | nil => simp [distinct, pure, Except.pure, eq_comm]
  | cons input rest ih =>
    rw [foldlM_cons, bind_eq_ok, forall_mem_cons]
    constructor
    · rintro ⟨_, placed, others⟩
      obtain ⟨fits, new, rfl⟩ := placeFragment_eq_ok.mp placed
      have longer : ((done ++ [input]).map index).Nodup := by
        simpa [nodup_append, distinct] using new
      obtain ⟨allFit, nodup, rfl⟩ := (ih longer).mp others
      rw [append_assoc, singleton_append] at nodup
      exact ⟨⟨fits, allFit⟩, nodup, by rw [append_assoc, singleton_append]⟩
    · rintro ⟨⟨fits, allFit⟩, nodup, rfl⟩
      rw [show done ++ input :: rest = (done ++ [input]) ++ rest by simp] at nodup
      have longer : ((done ++ [input]).map index).Nodup := by
        rw [map_append] at nodup
        exact (nodup_append.mp nodup).1
      have new : ∀ other ∈ done, other.index ≠ input.index := by
        simpa [nodup_append, distinct] using longer
      exact ⟨_, placeFragment_eq_ok.mpr ⟨fits, new, rfl⟩, (ih longer).mpr ⟨allFit, nodup, by simp⟩⟩

theorem filledSlots_eq_ok {start : Nat} {parts : List (List UInt8)} :
    filledSlots start slots = .ok parts ↔ slots = parts.map some := by
  induction slots generalizing start parts with
  | nil => cases parts <;> simp [filledSlots]
  | cons slot rest ih =>
    cases slot with
    | none => cases parts <;> simp [filledSlots]
    | some data =>
      simp only [filledSlots, bind_eq_ok, ih]
      cases parts with
      | nil => simp [pure, Except.pure]
      | cons part parts => simp [pure, Except.pure, and_comm]

theorem checkAgreement_eq_ok (header : CarrierHeader) (input : ReassembleInput) :
    checkAgreement header input.header = .ok () ↔
      input.header.fragmentCount = header.fragmentCount ∧
        input.header.bundleId = header.bundleId := by
  simp [checkAgreement, bind_eq_ok]

/-- Fragments that agree, fit and fill every slot once make up the blob. -/
theorem reassemble_eq_ok {sha3 : List UInt8 → Sha3Digest} {first : ReassembleInput}
    {rest : List ReassembleInput} {blob : List UInt8} :
    reassemble sha3 (first :: rest) = .ok blob ↔
      (∀ input ∈ rest, input.header.fragmentCount = first.header.fragmentCount ∧
        input.header.bundleId = first.header.bundleId) ∧
      (∀ input ∈ first :: rest, input.Fits first.header.fragmentCount) ∧
      ((first :: rest).map index).Nodup ∧
      ∃ parts : List (List UInt8),
        slotsOf first.header.fragmentCount.toNat (first :: rest) = parts.map some ∧
        sha3 parts.flatten = first.header.bundleId ∧ parts.flatten = blob := by
  have empty : ∀ size, List.replicate size none = slotsOf size [] := by
    intro size
    refine ext_getElem? fun i => ?_
    by_cases inside : i < size <;> simp [slotsOf, inside]
  have agree := forEach_eq_ok_iff_forall
    (fun _ input => checkAgreement_eq_ok first.header input) rest
  have places := @placeFragments_eq_ok first.header.fragmentCount [] (first :: rest)
  simp only [nil_append, map_nil, nodup_nil, true_implies] at places
  simp only [reassemble, bind_eq_ok, check_eq_ok, raising_eq_ok, agree, empty, places,
    filledSlots_eq_ok, reject_eq_ok, not_not]
  constructor
  · rintro ⟨_, agreed, _, ⟨fits, nodup, rfl⟩, parts, filled, hashed, eq⟩
    exact ⟨agreed, fits, nodup, parts, filled, hashed, Except.ok.inj eq⟩
  · rintro ⟨agreed, fits, nodup, parts, filled, hashed, rfl⟩
    exact ⟨(), agreed, _, ⟨fits, nodup, rfl⟩, parts, filled, hashed, rfl⟩

/-- Fragments with one part for each index, in any order, make up the parts. -/
theorem reassemble_of_perm {sha3 : List UInt8 → Sha3Digest} {bundleId : Sha3Digest}
    {part : Nat → List UInt8} (pos : 0 < count.toNat)
    (agree : ∀ input ∈ inputs, input.header.fragmentCount = count ∧
      input.header.bundleId = bundleId)
    (fits : ∀ input ∈ inputs, input.Fits count)
    (perm : (inputs.map index).Perm (List.range count.toNat))
    (bodies : ∀ input ∈ inputs, input.body = part input.index)
    (hashed : sha3 ((List.range count.toNat).map part).flatten = bundleId) :
    reassemble sha3 inputs = .ok ((List.range count.toNat).map part).flatten := by
  have slots : slotsOf count.toNat inputs = ((List.range count.toNat).map part).map some := by
    rw [slotsOf, List.map_map]
    refine map_congr_left fun i inside => ?_
    obtain ⟨input, isInput, sameIndex⟩ := List.mem_map.mp (perm.mem_iff.mpr inside)
    cases got : inputs.find? fun input => input.index = i with
    | none => simpa [sameIndex] using find?_eq_none.mp got input isInput
    | some other =>
      have index : other.index = i := by simpa using find?_some got
      simp [bodies other (mem_of_find?_eq_some got), index]
  cases inputs with
  | nil =>
    rw [map_nil, nil_perm, range_eq_nil] at perm
    omega
  | cons first rest =>
    obtain ⟨sameCount, sameBundle⟩ := agree first mem_cons_self
    refine reassemble_eq_ok.mpr ⟨fun input mem => ?_, ?_, perm.nodup_iff.mpr nodup_range,
      _, sameCount.symm ▸ slots, sameBundle.symm ▸ hashed, rfl⟩
    · rw [sameCount, sameBundle]
      exact agree input (mem_cons_of_mem _ mem)
    · rwa [sameCount]

/-- No header makes an index or a slice leave its bounds. -/
theorem reassemble_ne_panicked (sha3 : List UInt8 → Sha3Digest) (inputs : List ReassembleInput) :
    reassemble sha3 inputs ≠ .error .panicked := by
  have placed : ∀ {count : UInt8} (inputs : List ReassembleInput)
      {slots : List (Option (List UInt8))}, slots.length = count.toNat →
      inputs.foldlM (placeFragment count) slots ≠ .error .panicked := by
    intro count inputs slots size
    induction inputs generalizing slots with
    | nil =>
      intro aborted
      cases aborted
    | cons input rest ih =>
      rw [foldlM_cons, ne_eq, bind_eq_error, not_or]
      constructor
      · simp only [placeFragment, bind_eq_error, reject_eq_error, orPanic_eq_error, reject_eq_ok,
          check_eq_ok, orPanic_eq_ok]
        rintro (⟨-, ⟨⟩⟩ | ⟨inside, ⟨missing, -⟩ | ⟨slot, -, ⟨-, ⟨⟩⟩ | ⟨-, ⟨-, ⟨⟩⟩ |
          ⟨fits, ⟨outside, -⟩ | ⟨_, -, ⟨⟩⟩⟩⟩⟩⟩)
        · rw [List.getElem?_eq_none_iff] at missing
          omega
        · rw [byteRange, if_pos ⟨Nat.le_add_right _ _, Nat.not_lt.mp fits⟩] at outside
          cases outside
      · rintro ⟨next, step, aborted⟩
        refine ih ?_ aborted
        simp only [placeFragment, bind_eq_ok, check_eq_ok] at step
        obtain ⟨-, _, -, -, -, _, -, eq⟩ := step
        cases eq
        rw [length_set, size]
  cases inputs with
  | nil =>
    intro aborted
    cases aborted
  | cons first rest =>
    simp only [reassemble, ne_eq, bind_eq_error, check_eq_ok, reject_eq_error]
    rintro (aborted | ⟨-, aborted | ⟨_, -, aborted | ⟨_, -, ⟨-, ⟨⟩⟩ | ⟨-, ⟨⟩⟩⟩⟩⟩)
    · exact raising_ne_panicked aborted
    · exact placed _ length_replicate aborted
    · exact raising_ne_panicked aborted

variable {sha3 : List UInt8 → Sha3Digest} {blob : List UInt8} {domain : Option CarrierDomain}

theorem mapM_eq_ok_iff {ε α β : Type} {compute : α → Except ε β} {items : List α}
    {values : List β} : items.mapM compute = .ok values ↔
      List.Forall₂ (fun item value => compute item = .ok value) items values := by
  induction items generalizing values with
  | nil => cases values <;> simp [pure, Except.pure]
  | cons item items ih =>
    simp only [mapM_cons, bind_eq_ok, ih]
    cases values with
    | nil | cons => simp [pure, Except.pure]

theorem fragmentFlags_spec (domain : Option CarrierDomain) (fragmented last : Bool) :
    let flags := fragmentFlags domain fragmented last
    flags &&& reservedFlagMask = 0 ∧ singleDomain flags = true ∧
      decide (flags &&& carrierFlagFragmented ≠ 0) = fragmented ∧
      decide (flags &&& carrierFlagLast ≠ 0) = last ∧
      [none, some .rollup, some .oracle, some .user].find? (fun other =>
        carrierDomainFlag other = flags &&& domainFlagMask) = some domain := by
  rcases domain with _ | _ | _ | _ <;> cases fragmented <;> cases last <;> decide

theorem parseCarrierHeader_encode {flags count index : UInt8} {data script : List UInt8}
    {bundleId : Sha3Digest}
    (encoded : encodeCarrierScript flags count index data bundleId = .ok script)
    (reserved : flags &&& reservedFlagMask = 0) (single : singleDomain flags = true)
    (fragmented : decide (flags &&& carrierFlagFragmented ≠ 0) = decide (count > 1))
    (last : decide (flags &&& carrierFlagLast ≠ 0) = decide (index = count - 1)) :
    parseCarrierHeader script = .ok ⟨flags, count, index, UInt32.ofNat data.length, bundleId⟩ ∧
      script.length = carrierHeaderLen + data.length ∧
      slice script carrierHeaderLen data.length = data := by
  simp only [encodeCarrierScript, bind_eq_ok, check_eq_ok, reject_eq_ok] at encoded
  obtain ⟨counted, inside, small, eq⟩ := encoded
  cases eq
  have room : data.length < 256 ^ 4 := by
    have : maxDataPerCarrier.toNat < 256 ^ 4 := by decide
    omega
  have lengths : (carrierBytes flags count index data bundleId).length =
      carrierHeaderLen + data.length := by
    simp only [carrierBytes, length_append, length_leBytes, bundleId.length_bytes]
    rfl
  have afterHeader : (carrierBytes flags count index data bundleId).drop 16 =
      bundleId.bytes ++ data := rfl
  have dataLen : u32At (carrierBytes flags count index data bundleId) 12 =
      UInt32.ofNat data.length := by
    have bytes : slice (carrierBytes flags count index data bundleId) 12 4 =
      leBytes 4 data.length := rfl
    rw [u32At, bytes, leValue_leBytes room]
  have value : (UInt32.ofNat data.length).toNat = data.length := UInt32.toNat_ofNat_of_lt' room
  refine ⟨?_, lengths, ?_⟩
  · simp only [parseCarrierHeader, bind_eq_ok, check_eq_ok, reject_eq_ok, dataLen, lengths,
      value, afterHeader]
    refine ⟨by omega, not_not.mpr rfl, not_not.mpr rfl, not_not.mpr reserved, ?_, counted, inside,
      not_not.mpr fragmented, not_not.mpr last, ?_, not_not.mpr rfl, ?_⟩
    · exact Bool.not_eq_false _ ▸ single
    · rw [gt_iff_lt, UInt32.lt_iff_toNat_lt, value]
      exact small
    · have digest : FixedBytes.ofPrefix 48 (bundleId.bytes ++ data) = bundleId :=
        FixedBytes.ext (by simp [FixedBytes.ofPrefix, bundleId.length_bytes])
      rw [digest]
      rfl
  · rw [slice, show carrierHeaderLen = 16 + 48 from rfl, ← drop_drop, afterHeader,
      drop_left' bundleId.length_bytes, take_length]

theorem flatten_slices (blob : List UInt8) (size count : Nat) :
    ((List.range count).map fun i => slice blob (i * size) size).flatten =
      blob.take (count * size) := by
  induction count with
  | zero => simp
  | succ count ih =>
    rw [range_succ, map_append, flatten_append, ih, Nat.succ_mul, take_add]
    simp [slice]

def fragmentInput (blob : List UInt8) (domain : Option CarrierDomain) (bundleId : Sha3Digest)
    (count i : Nat) : ReassembleInput :=
  let part := slice blob (i * maxDataPerCarrier.toNat) maxDataPerCarrier.toNat
  let flags := fragmentFlags domain (1 < count) (i = count - 1)
  ⟨⟨flags, UInt8.ofNat count, UInt8.ofNat i, UInt32.ofNat part.length, bundleId⟩,
    carrierBytes flags (UInt8.ofNat count) (UInt8.ofNat i) part bundleId⟩

theorem fragmentsOf_spec {total : Nat} (few : total ≤ maxBundleBytes) :
    0 < fragmentsOf total ∧ fragmentsOf total ≤ maxFragments.toNat ∧
      total ≤ fragmentsOf total * maxDataPerCarrier.toNat ∧
      ∀ i < fragmentsOf total, i * maxDataPerCarrier.toNat ≤ total := by
  have chunk : maxDataPerCarrier.toNat = 65536 := rfl
  have most : maxFragments.toNat = 32 := rfl
  rw [maxBundleBytes, chunk, most] at few
  unfold fragmentsOf
  rw [chunk, most]
  split
  · exact ⟨by omega, by omega, by omega, fun i below => by omega⟩
  · next some =>
    have parts := Nat.div_add_mod (total + 65535) 65536
    have rest := Nat.mod_lt (total + 65535) (show 0 < 65536 by decide)
    rw [show total + 65536 - 1 = total + 65535 by omega]
    generalize (total + 65535) / 65536 = count at parts ⊢
    generalize (total + 65535) % 65536 = left at parts rest
    exact ⟨by omega, by omega, by grind, fun i below => by omega⟩

theorem byteRange_min {bytes : List UInt8} {start : Nat} (size : Nat)
    (starts : start ≤ bytes.length) :
    byteRange bytes start (min (start + size) bytes.length) = some (slice bytes start size) := by
  rw [byteRange, if_pos ⟨by omega, by omega⟩, slice, slice, Option.some.injEq,
    take_eq_take_iff, length_drop]
  omega

theorem fragmentInput_spec {bundleId : Sha3Digest} {count i : Nat}
    (few : count ≤ maxFragments.toNat)
    (inside : i < count) (starts : i * maxDataPerCarrier.toNat ≤ blob.length)
    {input : ReassembleInput} (isInput : fragmentInput blob domain bundleId count i = input) :
    encodeFragment blob domain bundleId count i = .ok input.script ∧
      parseInput input.script = .ok input ∧ input.header.domain = some domain ∧
      input.Fits (UInt8.ofNat count) ∧ input.index = i ∧
      input.body = slice blob (i * maxDataPerCarrier.toNat) maxDataPerCarrier.toNat := by
  subst isInput
  have word : count < UInt8.size := few.trans_lt (by decide)
  have countWord : (UInt8.ofNat count).toNat = count := UInt8.toNat_ofNat_of_lt' word
  have indexWord : (UInt8.ofNat i).toNat = i := UInt8.toNat_ofNat_of_lt' (inside.trans word)
  have small : (slice blob (i * maxDataPerCarrier.toNat) maxDataPerCarrier.toNat).length ≤
      maxDataPerCarrier.toNat := length_take_le _ _
  obtain ⟨reserved, single, fragmented, last, named⟩ :=
    fragmentFlags_spec domain (1 < count) (i = count - 1)
  have encoded : encodeCarrierScript (fragmentFlags domain (1 < count) (i = count - 1))
      (UInt8.ofNat count) (UInt8.ofNat i)
      (slice blob (i * maxDataPerCarrier.toNat) maxDataPerCarrier.toNat) bundleId =
        .ok (fragmentInput blob domain bundleId count i).script := by
    simp only [encodeCarrierScript, bind_eq_ok, check_eq_ok, reject_eq_ok]
    refine ⟨?_, ?_, Nat.not_lt.mpr small, rfl⟩
    · rw [← UInt8.toNat_inj, gt_iff_lt, UInt8.lt_iff_toNat_lt, countWord, UInt8.toNat_zero]
      exact not_or.mpr ⟨Nat.ne_of_gt (Nat.zero_lt_of_lt inside), Nat.not_lt.mpr few⟩
    · rw [ge_iff_le, UInt8.le_iff_toNat_le, countWord, indexWord]
      exact Nat.not_le.mpr inside
  have parsed := parseCarrierHeader_encode encoded reserved single
    (fragmented.trans (by simp [UInt8.lt_iff_toNat_lt, countWord]))
    (last.trans (by
      rw [decide_eq_decide, ← UInt8.toNat_inj, UInt8.toNat_sub_of_le, countWord, indexWord]
      · rfl
      · rw [UInt8.le_iff_toNat_le, countWord]
        exact Nat.one_le_of_lt inside))
  refine ⟨?_, ?_, named, ⟨?_, ?_⟩, indexWord, ?_⟩
  · exact (congrArg (orPanic · >>= _) (byteRange_min _ starts)).trans (raising_eq_ok.mpr encoded)
  · rw [parseInput, parsed.1]
    rfl
  · exact (countWord.symm ▸ indexWord.symm ▸ inside :)
  · rw [parsed.2.1]
    exact Nat.add_le_add_left (UInt32.toNat_ofNat'.trans_le (Nat.mod_le _ _)) _
  · rw [body, fragmentInput, UInt32.toNat_ofNat_of_lt' (small.trans_lt (by decide))]
    exact parsed.2.2

/-- A blob is encoded into scripts of its domain and comes back from them in any
order. -/
def RoundTrips (sha3 : List UInt8 → Sha3Digest) (blob : List UInt8)
    (domain : Option CarrierDomain) : Prop :=
  ∃ scripts, encodeBundle sha3 blob domain = .ok scripts ∧
    (∀ script ∈ scripts, ∃ header, parseCarrierHeader script = .ok header ∧
      header.domain = some domain) ∧
    ∀ others : List (List UInt8), others.Perm scripts → parseAndReassemble sha3 others = .ok blob

/-- Scripts with one fragment for each index of a count, whose bundle identifier is
the hash of the blob. -/
def IsBundleOf (sha3 : List UInt8 → Sha3Digest) (scripts : List (List UInt8)) (blob : List UInt8) :
    Prop :=
  ∃ headers count, scripts.mapM parseCarrierHeader = .ok headers ∧
    (∀ header ∈ headers, header.fragmentCount = count ∧ header.bundleId = sha3 blob) ∧
    (headers.map fun header => header.fragmentIndex.toNat).Perm (List.range count.toNat)

theorem encodeBundle_roundTrips (few : blob.length ≤ maxBundleBytes) :
    RoundTrips sha3 blob domain := by
  obtain ⟨pos, most, enough, starts⟩ := fragmentsOf_spec few
  generalize counted : fragmentsOf blob.length = count at pos most enough starts
  let input := fragmentInput blob domain (sha3 blob) count
  have spec := fun i (inside : i < count) =>
    @fragmentInput_spec blob domain (sha3 blob) count i most inside (starts i inside) (input i) rfl
  have countWord : (UInt8.ofNat count).toNat = count :=
    UInt8.toNat_ofNat_of_lt' (most.trans_lt (by decide))
  refine ⟨(List.range count).map fun i => (input i).script, ?_, ?_, ?_⟩
  · simp only [encodeBundle, counted, bind_eq_ok, check_eq_ok, reject_eq_ok, mapM_eq_ok_iff,
      forall₂_map_right_iff, forall₂_same, mem_range]
    exact ⟨Nat.not_lt.mpr most, fun i inside => (spec i inside).1⟩
  · intro script mem
    obtain ⟨i, inside, rfl⟩ := List.mem_map.mp mem
    obtain ⟨-, parsed, named, -⟩ := spec i (mem_range.mp inside)
    obtain ⟨header, isHeader, eq⟩ := bind_eq_ok.mp parsed
    rw [← Except.ok.inj eq] at named
    exact ⟨header, mapError_eq_ok.mp isHeader, named⟩
  · intro others perm
    have parses : List.Forall₂ (fun script input => parseInput script = .ok input)
        ((List.range count).map fun i => (input i).script) ((List.range count).map input) := by
      rw [forall₂_map_left_iff, forall₂_map_right_iff, forall₂_same]
      exact fun i inside => (spec i (mem_range.mp inside)).2.1
    obtain ⟨inputs, parsed, inputsPerm⟩ := perm_comp_forall₂ perm parses
    have each : ∀ other ∈ inputs, ∃ i < count, other = input i := by
      intro other mem
      obtain ⟨i, inside, rfl⟩ := List.mem_map.mp (inputsPerm.mem_iff.mp mem)
      exact ⟨i, mem_range.mp inside, rfl⟩
    have indices : ((List.range count).map input).map index = List.range count := by
      rw [List.map_map]
      exact (map_congr_left fun i inside =>
        (spec i (mem_range.mp inside)).2.2.2.2.1).trans (List.map_id _)
    have whole : ((List.range count).map fun i =>
        slice blob (i * maxDataPerCarrier.toNat) maxDataPerCarrier.toNat).flatten = blob := by
      rw [flatten_slices, take_of_length_le enough]
    rw [parseAndReassemble, mapM_eq_ok_iff.mpr parsed]
    refine (@reassemble_of_perm (UInt8.ofNat count) inputs sha3 (sha3 blob) (fun i =>
      slice blob (i * maxDataPerCarrier.toNat) maxDataPerCarrier.toNat) ?_ ?_ ?_ ?_ ?_ ?_).trans ?_
    · rwa [countWord]
    · intro other mem
      obtain ⟨i, -, rfl⟩ := each other mem
      exact ⟨rfl, rfl⟩
    · intro other mem
      obtain ⟨i, inside, rfl⟩ := each other mem
      exact (spec i inside).2.2.2.1
    · rw [countWord, ← indices]
      exact inputsPerm.map _
    · intro other mem
      obtain ⟨i, inside, rfl⟩ := each other mem
      rw [(spec i inside).2.2.2.2.1]
      exact (spec i inside).2.2.2.2.2
    · rw [countWord, whole]
    · rw [countWord, whole]

theorem parseAndReassemble_isBundleOf {scripts : List (List UInt8)}
    (ran : parseAndReassemble sha3 scripts = .ok blob) : IsBundleOf sha3 scripts blob := by
  obtain ⟨inputs, parsed, ran⟩ := bind_eq_ok.mp ran
  rw [raising_eq_ok, mapM_eq_ok_iff] at parsed
  cases inputs with
  | nil => cases ran
  | cons first rest =>
    obtain ⟨agree, fits, nodup, parts, slots, hashed, rfl⟩ := reassemble_eq_ok.mp ran
    refine ⟨(first :: rest).map header, first.header.fragmentCount, ?_, ?_, ?_⟩
    · rw [mapM_eq_ok_iff, forall₂_map_right_iff]
      refine parsed.imp fun script input isInput => ?_
      obtain ⟨header, isHeader, eq⟩ := bind_eq_ok.mp isInput
      cases eq
      exact mapError_eq_ok.mp isHeader
    · rw [hashed, map_cons, forall_mem_cons]
      refine ⟨⟨rfl, rfl⟩, fun header mem => ?_⟩
      obtain ⟨input, isInput, rfl⟩ := List.mem_map.mp mem
      exact agree input isInput
    · rw [List.map_map]
      refine (perm_ext_iff_of_nodup nodup nodup_range).mpr fun i => ?_
      rw [mem_range]
      constructor
      · intro mem
        obtain ⟨input, isInput, rfl⟩ := List.mem_map.mp mem
        exact (fits input isInput).1
      · intro inside
        cases got : (first :: rest).find? fun input => input.index = i with
        | none =>
          have empty : none ∈ slotsOf first.header.fragmentCount.toNat (first :: rest) :=
            List.mem_map.mpr ⟨i, mem_range.mpr inside, by rw [got]; rfl⟩
          simp [slots] at empty
        | some input =>
          exact List.mem_map.mpr ⟨input, mem_of_find?_eq_some got, by simpa using find?_some got⟩

theorem bundleId_eq {scripts : List (List UInt8)} (isBundle : IsBundleOf sha3 scripts blob)
    {script : List UInt8} (mem : script ∈ scripts) {header : CarrierHeader}
    (parsed : parseCarrierHeader script = .ok header) : header.bundleId = sha3 blob := by
  obtain ⟨headers, _, all, agree, -⟩ := isBundle
  rw [mapM_eq_ok_iff] at all
  induction all with
  | nil => cases mem
  | cons isHead _ ih =>
    rcases mem_cons.mp mem with rfl | later
    · cases isHead.symm.trans parsed
      exact (agree _ mem_cons_self).2
    · exact ih later (forall_mem_cons.mp agree).2

/-- Every blob that is small enough round trips. What is reassembled is the blob of
a bundle, so that without a collision a bundle identifier has one blob. No header
makes reassembling abort. -/
theorem bundles_exact (sha3 : List UInt8 → Sha3Digest) :
    (∀ blob domain, blob.length ≤ maxBundleBytes → RoundTrips sha3 blob domain) ∧
    (∀ scripts blob, parseAndReassemble sha3 scripts = .ok blob → IsBundleOf sha3 scripts blob) ∧
    (∀ scripts others blob other, parseAndReassemble sha3 scripts = .ok blob →
      parseAndReassemble sha3 others = .ok other →
      (∃ script ∈ scripts, ∃ otherScript ∈ others, ∃ header otherHeader,
        parseCarrierHeader script = .ok header ∧
        parseCarrierHeader otherScript = .ok otherHeader ∧
        header.bundleId = otherHeader.bundleId) →
      (sha3 blob = sha3 other → blob = other) → blob = other) ∧
    ∀ inputs, reassemble sha3 inputs ≠ .error .panicked := by
  refine ⟨fun blob domain => encodeBundle_roundTrips,
    fun scripts blob => parseAndReassemble_isBundleOf, ?_, reassemble_ne_panicked sha3⟩
  rintro scripts others blob other first second
    ⟨script, mem, otherScript, otherMember, header, otherHeader, parsed, otherParsed, eq⟩
    free
  apply free
  rw [← bundleId_eq (parseAndReassemble_isBundleOf first) mem parsed, eq,
    bundleId_eq (parseAndReassemble_isBundleOf second) otherMember otherParsed]

end Sophis
