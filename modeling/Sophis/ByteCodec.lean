import Mathlib.Data.UInt

namespace ByteCodec

open List

/-!
# Byte strings, little-endian numbers and decoders

Fixed-size byte strings carry their length. A decoder consumes a prefix of
its input and either returns a value with the unread bytes or says why it
cannot; `decodeAll` additionally rejects unread bytes.
-/

/-- Byte strings of a fixed length. -/
@[ext] structure FixedBytes (size : Nat) where
  bytes : List UInt8
  length_bytes : bytes.length = size
  deriving Repr, DecidableEq

instance {size : Nat} (bytes : FixedBytes size) (all : List (FixedBytes size)) :
    Decidable (bytes ∈ all) :=
  List.instDecidableMemOfLawfulBEq bytes all

namespace FixedBytes

def replicate (size : Nat) (byte : UInt8) : FixedBytes size where
  bytes := List.replicate size byte
  length_bytes := length_replicate

/-- The first bytes of a list, padded with zeros when the list is short. -/
def ofPrefix (size : Nat) (bytes : List UInt8) : FixedBytes size where
  bytes := bytes.take size ++ List.replicate (size - bytes.length) 0
  length_bytes := by
    rw [length_append, length_take, length_replicate]
    omega

theorem append_inj {size : Nat} {first second : FixedBytes size} {rest otherRest : List UInt8}
    (eq : first.bytes ++ rest = second.bytes ++ otherRest) :
    first = second ∧ rest = otherRest := by
  obtain ⟨bytes, sameRest⟩ := List.append_inj eq (by rw [first.length_bytes, second.length_bytes])
  exact ⟨FixedBytes.ext bytes, sameRest⟩

end FixedBytes

/-- The little-endian bytes of a number, truncated to a width. -/
def leBytes : Nat → Nat → List UInt8
  | 0, _ => []
  | width + 1, value => UInt8.ofNat (value % 256) :: leBytes width (value / 256)

def leValue : List UInt8 → Nat
  | [] => 0
  | byte :: rest => byte.toNat + 256 * leValue rest

@[simp] theorem length_leBytes (width value : Nat) : (leBytes width value).length = width := by
  induction width generalizing value with
  | zero => rfl
  | succ width ih => simp [leBytes, ih]

variable {width : Nat}

/-- Reading back the bytes of a number that fits its width gives the
number. -/
theorem leValue_leBytes {value : Nat} (fits : value < 256 ^ width) :
    leValue (leBytes width value) = value := by
  induction width generalizing value with
  | zero =>
    rw [Nat.pow_zero] at fits
    simp only [leBytes, leValue]
    omega
  | succ width ih =>
    have quotientFits : value / 256 < 256 ^ width := by
      rw [Nat.pow_succ] at fits
      exact Nat.div_lt_of_lt_mul (by rwa [Nat.mul_comm])
    have byteValue : (UInt8.ofNat (value % 256)).toNat = value % 256 := by
      rw [UInt8.toNat_ofNat']
      exact Nat.mod_eq_of_lt (Nat.mod_lt _ (by decide))
    simp only [leBytes, leValue, ih quotientFits, byteValue]
    exact Nat.mod_add_div value 256

/-- Writing back the number that bytes represent gives the bytes. -/
theorem leBytes_leValue {bytes : List UInt8} (size : bytes.length = width) :
    leBytes width (leValue bytes) = bytes := by
  induction bytes generalizing width with
  | nil =>
    cases size
    rfl
  | cons byte rest ih =>
    cases size
    have small : byte.toNat < 256 := byte.toNat_lt
    have low : (byte.toNat + 256 * leValue rest) % 256 = byte.toNat := by omega
    have high : (byte.toNat + 256 * leValue rest) / 256 = leValue rest := by omega
    simp only [length_cons, leValue, leBytes, low, high, ih rfl, UInt8.ofNat_toNat]

theorem leValue_lt {bytes : List UInt8} (size : bytes.length = width) :
    leValue bytes < 256 ^ width := by
  induction bytes generalizing width with
  | nil => exact size ▸ Nat.one_pos
  | cons byte rest ih =>
    have small := byte.toNat_lt
    have below := ih rfl
    rw [← size, leValue, length_cons, Nat.pow_succ]
    omega

variable {first second : Nat}

theorem leBytes_append_inj {rest otherRest : List UInt8} (firstFits : first < 256 ^ width)
    (secondFits : second < 256 ^ width)
    (eq : leBytes width first ++ rest = leBytes width second ++ otherRest) :
    first = second ∧ rest = otherRest := by
  obtain ⟨sameBytes, sameRest⟩ := List.append_inj eq (by rw [length_leBytes, length_leBytes])
  refine ⟨?_, sameRest⟩
  rw [← leValue_leBytes firstFits, sameBytes, leValue_leBytes secondFits]

variable {rest otherRest : List UInt8}

theorem leBytes_uint16_append_inj {first second : UInt16}
    (eq : leBytes 2 first.toNat ++ rest = leBytes 2 second.toNat ++ otherRest) :
    first = second ∧ rest = otherRest := by
  obtain ⟨sameNat, sameRest⟩ := leBytes_append_inj first.toNat_lt second.toNat_lt eq
  exact ⟨UInt16.toNat_inj.mp sameNat, sameRest⟩

theorem leBytes_uint32_append_inj {first second : UInt32}
    (eq : leBytes 4 first.toNat ++ rest = leBytes 4 second.toNat ++ otherRest) :
    first = second ∧ rest = otherRest := by
  obtain ⟨sameNat, sameRest⟩ := leBytes_append_inj first.toNat_lt second.toNat_lt eq
  exact ⟨UInt32.toNat_inj.mp sameNat, sameRest⟩

theorem leBytes_uint64_append_inj {first second : UInt64}
    (eq : leBytes 8 first.toNat ++ rest = leBytes 8 second.toNat ++ otherRest) :
    first = second ∧ rest = otherRest := by
  obtain ⟨sameNat, sameRest⟩ := leBytes_append_inj first.toNat_lt second.toNat_lt eq
  exact ⟨UInt64.toNat_inj.mp sameNat, sameRest⟩

section

variable {α : Type} {encode : α → List UInt8} {good : α → Prop}
  (split : ∀ {first second : α} {rest otherRest : List UInt8}, good first → good second →
    encode first ++ rest = encode second ++ otherRest → first = second ∧ rest = otherRest)
include split

variable {items others : List α}

theorem flatMap_append_inj {rest otherRest : List UInt8} (sameLength : items.length = others.length)
    (itemsGood : ∀ item ∈ items, good item) (othersGood : ∀ item ∈ others, good item)
    (eq : items.flatMap encode ++ rest = others.flatMap encode ++ otherRest) :
    items = others ∧ rest = otherRest := by
  induction items generalizing others with
  | nil =>
    cases others with
    | nil => exact ⟨rfl, eq⟩
    | cons other others => cases sameLength
  | cons item items ih =>
    cases others with
    | nil => cases sameLength
    | cons other others =>
      rw [flatMap_cons, flatMap_cons, append_assoc, append_assoc] at eq
      obtain ⟨rfl, afterFirst⟩ := split (itemsGood item mem_cons_self)
        (othersGood other mem_cons_self) eq
      obtain ⟨rfl, sameRest⟩ := ih (by simpa using sameLength) (forall_mem_cons.mp itemsGood).2
        (forall_mem_cons.mp othersGood).2 afterFirst
      exact ⟨rfl, sameRest⟩

/-- Without anything after them, their number need not be known. -/
theorem flatMap_inj (nonempty : ∀ item, encode item ≠ []) (itemsGood : ∀ item ∈ items, good item)
    (othersGood : ∀ item ∈ others, good item) (eq : items.flatMap encode = others.flatMap encode) :
    items = others := by
  induction items generalizing others with
  | nil =>
    cases others with
    | nil => rfl
    | cons other others =>
      rw [flatMap_nil, flatMap_cons, eq_comm, append_eq_nil_iff] at eq
      exact absurd eq.1 (nonempty other)
  | cons item items ih =>
    cases others with
    | nil =>
      rw [flatMap_nil, flatMap_cons, append_eq_nil_iff] at eq
      exact absurd eq.1 (nonempty item)
    | cons other others =>
      rw [flatMap_cons, flatMap_cons] at eq
      obtain ⟨rfl, afterFirst⟩ := split (itemsGood item mem_cons_self)
        (othersGood other mem_cons_self) eq
      rw [ih (forall_mem_cons.mp itemsGood).2 (fun item mem =>
        othersGood item (mem_cons_of_mem _ mem)) afterFirst]

end

/-- A padded number that fits its width can be read back. -/
theorem eq_of_ofPrefix_leBytes_eq {size : Nat} (firstFits : first < 256 ^ width)
    (secondFits : second < 256 ^ width) (short : width ≤ size)
    (eq : FixedBytes.ofPrefix size (leBytes width first) = .ofPrefix size (leBytes width second)) :
    first = second := by
  have bytes := congrArg FixedBytes.bytes eq
  simp only [FixedBytes.ofPrefix, take_of_length_le, length_leBytes, short] at bytes
  exact (leBytes_append_inj firstFits secondFits bytes).1

theorem leValue_append (bytes rest : List UInt8) :
    leValue (bytes ++ rest) = leValue bytes + 256 ^ bytes.length * leValue rest := by
  induction bytes with
  | nil => simp [leValue]
  | cons byte bytes ih =>
    simp only [cons_append, leValue, ih, length_cons, Nat.pow_succ, Nat.mul_add, Nat.add_assoc]
    rw [Nat.mul_comm (256 ^ bytes.length) 256, Nat.mul_assoc]

/-- The byte at an offset the caller has checked. -/
def byteAt (bytes : List UInt8) (offset : Nat) : UInt8 := bytes.getD offset 0

/-- The bytes of a range the caller has checked. -/
def slice (bytes : List UInt8) (offset length : Nat) : List UInt8 := (bytes.drop offset).take length

def u16At (bytes : List UInt8) (offset : Nat) : UInt16 :=
  UInt16.ofNat (leValue (slice bytes offset 2))

def u32At (bytes : List UInt8) (offset : Nat) : UInt32 :=
  UInt32.ofNat (leValue (slice bytes offset 4))

def u64At (bytes : List UInt8) (offset : Nat) : UInt64 :=
  UInt64.ofNat (leValue (slice bytes offset 8))

variable {bytes : List UInt8} {offset length : Nat}

theorem slice_append_drop (bytes : List UInt8) (offset length : Nat) :
    slice bytes offset length ++ bytes.drop (offset + length) = bytes.drop offset := by
  rw [slice, ← drop_drop, take_append_drop]

theorem length_slice (inside : offset + length ≤ bytes.length) :
    (slice bytes offset length).length = length := by
  rw [slice, length_take, length_drop]
  omega

theorem slice_one (inside : offset < bytes.length) :
    slice bytes offset 1 = [byteAt bytes offset] := by
  rw [slice, take_one_drop_eq_of_lt_length inside, byteAt, getD_eq_getElem?_getD,
    getElem?_eq_getElem inside]
  rfl

theorem leBytes_u16At (inside : offset + 2 ≤ bytes.length) :
    leBytes 2 (u16At bytes offset).toNat = slice bytes offset 2 := by
  have size := length_slice inside
  rw [u16At, UInt16.toNat_ofNat_of_lt' (leValue_lt size), leBytes_leValue size]

theorem leBytes_u64At (inside : offset + 8 ≤ bytes.length) :
    leBytes 8 (u64At bytes offset).toNat = slice bytes offset 8 := by
  have size := length_slice inside
  rw [u64At, UInt64.toNat_ofNat_of_lt' (leValue_lt size), leBytes_leValue size]

def hexDigit (value : Nat) : Char := Char.ofNat (if value < 10 then 48 + value else 87 + value)

def hex (bytes : List UInt8) : String := String.ofList (bytes.flatMap fun byte =>
    [hexDigit (byte.toNat / 16), hexDigit (byte.toNat % 16)])

/-- Why bytes cannot be decoded. -/
inductive DecodeError where
  | unexpectedLengthOfInput
  | failedToFillWholeBuffer
  | notAllBytesRead
  | unexpectedVariantTag (tag : UInt8)
  | invalidOptionRepresentation (tag : UInt8)
  deriving Repr, DecidableEq

def DecodeError.message : DecodeError → String
  | .unexpectedLengthOfInput => "Unexpected length of input"
  | .failedToFillWholeBuffer => "failed to fill whole buffer"
  | .notAllBytesRead => "Not all bytes read"
  | .unexpectedVariantTag tag => s!"Unexpected variant tag: {tag}"
  | .invalidOptionRepresentation tag =>
    s!"Invalid Option representation: {tag}. The first byte must be 0 or 1"

/-- A decoder threads the unread input. -/
abbrev Decoder (α : Type) := StateT (List UInt8) (Except DecodeError) α

namespace Decoder

/-- Reads a fixed number of bytes or reports the given error. -/
def bytesOr (short : DecodeError) (size : Nat) : Decoder (FixedBytes size) := fun input =>
  if enough : size ≤ input.length then
    .ok (⟨input.take size, length_take_of_le enough⟩, input.drop size)
  else
    .error short

def fixedBytes (size : Nat) : Decoder (FixedBytes size) := bytesOr .unexpectedLengthOfInput size

def leNat (width : Nat) : Decoder Nat := do
  let bytes ← fixedBytes width
  return leValue bytes.bytes

def u8 : Decoder UInt8 := do
  return UInt8.ofNat (← leNat 1)

def u32 : Decoder UInt32 := do
  return UInt32.ofNat (← leNat 4)

def u64 : Decoder UInt64 := do
  return UInt64.ofNat (← leNat 8)

/-- Reads a 32-bit length and that many bytes. -/
def byteVector : Decoder (List UInt8) := do
  let length ← u32
  let bytes ← fixedBytes length.toNat
  return bytes.bytes

def elements {α : Type} (element : Decoder α) : Nat → Decoder (List α)
  | 0 => return []
  | count + 1 => do
    let head ← element
    let tail ← elements element count
    return head :: tail

def vector {α : Type} (element : Decoder α) : Decoder (List α) := do
  let length ← u32
  elements element length.toNat

/-- Reads a presence byte and the value it announces. -/
def option {α : Type} (element : Decoder α) : Decoder (Option α) := do
  match ← u8 with
  | 0 => return none
  | 1 => return some (← element)
  | tag => throw (.invalidOptionRepresentation tag)

end Decoder

def decodeAll {α : Type} (decoder : Decoder α) (input : List UInt8) : Except DecodeError α :=
  match decoder input with
  | .error error => .error error
  | .ok (value, []) => .ok value
  | .ok (_, _ :: _) => .error .notAllBytesRead

theorem decodeAll_map {α β : Type} (transform : α → β) (decoder : Decoder α) (input : List UInt8) :
    decodeAll (transform <$> decoder) input = transform <$> decodeAll decoder input := by
  have mapped : (transform <$> decoder) input =
      (fun result : α × List UInt8 => (transform result.1, result.2)) <$> decoder input :=
    rfl
  rw [decodeAll, decodeAll, mapped]
  rcases decoder input with error | ⟨value, unread⟩
  · rfl
  · cases unread with
    | nil => rfl
    | cons byte rest => rfl

variable {α : Type} {size : Nat} {next : FixedBytes size → Decoder α}

open Decoder

theorem decodeAll_fixedBytes_append (leading : FixedBytes size) (rest : List UInt8) :
    decodeAll (fixedBytes size >>= next) (leading.bytes ++ rest) =
      decodeAll (next leading) rest := by
  have read : fixedBytes size (leading.bytes ++ rest) = .ok (leading, rest) := by
    have enough : size ≤ (leading.bytes ++ rest).length := by
      rw [length_append, leading.length_bytes]
      exact Nat.le_add_right _ _
    rw [fixedBytes, bytesOr, dif_pos enough]
    congr
    · exact take_left' leading.length_bytes
    · exact drop_left' leading.length_bytes
  have ran : (fixedBytes size >>= next) (leading.bytes ++ rest) =
      next leading rest := by
    change (fixedBytes size (leading.bytes ++ rest) >>= fun result => next result.1 result.2) = _
    rw [read]
    rfl
  rw [decodeAll, ran, ← decodeAll]

variable {input : List UInt8} {value : α}

theorem exists_leading_of_decodeAll
    (read : decodeAll (fixedBytes size >>= next) input = .ok value) :
    ∃ leading : FixedBytes size, input = leading.bytes ++ input.drop size := by
  by_cases enough : size ≤ input.length
  · exact ⟨⟨input.take size, length_take_of_le enough⟩, (take_append_drop size input).symm⟩
  · have short : fixedBytes size input = .error .unexpectedLengthOfInput := by
      rw [fixedBytes, bytesOr, dif_neg enough]
    have stopped : (fixedBytes size >>= next) input = .error .unexpectedLengthOfInput := by
      change (fixedBytes size input >>= fun result => next result.1 result.2) = _
      rw [short]
      rfl
    rw [decodeAll, stopped] at read
    cases read

/-- A record whose first field has a fixed size can be given another first
field in place; the other fields are read as before. -/
theorem decodeAll_replace_leading {β : Type} {build : FixedBytes size → β → α} {fields : Decoder β}
    {decoder : Decoder α}
    (layout : decoder = fixedBytes size >>= fun leading => build leading <$> fields)
    (decoded : decodeAll decoder input = .ok value) :
    ∃ leading read, value = build leading read ∧ ∀ other : FixedBytes size,
      decodeAll decoder (other.bytes ++ input.drop size) = .ok (build other read) := by
  subst layout
  obtain ⟨leading, split⟩ := exists_leading_of_decodeAll decoded
  rw [split, decodeAll_fixedBytes_append, decodeAll_map] at decoded
  cases remaining : decodeAll fields (input.drop size) with
  | error error =>
    rw [remaining] at decoded
    cases decoded
  | ok read =>
    rw [remaining] at decoded
    cases decoded
    refine ⟨leading, read, rfl, fun other => ?_⟩
    rw [decodeAll_fixedBytes_append, decodeAll_map, remaining]
    rfl

end ByteCodec
