import Mathlib.Data.List.ModifyLast
import Sophis.BitRegroup
import Sophis.CompactFilter
import Sophis.ExceptLoop
import Sophis.TransactionHashing

namespace Sophis

open BitRegroup ByteCodec ExceptLoop List MachineWord Option UInt64 UInt8

/-!
# Matching an item against a compact block filter

The reading half of `wallet/filters/src`: the count before the stream, the reader
of bits and the scan for the value of an item. A filter holds the distinct
values of its items, so the scan answers exactly whether one of them is the
value of the item; the zeros that fill the last byte are too few for a value.
-/

/-- Why a filter cannot be read. -/
inductive FilterError where
  | tooShort (length : Nat)
  | malformedCompactSize
  deriving Repr, DecidableEq

/-- A count behind a marker byte. A count that fits a shorter form is
malformed. -/
def markedSize (width least : Nat) (bytes : List UInt8) : Except FilterError (UInt64 × Nat) :=
  if bytes.length < width + 1 then
    .error .malformedCompactSize
  else if leValue (slice bytes 1 width) < least then
    .error .malformedCompactSize
  else
    .ok (UInt64.ofNat (leValue (slice bytes 1 width)), width + 1)

def decodeCompactSize (bytes : List UInt8) : Except FilterError (UInt64 × Nat) :=
  if bytes.isEmpty then
    .error (.tooShort 0)
  else
    let head := byteAt bytes 0
    if head = 0xFD then
      markedSize 2 253 bytes
    else if head = 0xFE then
      markedSize 4 0x10000 bytes
    else if head = 0xFF then
      markedSize 8 0x100000000 bytes
    else
      .ok (head.toUInt64, 1)

/-- The position counts bits from the start of the bytes. -/
structure BitReader where
  bytes : List UInt8
  pos : Nat

namespace BitReader

def new (bytes : List UInt8) : BitReader := ⟨bytes, 0⟩

def skip (reader : BitReader) (count : Nat) : BitReader := { reader with pos := reader.pos + count }

def readBit (reader : BitReader) : Option (UInt8 × BitReader) :=
  if reader.bytes.length ≤ reader.pos / 8 then
    none
  else
    some ((byteAt reader.bytes (reader.pos / 8) >>> UInt8.ofNat (7 - reader.pos % 8)) &&& 1,
      reader.skip 1)

def readBitsOnto : Nat → UInt64 → BitReader → Option (UInt64 × BitReader)
  | 0, value, reader => some (value, reader)
  | nbits + 1, value, reader => do
    let (bit, next) ← reader.readBit
    readBitsOnto nbits (value <<< 1 ||| bit.toUInt64) next

def readBits (reader : BitReader) (nbits : Nat) : Option (UInt64 × BitReader) :=
  readBitsOnto nbits 0 reader

/-- Counts ones up to the zero behind them. Every round reads a bit, so the
number of bits bounds the rounds. -/
def readUnary : Nat → Nat → BitReader → Option (Nat × BitReader)
  | 0, _, _ => none
  | rounds + 1, q, reader => do
    let (bit, next) ← reader.readBit
    if bit = 1 then
      readUnary rounds (q + 1) next
    else
      return (q, next)

/-- One difference of the stream, `none` where the stream ends. -/
def readDelta (reader : BitReader) (p : Nat) : Option (UInt64 × BitReader) := do
  let (q, next) ← readUnary (reader.bytes.length * 8 + 1) 0 reader
  let (r, next) ← next.readBits p
  return (UInt64.ofNat q <<< UInt64.ofNat p ||| r, next)

end BitReader

/-- Adds up the differences until the target is met or passed. -/
def scanFilter (target : UInt64) : Nat → BitReader → Int → Bool
  | 0, _, _ => false
  | n + 1, reader, prev => match reader.readDelta golombRiceP with
    | none => false
    | some (delta, next) =>
      let v := UInt64.ofInt (prev + 1 + delta.toNat)
      if v = target then
        true
      else if target < v then
        false
      else
        scanFilter target n next v.toNat

/-- Whether an item may be in a filter. -/
def filterMatches (hashers : Hashers) (filterBytes : List UInt8) (blockHash : Hash)
    (item : List UInt8) : Except (Failure FilterError) Bool :=
  if item.isEmpty then
    .ok false
  else do
    let (n, prefixLen) ← raising (decodeCompactSize filterBytes)
    if n = 0 then
      return false
    let target ← orPanic (mapToRange (hashItem hashers blockHash item) n golombRiceM)
    return scanFilter target n.toNat (.new (filterBytes.drop prefixLen)) (-1)

/-- The bits of bytes, the most significant one of each byte first. -/
def bitStream (bytes : List UInt8) : List Bool := stream 8 (bytes.map UInt8.toNat)

theorem bitsOf_getElem? {width index value : Nat} (inside : index < width) :
    (bitsOf width value)[index]? = some (value.testBit (width - 1 - index)) := by
  induction width generalizing index with
  | zero => cases inside
  | succ width ih =>
    cases index with
    | zero => rfl
    | succ index =>
      rw [bitsOf, getElem?_cons_succ, ih (Nat.lt_of_succ_lt_succ inside)]
      congr 2
      omega

theorem bitStream_getElem? (bytes : List UInt8) (pos : Nat) : (bitStream bytes)[pos]? =
    bytes[pos / 8]?.map fun byte => byte.toNat.testBit (7 - pos % 8) := by
  induction bytes generalizing pos with
  | nil => rfl
  | cons first rest ih =>
    rw [bitStream, map_cons, stream_cons]
    rcases Nat.lt_or_ge pos 8 with inside | outside
    · rw [getElem?_append_left (by rwa [length_bitsOf]), bitsOf_getElem? inside,
        Nat.div_eq_of_lt inside, Nat.mod_eq_of_lt inside]
      rfl
    · obtain ⟨later, rfl⟩ := Nat.exists_eq_add_of_le outside
      rw [getElem?_append_right (by rw [length_bitsOf]; exact outside), length_bitsOf,
        Nat.add_sub_cancel_left, ← bitStream, ih, Nat.add_mod_left,
        Nat.add_div_left _ (by decide), getElem?_cons_succ]

theorem shiftRight_and_one {shift : Nat} (byte : UInt8) (inside : shift < 8) :
    (byte >>> UInt8.ofNat shift) &&& 1 = (byte.toNat.testBit shift).toUInt8 := by
  apply UInt8.toNat_inj.mp
  have amount : (UInt8.ofNat shift).toNat = shift :=
    UInt8.toNat_ofNat_of_lt' (inside.trans (by decide))
  rw [UInt8.toNat_and, UInt8.toNat_shiftRight, amount, Nat.mod_eq_of_lt inside]
  have bit : byte.toNat >>> shift &&& 1 = (byte.toNat.testBit shift).toNat := by
    rw [Nat.toNat_testBit, Nat.and_one_is_mod, Nat.shiftRight_eq_div_pow]
  rw [UInt8.toNat_one, bit]
  cases byte.toNat.testBit shift <;> rfl

theorem toNat_shiftLeft_or {value : UInt64} (bit : Bool) (small : value.toNat * 2 < 2 ^ 64) :
    (value <<< 1 ||| bit.toUInt8.toUInt64).toNat = value.toNat * 2 + bit.toNat := by
  have shifted : (value <<< 1).toNat = value.toNat <<< 1 := by
    rw [UInt64.toNat_shiftLeft]
    exact Nat.mod_eq_of_lt ((Nat.shiftLeft_eq _ _).trans_lt small)
  have isBit : bit.toUInt8.toUInt64.toNat = bit.toNat := by cases bit <;> rfl
  rw [UInt64.toNat_or, shifted, isBit, ← Nat.shiftLeft_add_eq_or_of_lt, Nat.shiftLeft_eq]
  exact Bool.toNat_lt bit

namespace BitReader

def ahead (reader : BitReader) : List Bool := (bitStream reader.bytes).drop reader.pos

@[simp] theorem ahead_skip (reader : BitReader) (count : Nat) :
    (reader.skip count).ahead = reader.ahead.drop count := by
  simp [ahead, skip]

@[simp] theorem skip_skip (reader : BitReader) (first second : Nat) :
    (reader.skip first).skip second = reader.skip (first + second) := by
  simp [skip, Nat.add_assoc]

variable {reader : BitReader} {bit : Bool} {rest : List Bool}

theorem readBit_eq : reader.readBit = reader.ahead.head?.map fun bit =>
    (bit.toUInt8, reader.skip 1) := by
  rw [ahead, head?_drop, bitStream_getElem?, readBit]
  split_ifs with ended
  · rw [getElem?_eq_none ended]
    rfl
  · rw [getElem?_eq_getElem (Nat.lt_of_not_le ended), byteAt,
      getD_eq_getElem _ _ (Nat.lt_of_not_le ended), shiftRight_and_one _ (by omega)]
    rfl

theorem length_ahead_le (reader : BitReader) : reader.ahead.length ≤ reader.bytes.length * 8 := by
  simp [ahead, bitStream]

theorem readUnary_eq {q rounds start : Nat}
    (isAhead : reader.ahead = List.replicate q true ++ false :: rest) (enough : q < rounds) :
    readUnary rounds start reader = some (start + q, reader.skip (q + 1)) := by
  induction q generalizing reader rounds start with
  | zero =>
    obtain ⟨rounds, rfl⟩ := Nat.exists_eq_succ_of_ne_zero (Nat.ne_of_gt enough)
    rw [readUnary, readBit_eq, isAhead]
    rfl
  | succ q ih =>
    obtain ⟨rounds, rfl⟩ := Nat.exists_eq_succ_of_ne_zero (Nat.ne_of_gt (Nat.zero_lt_of_lt enough))
    have next : (reader.skip 1).ahead = List.replicate q true ++ false :: rest := by
      rw [ahead_skip, isAhead]
      rfl
    have later := @ih (reader.skip 1) rounds (start + 1) next (Nat.lt_of_succ_lt_succ enough)
    rw [readUnary, readBit_eq, isAhead]
    rw [skip_skip, Nat.add_right_comm, Nat.add_comm 1] at later
    exact later

theorem readUnary_eq_none {count rounds start : Nat}
    (isAhead : reader.ahead = List.replicate count true) :
    readUnary rounds start reader = none := by
  induction rounds generalizing reader count start with
  | zero => rfl
  | succ rounds ih =>
    rw [readUnary, readBit_eq, isAhead]
    cases count with
    | zero => rfl
    | succ count =>
      refine @ih (reader.skip 1) count (start + 1) ?_
      rw [ahead_skip, isAhead]
      rfl

theorem readBitsOnto_eq {width bits : Nat} {value : UInt64}
    (isAhead : reader.ahead = bitsOf width bits ++ rest)
    (fits : (value.toNat + 1) * 2 ^ width ≤ 2 ^ 64) :
    readBitsOnto width value reader =
      some (UInt64.ofNat (value.toNat * 2 ^ width + bits % 2 ^ width), reader.skip width) := by
  induction width generalizing reader value with
  | zero => simp [readBitsOnto, skip, Nat.mod_one]
  | succ width ih =>
    have next : (reader.skip 1).ahead = bitsOf width bits ++ rest := by
      rw [ahead_skip, isAhead]
      rfl
    have room : (value.toNat + 1) * 2 ≤ 2 ^ 64 := by
      refine Nat.le_trans (Nat.mul_le_mul_left _ ?_) fits
      exact Nat.pow_le_pow_right (n := 2) (by decide) (Nat.succ_pos width)
    have doubled := toNat_shiftLeft_or (bits.testBit width) (by omega : value.toNat * 2 < 2 ^ 64)
    have fitsNext : ((value <<< 1 ||| (bits.testBit width).toUInt8.toUInt64).toNat + 1) *
        2 ^ width ≤ 2 ^ 64 := by
      rw [doubled]
      refine Nat.le_trans ?_ fits
      rw [Nat.pow_succ', ← Nat.mul_assoc]
      apply Nat.mul_le_mul_right
      have := Bool.toNat_le (bits.testBit width)
      omega
    rw [readBitsOnto, readBit_eq, isAhead]
    refine (ih next fitsNext).trans ?_
    have split : bits % 2 ^ (width + 1) =
        bits % 2 ^ width + 2 ^ width * (bits.testBit width).toNat := by
      rw [Nat.mod_pow_succ, Nat.toNat_testBit]
    rw [doubled, skip_skip, Nat.add_comm 1, split, Nat.add_mul, Nat.mul_assoc, ← Nat.pow_succ',
      Nat.mul_comm (Bool.toNat _), Nat.add_assoc, Nat.add_comm (2 ^ width * _)]

theorem readBitsOnto_eq_none {width : Nat} {value : UInt64} (short : reader.ahead.length < width) :
    readBitsOnto width value reader = none := by
  induction width generalizing reader value with
  | zero => cases short
  | succ width ih =>
    rw [readBitsOnto, readBit_eq]
    cases isAhead : reader.ahead with
    | nil => rfl
    | cons bit rest =>
      rw [isAhead] at short
      refine ih ?_
      rw [ahead_skip, isAhead]
      exact Nat.lt_of_succ_lt_succ short

end BitReader

namespace BitWriter

/-- The bits written so far. The bits of a byte that is not full stand in front
of zeros. -/
inductive Holds (bits : List Bool) : BitWriter → Prop
  | full {out : List UInt8} (written : bitStream out = bits) : Holds bits ⟨out, 8⟩
  | filling {leading : List UInt8} {filled : UInt8} {buffer : Nat} (room : filled.toNat < 8)
    (fits : buffer < 2 ^ filled.toNat)
    (written : bitStream leading ++ bitsOf filled.toNat buffer = bits) :
    Holds bits ⟨leading ++ [UInt8.ofNat (buffer <<< (8 - filled.toNat))], filled⟩

variable {writer : BitWriter} {bits : List Bool}

theorem bitStream_concat (leading : List UInt8) (last : UInt8) :
    bitStream (leading ++ [last]) = bitStream leading ++ bitsOf 8 last.toNat := by
  simp [bitStream]

theorem toNat_ofNat_shiftLeft {filled buffer : Nat} (room : filled ≤ 8)
    (fits : buffer < 2 ^ filled) :
    (UInt8.ofNat (buffer <<< (8 - filled))).toNat = buffer <<< (8 - filled) := by
  apply UInt8.toNat_ofNat_of_lt'
  rw [Nat.shiftLeft_eq]
  calc buffer * 2 ^ (8 - filled) < 2 ^ filled * 2 ^ (8 - filled) :=
      Nat.mul_lt_mul_of_pos_right fits (Nat.two_pow_pos _)
    _ = 2 ^ 8 := by rw [← Nat.pow_add, Nat.add_sub_cancel' room]

theorem Holds.exists_padding (holds : Holds bits writer) :
    ∃ padding ≤ 8, bitStream writer.out = bits ++ List.replicate padding false := by
  cases holds with
  | full written => exact ⟨0, by decide, by simpa using written⟩
  | @filling leading filled buffer room fits written =>
    have last := @bitsOf_shiftLeft_or filled.toNat (8 - filled.toNat) buffer 0 (Nat.two_pow_pos _)
    rw [Nat.or_zero, bitsOf_zero, Nat.add_sub_cancel' room.le] at last
    refine ⟨8 - filled.toNat, Nat.sub_le _ _, ?_⟩
    rw [bitStream_concat, toNat_ofNat_shiftLeft room.le fits, last, ← written, append_assoc]

open BitWriter

theorem Holds.fill {leading : List UInt8} {filled : UInt8} {buffer : Nat} (room : filled.toNat < 8)
    (fits : buffer < 2 ^ filled.toNat)
    (written : bitStream leading ++ bitsOf filled.toNat buffer = bits) (bit : UInt8) :
    Holds (bits ++ [bit.toNat.testBit 0])
      (writeBit ⟨leading ++ [UInt8.ofNat (buffer <<< (8 - filled.toNat))], filled⟩
        bit) := by
  have notFull : filled ≠ 8 := by
    rintro rfl
    exact Nat.lt_irrefl 8 room
  have amount : (7 - filled).toNat = 7 - filled.toNat :=
    UInt8.toNat_sub_of_le _ _ (UInt8.le_iff_toNat_le.mpr (Nat.le_of_lt_succ room))
  have count : (filled + 1).toNat = filled.toNat + 1 := by
    rw [UInt8.toNat_add, UInt8.toNat_one]
    exact Nat.mod_eq_of_lt (by omega)
  have low : bit.toNat % 2 < 2 ^ 1 := Nat.mod_lt _ Nat.two_pos
  have fitsNext : buffer <<< 1 ||| bit.toNat % 2 < 2 ^ (filled + 1).toNat := by
    rw [count]
    exact shiftLeft_or_lt fits low
  have lastByte : UInt8.ofNat (buffer <<< (8 - filled.toNat)) ||| ((bit &&& 1) <<< (7 - filled)) =
      UInt8.ofNat ((buffer <<< 1 ||| bit.toNat % 2) <<< (8 - (filled + 1).toNat)) := by
    have split : 8 - filled.toNat = 1 + (7 - filled.toNat) := by omega
    have next : 8 - (filled.toNat + 1) = 7 - filled.toNat := by omega
    have small : (bit.toNat % 2) <<< (7 - filled.toNat) < 2 ^ 8 := by
      rw [Nat.shiftLeft_eq]
      exact Nat.lt_of_le_of_lt (Nat.mul_le_mul (Nat.le_of_lt_succ low)
        (Nat.pow_le_pow_right Nat.two_pos (Nat.sub_le 7 _))) (by decide)
    apply UInt8.toNat_inj.mp
    rw [toNat_ofNat_shiftLeft (by omega) fitsNext, UInt8.toNat_or,
      toNat_ofNat_shiftLeft room.le fits, UInt8.toNat_shiftLeft, amount, UInt8.toNat_and,
      UInt8.toNat_one, Nat.and_one_is_mod, Nat.mod_eq_of_lt (by omega : 7 - filled.toNat < 8),
      Nat.mod_eq_of_lt small, count, Nat.shiftLeft_or_distrib, split, next, Nat.shiftLeft_add]
  have writtenNext : bitStream leading ++
      bitsOf (filled + 1).toNat (buffer <<< 1 ||| bit.toNat % 2) =
        bits ++ [bit.toNat.testBit 0] := by
    have last : bitsOf 1 (bit.toNat % 2) = [bit.toNat.testBit 0] := bitsOf_mod (Nat.le_refl 1)
    rw [count, bitsOf_shiftLeft_or low, last, ← append_assoc, written]
  rw [writeBit, if_neg notFull, modifyLast_concat, lastByte]
  by_cases isFull : filled + 1 = 8
  · have value := toNat_ofNat_shiftLeft (by omega) fitsNext
    rw [isFull] at value writtenNext ⊢
    refine .full ?_
    rw [bitStream_concat, value]
    exact writtenNext
  · refine .filling (Nat.lt_of_le_of_ne (by omega) fun eq => ?_) fitsNext writtenNext
    exact isFull (UInt8.toNat_inj.mp eq)

theorem Holds.writeBit (holds : Holds bits writer) (bit : UInt8) :
    Holds (bits ++ [bit.toNat.testBit 0]) (writer.writeBit bit) := by
  cases holds with
  | @full out written =>
    have opened : writeBit ⟨out, 8⟩ bit = writeBit ⟨out ++ [0], 0⟩ bit := by
      rw [writeBit, writeBit, if_pos rfl, if_neg (by decide : ¬(0 : UInt8) = 8)]
    rw [opened]
    exact @Holds.fill bits out 0 0 (by decide) (by decide) (by simpa [bitsOf] using written) bit
  | filling room fits written => exact Holds.fill room fits written bit

theorem Holds.writeOnes (holds : writer.Holds bits) (count : Nat) :
    ((List.replicate count 1).foldl BitWriter.writeBit writer).Holds
      (bits ++ List.replicate count true) := by
  induction count generalizing writer bits with
  | zero => simpa using holds
  | succ count ih =>
    have later := ih (holds.writeBit 1)
    rwa [append_assoc] at later

theorem Holds.writeBits (holds : writer.Holds bits) (value : UInt64) {nbits : Nat}
    (inside : nbits ≤ 64) :
    (writer.writeBits value nbits).Holds (bits ++ bitsOf nbits value.toNat) := by
  induction nbits generalizing writer bits with
  | zero => simpa [writeBits, bitsOf] using holds
  | succ nbits ih =>
    have bit : ((value >>> UInt64.ofNat nbits) &&& 1).toUInt8.toNat.testBit 0 =
        value.toNat.testBit nbits := by
      rw [UInt64.toNat_toUInt8, Nat.testBit_mod_two_pow, UInt64.toNat_and, UInt64.toNat_shiftRight,
        UInt64.toNat_ofNat_of_lt' (inside.trans (by decide)), Nat.mod_eq_of_lt inside,
        Nat.testBit_and,
        Nat.testBit_shiftRight]
      simp
    have later := ih (holds.writeBit ((value >>> UInt64.ofNat nbits) &&& 1).toUInt8)
      (Nat.le_of_succ_le inside)
    rw [bit, append_assoc] at later
    rw [writeBits, range_succ, reverse_append]
    exact later

end BitWriter

/-- The bits of a difference: its quotient in ones, a zero, its remainder. -/
def codeWord (delta : Nat) : List Bool :=
  List.replicate (delta / 2 ^ golombRiceP) true ++ false :: bitsOf golombRiceP delta

/-- The bits of ascending values, each of them at least `start`. -/
def codeWords : Nat → List UInt64 → List Bool
  | _, [] => []
  | start, value :: values => codeWord (value.toNat - start) ++ codeWords (value.toNat + 1) values

variable {writer : BitWriter} {bits : List Bool} {start : Nat} {value : UInt64}
  {values : List UInt64}

theorem ofInt_natCast (n : Nat) : UInt64.ofInt n = UInt64.ofNat n := by
  have reduced : ((n : Int) % 2 ^ 64).toNat = n % 2 ^ 64 := by omega
  apply UInt64.toNat_inj.mp
  rw [UInt64.ofInt, reduced, UInt64.toNat_ofNat', UInt64.toNat_ofNat', Nat.mod_mod]

theorem encodeGrValue_holds (holds : writer.Holds bits) (above : start ≤ value.toNat) :
    (encodeGrValue golombRiceP (writer, start - 1) value).1.Holds
      (bits ++ codeWord (value.toNat - start)) := by
  have delta : (value.toNat : Int) - (start - 1) - 1 = ((value.toNat - start : Nat) : Int) := by
    omega
  have fits : value.toNat - start < 2 ^ 64 := Nat.lt_of_le_of_lt (Nat.sub_le _ _) value.toNat_lt
  have wide : (UInt64.ofNat (value.toNat - start)).toNat = value.toNat - start :=
    UInt64.toNat_ofNat_of_lt' fits
  simp only [encodeGrValue, delta, ofInt_natCast]
  generalize value.toNat - start = distance at fits wide ⊢
  have quotient : (UInt64.ofNat distance >>> UInt64.ofNat golombRiceP).toNat =
      distance / 2 ^ golombRiceP := by
    rw [UInt64.toNat_shiftRight, wide, Nat.shiftRight_eq_div_pow]
    rfl
  have remainder : (UInt64.ofNat distance &&& ((1 <<< UInt64.ofNat golombRiceP) - 1)).toNat =
      distance % 2 ^ golombRiceP := by
    rw [UInt64.toNat_and, wide]
    exact Nat.and_two_pow_sub_one_eq_mod distance golombRiceP
  have written := ((holds.writeOnes (distance / 2 ^ golombRiceP)).writeBit 0).writeBits
    (UInt64.ofNat distance &&& ((1 <<< UInt64.ofNat golombRiceP) - 1))
    (by decide : golombRiceP ≤ 64)
  rw [remainder, bitsOf_mod (Nat.le_refl _)] at written
  rw [quotient, codeWord]
  simpa using written

theorem encodeGr_holds (sorted : values.Pairwise (· < ·))
    (above : ∀ value ∈ values, start ≤ value.toNat) (holds : writer.Holds bits) :
    (values.foldl (encodeGrValue golombRiceP) (writer, start - 1)).1.Holds
      (bits ++ codeWords start values) := by
  induction values generalizing start writer bits with
  | nil => simpa [codeWords] using holds
  | cons value values ih =>
    rw [pairwise_cons] at sorted
    have first := encodeGrValue_holds holds (above value (by simp))
    have later := @ih _ _ (value.toNat + 1) sorted.2 (fun next isNext =>
      lt_iff_toNat_lt.mp (sorted.1 next isNext)) first
    have cursor : ((value.toNat + 1 : Nat) : Int) - 1 = value.toNat := by omega
    have state : encodeGrValue golombRiceP (writer, start - 1) value =
        ((encodeGrValue golombRiceP (writer, start - 1) value).1, (value.toNat : Int)) :=
      rfl
    rw [cursor, append_assoc] at later
    rw [foldl_cons, state]
    exact later

section

variable {reader : BitReader} {start delta : Nat} {values : List UInt64} {rest : List Bool}
  {target : UInt64}

open BitReader

theorem readDelta_eq (isAhead : reader.ahead = codeWord delta ++ rest) (fits : delta < 2 ^ 64) :
    reader.readDelta golombRiceP =
      some (UInt64.ofNat delta, reader.skip (codeWord delta).length) := by
  have isQuotient : reader.ahead =
      List.replicate (delta / 2 ^ golombRiceP) true ++
        false :: (bitsOf golombRiceP delta ++ rest) := by
    rw [isAhead, codeWord, append_assoc]
    rfl
  have enough : delta / 2 ^ golombRiceP < reader.bytes.length * 8 + 1 := by
    have size := reader.length_ahead_le
    rw [isQuotient, length_append, length_replicate] at size
    omega
  have isRemainder : (reader.skip (delta / 2 ^ golombRiceP + 1)).ahead =
      bitsOf golombRiceP delta ++ rest := by
    rw [ahead_skip, isQuotient, drop_append, length_replicate]
    simp
  have quotientFits : delta / 2 ^ golombRiceP * 2 ^ golombRiceP < 2 ^ 64 :=
    Nat.lt_of_le_of_lt (Nat.div_mul_le_self _ _) fits
  rw [readDelta, readUnary_eq isQuotient enough]
  simp only [bind_eq_bind, bind_some, readBits]
  rw [readBitsOnto_eq isRemainder (by decide)]
  simp only [bind_some, skip_skip, Option.pure_def, Option.some.injEq, Prod.mk.injEq]
  constructor
  · apply UInt64.toNat_inj.mp
    have remainderFits : delta % 2 ^ golombRiceP < 2 ^ golombRiceP :=
      Nat.mod_lt _ (Nat.two_pow_pos _)
    have shifted : (UInt64.ofNat (0 + delta / 2 ^ golombRiceP) <<< UInt64.ofNat golombRiceP).toNat =
        (delta / 2 ^ golombRiceP) <<< golombRiceP := by
      rw [Nat.zero_add, UInt64.toNat_shiftLeft, UInt64.toNat_ofNat_of_lt'
        (Nat.lt_of_le_of_lt (Nat.div_le_self _ _) fits)]
      exact Nat.mod_eq_of_lt ((Nat.shiftLeft_eq _ _).trans_lt quotientFits)
    rw [UInt64.toNat_or, shifted, UInt64.toNat_zero, Nat.zero_mul, Nat.zero_add,
      UInt64.toNat_ofNat_of_lt' (remainderFits.trans (by decide)),
      ← Nat.shiftLeft_add_eq_or_of_lt remainderFits, Nat.shiftLeft_eq, Nat.div_add_mod',
      UInt64.toNat_ofNat_of_lt' fits]
  · rw [codeWord, length_append, length_replicate, length_cons, length_bitsOf,
      Nat.add_assoc, Nat.add_comm 1]

/-- A code word that is cut off is no value. -/
theorem readDelta_short (cut : reader.ahead <+: codeWord delta)
    (short : reader.ahead.length < (codeWord delta).length) :
    reader.readDelta golombRiceP = none := by
  have isAhead := prefix_iff_eq_take.mp cut
  rw [codeWord, take_append, length_replicate, take_replicate] at isAhead
  rw [codeWord, length_append, length_replicate, length_cons, length_bitsOf] at short
  rw [readDelta]
  rcases Nat.lt_or_ge (delta / 2 ^ golombRiceP) reader.ahead.length with beyond | inside
  case inr =>
    rw [Nat.sub_eq_zero_of_le inside, take_zero, append_nil] at isAhead
    rw [readUnary_eq_none isAhead]
    rfl
  case inl =>
    obtain ⟨kept, isKept⟩ := Nat.exists_eq_add_of_lt beyond
    have remaining : reader.ahead.length - delta / 2 ^ golombRiceP = kept + 1 := by omega
    rw [Nat.min_eq_right beyond.le, remaining, take_succ_cons] at isAhead
    have enough : delta / 2 ^ golombRiceP < reader.bytes.length * 8 + 1 := by
      have size := reader.length_ahead_le
      omega
    have cutOff : (reader.skip (delta / 2 ^ golombRiceP + 1)).ahead.length < golombRiceP := by
      rw [ahead_skip, length_drop]
      omega
    rw [readUnary_eq isAhead enough]
    simp only [bind_eq_bind, bind_some, readBits]
    rw [readBitsOnto_eq_none cutOff]
    rfl

/-- The zeros that fill the last byte are no value. -/
theorem readDelta_padding {count : Nat} (isAhead : reader.ahead = List.replicate count false)
    (few : count ≤ 8) : reader.readDelta golombRiceP = none := by
  rw [readDelta]
  cases count with
  | zero =>
    rw [readUnary, readBit_eq, isAhead]
    rfl
  | succ count =>
    have isZero : reader.ahead = List.replicate 0 true ++ false :: List.replicate count false :=
      isAhead
    have short : (reader.skip (0 + 1)).ahead.length < golombRiceP := by
      rw [ahead_skip, isAhead, length_drop, length_replicate, Nat.add_sub_add_right]
      exact Nat.lt_of_lt_of_le few (by decide)
    rw [readUnary_eq isZero (Nat.succ_pos _)]
    simp only [bind_eq_bind, bind_some, readBits]
    rw [readBitsOnto_eq_none short]
    rfl

theorem scanFilter_codeWord {value : UInt64} {n : Nat} (least : start ≤ value.toNat)
    (isAhead : reader.ahead = codeWord (value.toNat - start) ++ rest) :
    scanFilter target (n + 1) reader (start - 1) = if value = target then true
      else if target < value then false
      else scanFilter target n (reader.skip (codeWord (value.toNat - start)).length)
        ((value.toNat + 1 : Nat) - 1) := by
  have fits : value.toNat - start < 2 ^ 64 := Nat.lt_of_le_of_lt (Nat.sub_le _ _) value.toNat_lt
  have cursor : (start : Int) - 1 + 1 + ((UInt64.ofNat (value.toNat - start)).toNat : Int) =
      ((value.toNat : Nat) : Int) := by
    rw [UInt64.toNat_ofNat_of_lt' fits]
    omega
  have state : ((value.toNat + 1 : Nat) : Int) - 1 = value.toNat := by omega
  rw [scanFilter, readDelta_eq isAhead fits, state]
  simp only [cursor, ofInt_natCast, UInt64.ofNat_toNat]

theorem scanFilter_eq {n padding : Nat} (sorted : values.Pairwise (· < ·))
    (above : ∀ value ∈ values, start ≤ value.toNat) (enough : values.length ≤ n)
    (few : padding ≤ 8)
    (isAhead : reader.ahead = codeWords start values ++ List.replicate padding false) :
    scanFilter target n reader (start - 1) = decide (target ∈ values) := by
  induction values generalizing start reader n with
  | nil =>
    cases n with
    | zero => rfl
    | succ n =>
      rw [scanFilter, readDelta_padding isAhead few]
      rfl
  | cons value values ih =>
    obtain ⟨n, rfl⟩ := Nat.exists_eq_succ_of_ne_zero (Nat.ne_of_gt (Nat.zero_lt_of_lt enough))
    rw [pairwise_cons] at sorted
    rw [codeWords, append_assoc] at isAhead
    rw [scanFilter_codeWord (above value mem_cons_self) isAhead]
    split_ifs with got passed
    · simp [got]
    · have absent : target ∉ values := fun isLater =>
        UInt64.lt_asymm passed (sorted.1 target isLater)
      simp [absent, Ne.symm got]
    · rw [ih sorted.2 (fun later isLater => UInt64.lt_iff_toNat_lt.mp (sorted.1 later isLater))
        (Nat.le_of_succ_le_succ enough) (by rw [ahead_skip, isAhead, drop_left])]
      simp [Ne.symm got]

/-- The scan finds a value that it can read, whatever the bits behind it. -/
theorem scanFilter_of_mem {n : Nat} (sorted : values.Pairwise (· < ·))
    (above : ∀ value ∈ values, start ≤ value.toNat) (enough : values.length ≤ n)
    (isAhead : reader.ahead = codeWords start values ++ rest) (isKept : target ∈ values) :
    scanFilter target n reader (start - 1) = true := by
  induction values generalizing start reader n with
  | nil => cases isKept
  | cons value values ih =>
    obtain ⟨n, rfl⟩ := Nat.exists_eq_succ_of_ne_zero (Nat.ne_of_gt (Nat.zero_lt_of_lt enough))
    rw [pairwise_cons] at sorted
    rw [codeWords, append_assoc] at isAhead
    rw [scanFilter_codeWord (above value mem_cons_self) isAhead]
    rcases mem_cons.mp isKept with rfl | isLater
    · exact if_pos rfl
    · have larger := sorted.1 target isLater
      rw [if_neg (UInt64.ne_of_lt larger), if_neg (UInt64.lt_asymm larger)]
      exact ih sorted.2 (fun later isLater => UInt64.lt_iff_toNat_lt.mp (sorted.1 later isLater))
        (Nat.le_of_succ_le_succ enough) (by rw [ahead_skip, isAhead, drop_left]) isLater

/-- The scan does not find a value whose code word is cut off. -/
theorem scanFilter_short {before : List UInt64} {n : Nat}
    (sorted : (before ++ [target]).Pairwise (· < ·))
    (above : ∀ value ∈ before ++ [target], start ≤ value.toNat)
    (cut : reader.ahead <+: codeWords start (before ++ [target]))
    (short : reader.ahead.length < (codeWords start (before ++ [target])).length) :
    scanFilter target n reader (start - 1) = false := by
  induction before generalizing start reader n with
  | nil =>
    cases n with
    | zero => rfl
    | succ n =>
      rw [nil_append, codeWords, codeWords, append_nil] at cut short
      rw [scanFilter, readDelta_short cut short]
  | cons value before ih =>
    cases n with
    | zero => rfl
    | succ n =>
      rw [cons_append, codeWords] at cut short
      rcases Nat.lt_or_ge reader.ahead.length (codeWord (value.toNat - start)).length with
        inside | beyond
      · have within := prefix_of_prefix_length_le cut (prefix_append _ _) inside.le
        rw [scanFilter, readDelta_short within inside]
      · obtain ⟨rest, isAhead⟩ := prefix_of_prefix_length_le (prefix_append _ _) cut beyond
        rw [cons_append, pairwise_cons] at sorted
        have larger := sorted.1 target (by simp)
        rw [scanFilter_codeWord (above value (by simp)) isAhead.symm,
          if_neg (UInt64.ne_of_lt larger), if_neg (UInt64.lt_asymm larger)]
        have next : (reader.skip (codeWord (value.toNat - start)).length).ahead = rest := by
          rw [ahead_skip, ← isAhead, drop_left]
        rw [← isAhead] at cut short
        refine ih sorted.2 (fun later isLater =>
          UInt64.lt_iff_toNat_lt.mp (sorted.1 later isLater)) ?_ ?_
        · rw [next]
          exact (prefix_append_right_inj _).mp cut
        · rw [next]
          simpa using short

end

/-- A count that is cut off is an error. -/
theorem decodeCompactSize_short {n : UInt64} {bytes : List UInt8}
    (cut : bytes <+: encodeCompactSize n) (short : bytes.length < (encodeCompactSize n).length) :
    ∃ error, decodeCompactSize bytes = .error error := by
  cases bytes with
  | nil => exact ⟨_, rfl⟩
  | cons head rest =>
    have marked (marker : UInt8) (width : Nat)
        (eq : encodeCompactSize n = marker :: leBytes width n.toNat) (least : Nat) :
        head = marker ∧ markedSize width least (head :: rest) = .error .malformedCompactSize := by
      rw [eq] at cut short
      refine ⟨(cons_prefix_cons.mp cut).1, if_pos ?_⟩
      simpa using short
    by_cases one : n < 253
    · rw [encodeCompactSize, if_pos one, length_cons, length_singleton] at short
      omega
    by_cases two : n < 0x10000
    · obtain ⟨rfl, malformed⟩ := marked 0xFD 2
        (by rw [encodeCompactSize, if_neg one, if_pos two]) 253
      exact ⟨_, malformed⟩
    by_cases four : n < 0x100000000
    · obtain ⟨rfl, malformed⟩ := marked 0xFE 4
        (by rw [encodeCompactSize, if_neg one, if_neg two, if_pos four]) 0x10000
      exact ⟨_, malformed⟩
    · obtain ⟨rfl, malformed⟩ := marked 0xFF 8
        (by rw [encodeCompactSize, if_neg one, if_neg two, if_neg four]) 0x100000000
      exact ⟨_, malformed⟩

theorem decodeCompactSize_encodeCompactSize (n : UInt64) (rest : List UInt8) :
    decodeCompactSize (encodeCompactSize n ++ rest) = .ok (n, (encodeCompactSize n).length) := by
  have marked : ∀ (marker : UInt8) (width least : Nat), least ≤ n.toNat → n.toNat < 256 ^ width →
      markedSize width least (marker :: (leBytes width n.toNat ++ rest)) = .ok (n, width + 1) := by
    intro marker width least canonical fits
    have payload : slice (marker :: (leBytes width n.toNat ++ rest)) 1 width =
        leBytes width n.toNat :=
      take_left' (length_leBytes _ _)
    rw [markedSize, payload, leValue_leBytes fits, if_neg, if_neg (Nat.not_lt.mpr canonical),
      UInt64.ofNat_toNat]
    simp
  rw [encodeCompactSize]
  split_ifs with one two four
  · have small : n.toNat < 253 := UInt64.lt_iff_toNat_lt.mp one
    have head : n.toUInt8.toNat = n.toNat := by
      rw [UInt64.toNat_toUInt8]
      exact Nat.mod_eq_of_lt (small.trans (by decide))
    have isCount : n.toUInt8.toUInt64 = n := by
      apply UInt64.toNat_inj.mp
      rw [UInt8.toNat_toUInt64, head]
    have noMarker : ∀ marker : UInt8, 253 ≤ marker.toNat → n.toUInt8 ≠ marker := by
      rintro _ large rfl
      omega
    simp [decodeCompactSize, byteAt, noMarker, isCount]
  · rw [UInt64.not_lt, UInt64.le_iff_toNat_le] at one
    rw [UInt64.lt_iff_toNat_lt] at two
    simp [decodeCompactSize, byteAt, marked 0xFD 2 253 one two]
  · rw [UInt64.not_lt, UInt64.le_iff_toNat_le] at two
    rw [UInt64.lt_iff_toNat_lt] at four
    simp [decodeCompactSize, byteAt, marked 0xFE 4 0x10000 two four]
  · rw [UInt64.not_lt, UInt64.le_iff_toNat_le] at four
    have fits : n.toNat < 256 ^ 8 := n.toNat_lt
    simp [decodeCompactSize, byteAt, marked 0xFF 8 0x100000000 four fits]

/-- The values a filter holds: in ascending order, each of them once. -/
theorem destutter_insertionSort (mapped : List UInt64) :
    ((mapped.insertionSort (· ≤ ·)).destutter (· ≠ ·)).Pairwise (· < ·) ∧
      ((mapped.insertionSort (· ≤ ·)).destutter (· ≠ ·)).length ≤ mapped.length ∧
      ∀ value, value ∈ (mapped.insertionSort (· ≤ ·)).destutter (· ≠ ·) ↔ value ∈ mapped := by
  have sorted : (mapped.insertionSort (· ≤ ·)).Pairwise (· ≤ ·) := pairwise_insertionSort _ _
  rw [sorted.destutter_eq_dedup]
  have shorter := dedup_sublist (mapped.insertionSort (· ≤ ·))
  refine ⟨?_, ?_, ?_⟩
  · exact ((sorted.sublist shorter).and (nodup_dedup _)).imp fun ordered =>
    UInt64.lt_of_le_of_ne ordered.1 ordered.2
  · exact shorter.length_le.trans_eq (length_insertionSort _ _)
  · intro value
    rw [mem_dedup, mem_insertionSort]

variable (hashers : Hashers) (blockHash : Hash) (items : List (List UInt8))

def heldItems : List (List UInt8) := items.filter fun item => !item.isEmpty

def filterValue (item : List UInt8) : Option UInt64 :=
  mapToRange (hashItem hashers blockHash item) (UInt64.ofNat (heldItems items).length) golombRiceM

def heldValues : List UInt64 := (((heldItems items).filterMap
  (filterValue hashers blockHash items)).insertionSort (· ≤ ·)).destutter (· ≠ ·)

/-- The position of the first script that matches, where a malformed filter is a
miss. -/
def scanBlock (filterBytes : List UInt8) : Nat → List (List UInt8) → Option (Option Nat)
  | _, [] => some none
  | idx, spk :: rest => match filterMatches hashers filterBytes blockHash spk with
    | .ok true => some (some idx)
    | .error .panicked => none
    | _ => scanBlock filterBytes (idx + 1) rest

/-- An item matches a filter when one of the filter's items has its value. -/
def Matches (query : List UInt8) : Prop := query ≠ [] ∧ ∃ item ∈ items, item ≠ [] ∧
    filterValue hashers blockHash items item = filterValue hashers blockHash items query

variable {hashers blockHash items}

theorem bitStream_encodeGr {values : List UInt64} (sorted : values.Pairwise (· < ·)) :
    ∃ padding ≤ 8, bitStream (encodeGr values golombRiceP) =
      codeWords 0 values ++ List.replicate padding false :=
  (@encodeGr_holds _ [] 0 _ sorted (fun _ _ => Nat.zero_le _) (.full rfl)).exists_padding

theorem filterMatches_count {n target : UInt64} {query stream : List UInt8} (some : n ≠ 0)
    (nonempty : query ≠ [])
    (isTarget : mapToRange (hashItem hashers blockHash query) n golombRiceM = .some target) :
    filterMatches hashers (encodeCompactSize n ++ stream) blockHash query =
      .ok (scanFilter target n.toNat (.new stream) (-1)) := by
  have read : raising (decodeCompactSize (encodeCompactSize n ++ stream)) =
      .ok (n, (encodeCompactSize n).length) :=
    raising_eq_ok.mpr (decodeCompactSize_encodeCompactSize n _)
  rw [filterMatches, if_neg (by simpa using nonempty), read]
  simp only [ok_bind, if_neg some, isTarget]
  rw [orPanic_eq_ok.mpr rfl, ok_bind, drop_left]
  rfl

theorem filterMatches_stream {n : UInt64} {values : List UInt64} {query : List UInt8}
    {target : UInt64} (some : n ≠ 0) (nonempty : query ≠ [])
    (isTarget : mapToRange (hashItem hashers blockHash query) n golombRiceM = .some target)
    (sorted : values.Pairwise (· < ·)) (enough : values.length ≤ n.toNat) :
    filterMatches hashers (encodeCompactSize n ++ encodeGr values golombRiceP) blockHash query =
      .ok (decide (target ∈ values)) := by
  obtain ⟨padding, few, isStream⟩ := bitStream_encodeGr sorted
  rw [filterMatches_count some nonempty isTarget]
  exact congrArg _ (@scanFilter_eq _ 0 values target n.toNat _ sorted
    (fun _ _ => Nat.zero_le _) enough few isStream)

theorem buildBasicFilter_answers (few : (heldItems items).length ≤ 2 ^ 45) :
    ∃ filter, buildBasicFilter hashers blockHash items = some filter ∧
      ∀ query, ∃ answer, filterMatches hashers filter blockHash query = .ok answer ∧
        (answer = true ↔ Matches hashers blockHash items query) := by
  have isCount : (UInt64.ofNat (heldItems items).length).toNat = (heldItems items).length :=
    UInt64.toNat_ofNat_of_lt' (lt_of_le_of_lt few (by decide))
  choose value isValue using fun item => isSome_iff_exists.mp
    (mapToRange_isSome (isCount.trans_le few) (hashItem hashers blockHash item))
  have held : ∀ item, item ∈ heldItems items ↔ item ∈ items ∧ item ≠ [] := by simp [heldItems]
  have empty : ∀ filter, filterMatches hashers filter blockHash [] = .ok false := fun _ => rfl
  by_cases none : UInt64.ofNat (heldItems items).length = 0
  · refine ⟨encodeCompactSize 0, if_pos none, fun query => ⟨false, ?_, ?_⟩⟩
    · cases query with
      | nil => exact empty _
      | cons head tail => rfl
    · have noItems := eq_nil_of_length_eq_zero (isCount.symm.trans (congrArg _ none))
      refine iff_of_false Bool.false_ne_true ?_
      rintro ⟨-, item, isItem, nonempty, -⟩
      have inFilter := (held item).mpr ⟨isItem, nonempty⟩
      rw [noItems] at inFilter
      cases inFilter
  · have mapped : (heldItems items).mapM (filterValue hashers blockHash items) =
        some ((heldItems items).map value) := by
      rw [show filterValue hashers blockHash items = fun item => pure (value item) from
        funext isValue]
      exact mapM_pure
    obtain ⟨sorted, shorter, holds⟩ := destutter_insertionSort ((heldItems items).map value)
    rw [length_map, ← isCount] at shorter
    refine ⟨_, (if_neg none).trans (congrArg (· >>= _) mapped), fun query => ?_⟩
    by_cases nonempty : query = []
    · exact ⟨false, nonempty ▸ empty _, iff_of_false Bool.false_ne_true fun got => got.1 nonempty⟩
    · refine ⟨_, filterMatches_stream none nonempty (isValue query) sorted shorter, ?_⟩
      have sameValue : ∀ item, filterValue hashers blockHash items item =
          filterValue hashers blockHash items query ↔ value item = value query := by
        intro item
        rw [filterValue, filterValue, isValue, isValue, Option.some.injEq]
      simp [holds, Matches, nonempty, sameValue, held, and_assoc]

theorem filterMatches_exact (hashers : Hashers) (blockHash : Hash) (items : List (List UInt8))
    (few : (heldItems items).length ≤ 2 ^ 45) :
    ∃ filter, buildBasicFilter hashers blockHash items = some filter ∧
      (∀ query, Matches hashers blockHash items query →
        filterMatches hashers filter blockHash query = .ok true) ∧
      (∀ query, ¬Matches hashers blockHash items query →
        filterMatches hashers filter blockHash query = .ok false) ∧
      ∀ item ∈ items, item ≠ [] → filterMatches hashers filter blockHash item = .ok true := by
  obtain ⟨filter, built, answers⟩ := @buildBasicFilter_answers hashers blockHash items few
  have got : ∀ query, Matches hashers blockHash items query →
      filterMatches hashers filter blockHash query = .ok true := by
    intro query isMatch
    obtain ⟨answer, answered, exact⟩ := answers query
    rw [answered, exact.mpr isMatch]
  refine ⟨filter, built, got, fun query noMatch => ?_, fun item isItem nonempty => ?_⟩
  · obtain ⟨answer, answered, exact⟩ := answers query
    rw [answered, Bool.eq_false_iff.mpr fun isTrue => noMatch (exact.mp isTrue)]
  · exact got item ⟨nonempty, item, isItem, nonempty, rfl⟩

/-- Three scripts and an empty one, one script twice, under hashes that are all
equal. -/
theorem filterMatches_repeatedScripts : (heldItems [[1, 2], [], [3], [1, 2]]).length ≤ 2 ^ 45 ∧
    ∃ filter, buildBasicFilter .zero zeroHash [[1, 2], [], [3], [1, 2]] = some filter ∧
      filterMatches .zero filter zeroHash [3] = .ok true := by
  refine ⟨by decide, ?_⟩
  obtain ⟨filter, built, -, -, held⟩ :=
    filterMatches_exact .zero zeroHash [[1, 2], [], [3], [1, 2]] (by decide)
  exact ⟨filter, built, held [3] (by decide) (by decide)⟩

/-- Hashes whose first eight bytes are the largest number. -/
def largestHashers : Hashers := { Hashers.zero with sha3 := fun _ => FixedBytes.replicate 48 255 }

/-- One item more than fits makes the product of 128 bits overflow. -/
theorem tooManyItems_abort :
    buildBasicFilter largestHashers zeroHash (List.replicate (2 ^ 45 + 1) [1]) = none := by
  have kept : (List.replicate (2 ^ 45 + 1) [(1 : UInt8)]).filter (fun item => !item.isEmpty) =
      List.replicate (2 ^ 45 + 1) [1] :=
    filter_eq_self.mpr fun item isItem => by rw [eq_of_mem_replicate isItem]; rfl
  have raw : hashItem largestHashers zeroHash [1] = 0xFFFFFFFFFFFFFFFF := by decide
  have overflow : mapToRange 0xFFFFFFFFFFFFFFFF (ofNat (2 ^ 45 + 1)) golombRiceM = none := by
    decide
  rw [buildBasicFilter, kept, length_replicate, if_neg (by decide), replicate_succ,
    mapM_cons, raw, overflow]
  rfl

theorem filterMap_of_mapM {α β : Type} {f : α → Option β} {xs : List α} {ys : List β}
    (mapped : xs.mapM f = some ys) : xs.filterMap f = ys := by
  induction xs generalizing ys with
  | nil =>
    cases mapped
    rfl
  | cons x xs ih =>
    simp only [mapM_cons, bind_eq_bind, bind_eq_some_iff] at mapped
    obtain ⟨y, isY, later, isLater, eq⟩ := mapped
    cases eq
    rw [filterMap_cons_some isY, ih isLater]

theorem codeWords_append_left (start : Nat) (values later : List UInt64) :
    codeWords start values <+: codeWords start (values ++ later) := by
  induction values generalizing start with
  | nil => exact nil_prefix
  | cons value values ih => exact (prefix_append_right_inj _).mpr (ih _)

theorem scanBlock_ne_none {item damaged : List UInt8} {spks : List (List UInt8)}
    (isOwn : item ∈ spks) (got : filterMatches hashers damaged blockHash item = .ok true)
    (idx : Nat) : scanBlock hashers blockHash damaged idx spks ≠ some none := by
  induction spks generalizing idx with
  | nil => cases isOwn
  | cons spk rest ih =>
    rw [scanBlock]
    split
    · nofun
    · nofun
    · rename_i missed _
      rcases mem_cons.mp isOwn with rfl | isLater
      · exact absurd got missed
      · exact ih isLater (idx + 1)

theorem eq_of_buildBasicFilter {filter : List UInt8}
    (inhabited : UInt64.ofNat (heldItems items).length ≠ 0)
    (built : buildBasicFilter hashers blockHash items = some filter) :
    filter = encodeCompactSize (UInt64.ofNat (heldItems items).length) ++
      encodeGr (heldValues hashers blockHash items) golombRiceP := by
  obtain ⟨mapped, isMapped, eq⟩ := bind_eq_some_iff.mp ((if_neg inhabited).symm.trans built)
  cases eq
  rw [← filterMap_of_mapM isMapped]
  rfl

/-- A prefix of a filter keeps the count and the code words up to a value. -/
def Keeps (hashers : Hashers) (blockHash : Hash) (items : List (List UInt8))
    (damaged : List UInt8) (value : UInt64) : Prop :=
  8 * (encodeCompactSize (UInt64.ofNat (heldItems items).length)).length +
    (codeWords 0 ((heldValues hashers blockHash items).takeWhile (· < value) ++ [value])).length ≤
      8 * damaged.length

theorem takeWhile_lt_of_sorted {before after : List UInt64} {value : UInt64}
    (sorted : (before ++ value :: after).Pairwise (· < ·)) :
    (before ++ value :: after).takeWhile (· < value) = before := by
  obtain ⟨-, -, ordered⟩ := pairwise_append.mp sorted
  rw [takeWhile_append_of_pos fun earlier isEarlier =>
    decide_eq_true (ordered earlier isEarlier value mem_cons_self)]
  simp

/-- The answer on a prefix of a filter: a cut count is an error, a cut code word
is an absence. -/
theorem filterMatches_of_prefix {n target : UInt64} {before after : List UInt64}
    {query damaged : List UInt8} (some : n ≠ 0) (nonempty : query ≠ [])
    (isTarget : mapToRange (hashItem hashers blockHash query) n golombRiceM = .some target)
    (sorted : (before ++ target :: after).Pairwise (· < ·))
    (enough : (before ++ target :: after).length ≤ n.toNat)
    (cut : damaged <+: encodeCompactSize n ++ encodeGr (before ++ target :: after) golombRiceP) :
    if 8 * (encodeCompactSize n).length + (codeWords 0 (before ++ [target])).length ≤
        8 * damaged.length then
      filterMatches hashers damaged blockHash query = .ok true
    else
      filterMatches hashers damaged blockHash query = .ok false ∨
        ∃ error, filterMatches hashers damaged blockHash query = .error (.raised error) := by
  obtain ⟨padding, -, isStream⟩ := bitStream_encodeGr sorted
  rw [append_cons] at sorted enough isStream cut
  have part := sublist_append_left (before ++ [target]) after
  rcases Nat.lt_or_ge damaged.length (encodeCompactSize n).length with short | counted
  · rw [if_neg (by omega)]
    obtain ⟨error, failed⟩ := decodeCompactSize_short
      (prefix_of_prefix_length_le cut (prefix_append _ _) short.le) short
    refine .inr ⟨error, ?_⟩
    rw [filterMatches, if_neg (by simpa using nonempty), failed]
    rfl
  · obtain ⟨stream, rfl⟩ := prefix_of_prefix_length_le (prefix_append _ _) cut counted
    obtain ⟨lost, isWhole⟩ := (prefix_append_right_inj _).mp cut
    have kept := (codeWords_append_left 0 (before ++ [target]) after).trans
      (prefix_append _ (List.replicate padding false))
    have read : bitStream stream <+: bitStream (stream ++ lost) := by
      rw [bitStream, bitStream, map_append, stream_append]
      exact prefix_append _ _
    have size : (bitStream stream).length = 8 * stream.length := by
      rw [bitStream, length_stream, length_map, Nat.mul_comm]
    rw [← isStream, ← isWhole] at kept
    rw [filterMatches_count some nonempty isTarget, length_append]
    split
    · obtain ⟨rest, isAhead⟩ := prefix_of_prefix_length_le kept read (by omega)
      exact congrArg _ (@scanFilter_of_mem (.new stream) 0 _ rest target _ (sorted.sublist part)
        (fun _ _ => Nat.zero_le _) (part.length_le.trans enough) isAhead.symm (by simp))
    · have within := prefix_of_prefix_length_le read kept (by omega)
      exact .inl (congrArg _ (@scanFilter_short (.new stream) 0 target before _
        (sorted.sublist part) (fun _ _ => Nat.zero_le _) within
        (lt_of_eq_of_lt size (by omega))))

/-- A prefix of a filter is no absence of an item of the filter, and a block is
not skipped, exactly when the prefix keeps the code words up to the item. -/
theorem filterMatches_truncated (hashers : Hashers) (blockHash : Hash) (items : List (List UInt8))
    (filter damaged item : List UInt8) (value : UInt64)
    (fits : (heldItems items).length < 2 ^ 64)
    (built : buildBasicFilter hashers blockHash items = some filter) (cut : damaged <+: filter)
    (nonempty : item ≠ []) (isValue : filterValue hashers blockHash items item = some value)
    (isHeld : value ∈ heldValues hashers blockHash items) :
    (filterMatches hashers damaged blockHash item ≠ .ok false ∧
      ∀ spks, item ∈ spks → scanBlock hashers blockHash damaged 0 spks ≠ some none) ↔
      Keeps hashers blockHash items damaged value := by
  have isCount : (UInt64.ofNat (heldItems items).length).toNat = (heldItems items).length :=
    UInt64.toNat_ofNat_of_lt' fits
  have inhabited : UInt64.ofNat (heldItems items).length ≠ 0 := by
    intro none
    have noItems := eq_nil_of_length_eq_zero (isCount.symm.trans (congrArg _ none))
    simp [heldValues, noItems] at isHeld
  rw [eq_of_buildBasicFilter inhabited built] at cut
  obtain ⟨sorted, shorter, -⟩ := destutter_insertionSort
    ((heldItems items).filterMap (filterValue hashers blockHash items))
  have enough := (shorter.trans (length_filterMap_le _ _)).trans_eq isCount.symm
  rw [← heldValues] at sorted enough
  obtain ⟨before, after, split⟩ := append_of_mem isHeld
  rw [Keeps, split]
  rw [split] at sorted enough cut
  rw [takeWhile_lt_of_sorted sorted]
  have answer := filterMatches_of_prefix inhabited nonempty isValue sorted enough cut
  split at answer
  · rename_i kept
    refine iff_of_true ⟨by rw [answer]; simp, fun spks isOwn => ?_⟩ kept
    exact scanBlock_ne_none isOwn answer 0
  · rename_i lost
    refine iff_of_false (fun ⟨found, scanned⟩ => ?_) lost
    rcases answer with absent | ⟨error, failed⟩
    · exact found absent
    · refine scanned [item] mem_cons_self ?_
      rw [scanBlock, failed]
      rfl

/-- The first bytes of an item are its hash. -/
def plainHashers : Hashers :=
  { Hashers.zero with sha3 := fun bytes => FixedBytes.ofPrefix 48 (bytes.drop 45) }

/-- The filter of two items without its last two bytes: the first item is kept. -/
theorem cutFilter_matches :
    filterMatches plainHashers [2, 7, 0, 0] zeroHash [7] ≠ .ok false :=
  ((filterMatches_truncated plainHashers zeroHash [[7], [9]] [2, 7, 0, 0, 31, 255]
    [2, 7, 0, 0] [7] 28672 (by decide) (by decide +kernel) (by decide) nofun
    (by decide +kernel) (by decide +kernel)).mpr (by unfold Keeps; decide +kernel)).1

/-- Only the count of the filter of one item is left: the item is reported absent,
and the block is skipped. -/
theorem truncatedFilter_misses : buildBasicFilter .zero zeroHash [[7]] = some [1, 0, 0, 0] ∧
    filterMatches .zero [1] zeroHash [7] = .ok false ∧
    scanBlock .zero zeroHash [1] 0 [[7]] = some none := by
  decide +kernel

end Sophis
