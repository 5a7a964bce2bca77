import Mathlib.Data.List.Destutter
import Sophis.Transaction

namespace Sophis

open ByteCodec

/-!
# Compact block filters

`wallet/filters/src`: the items of a block are hashed into a range, sorted, and
the differences of neighbours are written in a Golomb-Rice code. A filter
header hashes the filter onto the header before it.
-/

def encodeCompactSize (n : UInt64) : List UInt8 :=
  if n < 253 then
    [n.toUInt8]
  else if n < 0x10000 then
    0xFD :: leBytes 2 n.toNat
  else if n < 0x100000000 then
    0xFE :: leBytes 4 n.toNat
  else
    0xFF :: leBytes 8 n.toNat

/-- A stream of bits, the most significant bit of each byte first. -/
structure BitWriter where
  out : List UInt8
  bitsInLast : UInt8
  deriving Repr, DecidableEq

namespace BitWriter

def new : BitWriter := ⟨[], 8⟩

def writeBit (writer : BitWriter) (bit : UInt8) : BitWriter :=
  let opened : BitWriter :=
    if writer.bitsInLast = 8 then ⟨writer.out ++ [0], 0⟩ else writer
  { out := opened.out.modifyLast fun last => last ||| ((bit &&& 1) <<< (7 - opened.bitsInLast))
    bitsInLast := opened.bitsInLast + 1 }

def writeBits (writer : BitWriter) (value : UInt64) (nbits : Nat) : BitWriter :=
  (List.range nbits).reverse.foldl (fun current i =>
      current.writeBit ((value >>> UInt64.ofNat i) &&& 1).toUInt8)
    writer

end BitWriter

/-- One value: the distance from the value before it, its quotient in unary and
its remainder in `p` bits. -/
def encodeGrValue (p : Nat) (state : BitWriter × Int) (value : UInt64) : BitWriter × Int :=
  let delta := UInt64.ofInt (value.toNat - state.2 - 1)
  let quotient := delta >>> UInt64.ofNat p
  let unary := (List.replicate quotient.toNat 1).foldl BitWriter.writeBit state.1
  let remainder := delta &&& ((1 <<< UInt64.ofNat p) - 1)
  ((unary.writeBit 0).writeBits remainder p, value.toNat)

def encodeGr (values : List UInt64) (p : Nat) : List UInt8 :=
  (values.foldl (encodeGrValue p) (.new, -1)).1.out

/-- `sophis-cf-v1` and a zero byte. -/
def filterDomainSeparator : List UInt8 :=
  [115, 111, 112, 104, 105, 115, 45, 99, 102, 45, 118, 49, 0]

def golombRiceP : Nat := 19

def golombRiceM : UInt64 := (1 : UInt64) <<< 19

/-- The value in the range. The product of 128 bits aborts on overflow. -/
def mapToRange (raw n m : UInt64) : Option UInt64 :=
  let range := min (n.toNat * m.toNat) (2 ^ 128 - 1)
  if raw.toNat * range < 2 ^ 128 then
    some (UInt64.ofNat (raw.toNat * range / 2 ^ 64))
  else
    none

variable (hashers : Hashers)

/-- The first eight bytes of the hash of an item, the most significant one
first. -/
def hashItem (blockHash : Hash) (item : List UInt8) : UInt64 := UInt64.ofNat (leValue ((hashers.sha3
    (filterDomainSeparator ++ blockHash.bytes ++ item)).bytes.take 8).reverse)

/-- The filter of the non-empty items. The count is taken before equal values
are removed. -/
def buildBasicFilter (blockHash : Hash) (items : List (List UInt8)) : Option (List UInt8) :=
  let nonempty := items.filter fun item => !item.isEmpty
  let n := UInt64.ofNat nonempty.length
  if n = 0 then
    some (encodeCompactSize 0)
  else do
    let mapped ← nonempty.mapM fun item =>
      mapToRange (hashItem hashers blockHash item) n golombRiceM
    let values := (mapped.insertionSort (· ≤ ·)).destutter (· ≠ ·)
    return encodeCompactSize n ++ encodeGr values golombRiceP

def filterHash (filterBytes : List UInt8) : FixedBytes 32 :=
  .ofPrefix 32 (hashers.sha3 filterBytes).bytes

def buildFilterHeader (prevHeader currentFilterHash : FixedBytes 32) : FixedBytes 32 := .ofPrefix 32
    (hashers.sha3 (prevHeader.bytes ++ currentFilterHash.bytes)).bytes

variable {hashers}

theorem mapToRange_isSome {n : UInt64} (few : n.toNat ≤ 2 ^ 45) (raw : UInt64) :
    (mapToRange raw n golombRiceM).isSome = true := by
  have range : n.toNat * golombRiceM.toNat ≤ 2 ^ 64 := calc n.toNat * golombRiceM.toNat
        ≤ 2 ^ 45 * golombRiceM.toNat := Nat.mul_le_mul_right _ few
      _ = 2 ^ 64 := rfl
  have small : raw.toNat * min (n.toNat * golombRiceM.toNat) (2 ^ 128 - 1) < 2 ^ 128 :=
    calc raw.toNat * min (n.toNat * golombRiceM.toNat) (2 ^ 128 - 1) ≤ raw.toNat * 2 ^ 64 :=
        Nat.mul_le_mul_left _ ((Nat.min_le_left _ _).trans range)
      _ < 2 ^ 64 * 2 ^ 64 := Nat.mul_lt_mul_of_pos_right raw.toNat_lt (by decide)
      _ = 2 ^ 128 := by decide
  rw [mapToRange, if_pos small]
  rfl

end Sophis
