import Sophis.ExceptLoop
import Sophis.Transaction

namespace Sophis

open ByteCodec ExceptLoop

/-!
# Data availability carrier scripts

The header rules of `consensus/core/src/da/mod.rs`. A carrier script is a
64-byte header followed by opaque data; the header names the bundle the data
belongs to and the position of this fragment in it.
-/

/-- The bytes `SPHS-DA1`. -/
def carrierMagic : List UInt8 := [0x53, 0x50, 0x48, 0x53, 0x2D, 0x44, 0x41, 0x31]

def carrierHeaderLen : Nat := 64

def maxFragments : UInt8 := 32

def maxDataPerCarrier : UInt32 := 65536

def maxCarrierOutputsPerTx : Nat := 8

def carrierFlagFragmented : UInt8 := 0x01

def carrierFlagLast : UInt8 := 0x02

def reservedFlagMask : UInt8 := 0x8C

/-- The rollup, oracle and user domain bits. -/
def domainFlagMask : UInt8 := 0x70

/-- The fixed part of a carrier script. -/
structure CarrierHeader where
  flags : UInt8
  fragmentCount : UInt8
  fragmentIndex : UInt8
  dataLen : UInt32
  bundleId : Sha3Digest
  deriving Repr, DecidableEq

/-- Why a carrier script is malformed. -/
inductive CarrierError where
  | headerTruncated (actual : Nat)
  | badMagic
  | reserved1NonZero (byte : UInt8)
  | reservedFlagBitSet (flags : UInt8)
  | multipleDomainFlags (flags : UInt8)
  | badFragmentCount (count : UInt8)
  | fragmentIndexOutOfRange (index count : UInt8)
  | fragmentedFlagMismatch (flagSet : Bool) (count : UInt8)
  | lastFlagMismatch (flagSet : Bool) (index count : UInt8)
  | dataTooLarge (dataLen : UInt32)
  | lengthMismatch (actual expected : Nat)
  deriving Repr, DecidableEq

def CarrierError.message : CarrierError → String
  | .headerTruncated actual =>
    s!"carrier script is {actual} bytes, below header minimum of {carrierHeaderLen}"
  | .badMagic => "carrier magic prefix mismatch (expected SPHS-DA1)"
  | .reserved1NonZero byte => s!"carrier reserved byte at offset 9 must be 0, got 0x{hex [byte]}"
  | .reservedFlagBitSet flags =>
    s!"carrier flags 0x{hex [flags]} have a reserved bit set (mask 0x{hex [reservedFlagMask]})"
  | .multipleDomainFlags flags =>
    s!"carrier flags 0x{hex [flags]} have more than one domain bit set"
  | .badFragmentCount count => s!"carrier fragment_count={count} is outside [1, {maxFragments}]"
  | .fragmentIndexOutOfRange index count =>
    s!"carrier fragment_index={index} is not in [0, {count})"
  | .fragmentedFlagMismatch flagSet count =>
    s!"carrier FRAGMENTED flag is {flagSet} but fragment_count={count} (must be set iff count > 1)"
  | .lastFlagMismatch flagSet index count =>
    s!"carrier LAST flag is {flagSet} for fragment_index={index} of {count} (must be set iff index == count - 1)"
  | .dataTooLarge dataLen =>
    s!"carrier data_len={dataLen} exceeds MAX_DATA_PER_CARRIER={maxDataPerCarrier}"
  | .lengthMismatch actual expected =>
    s!"carrier script length is {actual}, expected {expected} (header + data_len)"

def singleDomain (flags : UInt8) : Bool := [0, 0x10, 0x20, 0x40].contains (flags &&& domainFlagMask)

def parseCarrierHeader (script : List UInt8) : Except CarrierError CarrierHeader := do
  reject (script.length < carrierHeaderLen) (.headerTruncated script.length)
  reject (slice script 0 8 ≠ carrierMagic) .badMagic
  let flags := byteAt script 8
  reject (byteAt script 9 ≠ 0) (.reserved1NonZero (byteAt script 9))
  reject (flags &&& reservedFlagMask ≠ 0) (.reservedFlagBitSet flags)
  reject (singleDomain flags = false) (.multipleDomainFlags flags)
  let fragmentCount := byteAt script 10
  let fragmentIndex := byteAt script 11
  reject (fragmentCount = 0 ∨ fragmentCount > maxFragments) (.badFragmentCount fragmentCount)
  reject (fragmentIndex ≥ fragmentCount) (.fragmentIndexOutOfRange fragmentIndex fragmentCount)
  let fragFlagSet : Bool := flags &&& carrierFlagFragmented ≠ 0
  reject (fragFlagSet ≠ decide (fragmentCount > 1))
    (.fragmentedFlagMismatch fragFlagSet fragmentCount)
  let lastFlagSet : Bool := flags &&& carrierFlagLast ≠ 0
  reject (lastFlagSet ≠ decide (fragmentIndex = fragmentCount - 1))
    (.lastFlagMismatch lastFlagSet fragmentIndex fragmentCount)
  let dataLen := u32At script 12
  reject (dataLen > maxDataPerCarrier) (.dataTooLarge dataLen)
  let expectedLen := carrierHeaderLen + dataLen.toNat
  reject (script.length ≠ expectedLen) (.lengthMismatch script.length expectedLen)
  return {
    flags
    fragmentCount
    fragmentIndex
    dataLen
    bundleId := FixedBytes.ofPrefix 48 (script.drop 16)
  }

end Sophis
