import Sophis.ExceptLoop
import Sophis.Transaction

namespace Sophis

open ByteCodec ExceptLoop

/-!
# Address lookup table scripts

The two script formats of `consensus/core/src/alt/mod.rs`: a creation script
declares a table of script public keys under a content-derived handle, and an
eight-byte reference script names one entry of a table.
-/

def altDiscriminatorReference : UInt8 := 0xFD

def altDiscriminatorCreation : UInt8 := 0xFE

/-- The bytes `SPHS-AL1`. -/
def altMagic : List UInt8 := [0x53, 0x50, 0x48, 0x53, 0x2D, 0x41, 0x4C, 0x31]

def altHeaderLen : Nat := 22

def altHandleLen : Nat := 6

def altReferenceLen : Nat := 8

def maxAltEntries : UInt16 := 256

def maxAltEntryScriptBytes : UInt16 := 4096

def maxAltCreationsPerTx : Nat := 4

def maxAltCreationsPerBlock : Nat := 16

/-- The content-derived name of a table. -/
abbrev AltHandle := FixedBytes altHandleLen

/-- The header of a script that creates a lookup table. -/
structure AltCreationHeader where
  flags : UInt8
  entryCount : UInt16
  payloadLen : UInt32
  handle : AltHandle
  deriving Repr, DecidableEq

/-- A script that stands for one entry of a table. -/
structure AltReference where
  handle : AltHandle
  index : UInt8
  deriving Repr, DecidableEq

/-- The version and the script of an entry. -/
structure AltEntryView where
  spkVersion : UInt16
  spkScript : List UInt8
  deriving Repr, DecidableEq

/-- Why a creation script is malformed. -/
inductive AltCreationError where
  | headerTruncated (actual : Nat)
  | badMagic
  | reservedNonZero (byte : UInt8)
  | reservedFlagBitSet (flags : UInt8)
  | badEntryCount (count : UInt16)
  | lengthMismatch (actual expected : Nat)
  | entriesLenMismatch (decoded : Nat) (expected : UInt32)
  | entryBadSpkVersion (entry version : UInt16)
  | entryScriptTooLarge (entry len : UInt16)
  | handleMismatch (declared computed : AltHandle)
  deriving Repr, DecidableEq

def AltCreationError.message : AltCreationError → String
  | .headerTruncated actual =>
    s!"ALT-creation script is {actual} bytes, below header minimum of {altHeaderLen}"
  | .badMagic => "ALT-creation magic prefix mismatch (expected SPHS-AL1)"
  | .reservedNonZero byte =>
    s!"ALT-creation reserved byte at offset 10 must be 0, got 0x{hex [byte]}"
  | .reservedFlagBitSet flags =>
    s!"ALT-creation flag byte 0x{hex [flags]} has reserved bit(s) set; all flag bits are reserved in v1"
  | .badEntryCount count => s!"ALT-creation entry_count={count} is outside [1, {maxAltEntries}]"
  | .lengthMismatch actual expected =>
    s!"ALT-creation script length is {actual}, expected {expected} (header + payload_len)"
  | .entriesLenMismatch decoded expected =>
    s!"ALT-creation entries section decoded {decoded} bytes, expected payload_len={expected}"
  | .entryBadSpkVersion entry version =>
    s!"ALT entry {entry} declares spk_version={version} which is above MAX_SCRIPT_PUBLIC_KEY_VERSION"
  | .entryScriptTooLarge entry len =>
    s!"ALT entry {entry} declares spk_len={len} above MAX_ALT_ENTRY_SCRIPT_BYTES={maxAltEntryScriptBytes}"
  | .handleMismatch declared computed =>
    s!"ALT-creation handle mismatch: declared={hex declared.bytes} computed={hex computed.bytes}"

/-- Why a reference is malformed. -/
inductive AltReferenceError where
  | badLength (actual : Nat)
  deriving Repr, DecidableEq

def AltReferenceError.message : AltReferenceError → String
  | .badLength actual =>
    s!"ALT reference script length is {actual}, expected exactly {altReferenceLen}"

/-- The two kinds of lookup table scripts. -/
inductive AltScriptKind where
  | reference
  | creation
  deriving Repr, DecidableEq

/-- The first byte decides whether a script is a lookup table script. -/
def classifyAltScript (script : List UInt8) : Option AltScriptKind := match script.head? with
  | none => none
  | some first =>
    if first = altDiscriminatorReference then some .reference
    else if first = altDiscriminatorCreation then some .creation
    else none

/-- A zero count byte stands for the largest table. -/
def decodeEntryCount (byte : UInt8) : UInt16 := if byte = 0 then maxAltEntries else byte.toUInt16

/-- The handle derived from the entries of a creation script. -/
def hashCanonicalPayload (hashers : Hashers) (script : List UInt8) : AltHandle :=
  FixedBytes.ofPrefix altHandleLen (hashers.sha3 (script.drop altHeaderLen)).bytes

def saturatingSucc (count : UInt16) : UInt16 := if count = 0xFFFF then count else count + 1

/-- Walks the entries of a creation script and returns the number of bytes and
entries decoded. The fuel bounds the number of entries; every entry takes at
least four bytes, so the length of the section is always enough. -/
def scanAltEntries (payloadLen : UInt32) : Nat → List UInt8 → Nat → UInt16 →
    Except AltCreationError (Nat × UInt16)
  | 0, _, cursor, decoded => .ok (cursor, decoded)
  | fuel + 1, rest, cursor, decoded =>
    if rest = [] then
      .ok (cursor, decoded)
    else do
      reject (rest.length < 4) (.entriesLenMismatch cursor payloadLen)
      let spkVersion := u16At rest 0
      let spkLen := u16At rest 2
      reject (spkVersion > maxScriptPublicKeyVersion) (.entryBadSpkVersion decoded spkVersion)
      reject (spkLen > maxAltEntryScriptBytes) (.entryScriptTooLarge decoded spkLen)
      let entryTotal := 4 + spkLen.toNat
      reject (rest.length < entryTotal) (.entriesLenMismatch cursor payloadLen)
      scanAltEntries payloadLen fuel (rest.drop entryTotal)
        (cursor + entryTotal) (saturatingSucc decoded)

def parseAltCreationHeader (hashers : Hashers) (script : List UInt8) :
    Except AltCreationError AltCreationHeader := do
  reject (script.length < altHeaderLen) (.headerTruncated script.length)
  reject (byteAt script 0 ≠ altDiscriminatorCreation) .badMagic
  reject (slice script 1 8 ≠ altMagic) .badMagic
  let flags := byteAt script 9
  reject (flags ≠ 0) (.reservedFlagBitSet flags)
  reject (byteAt script 10 ≠ 0) (.reservedNonZero (byteAt script 10))
  let entryCount := decodeEntryCount (byteAt script 11)
  reject (entryCount = 0 ∨ entryCount > maxAltEntries) (.badEntryCount entryCount)
  let payloadLen := u32At script 12
  let expectedLen := altHeaderLen + payloadLen.toNat
  reject (script.length ≠ expectedLen) (.lengthMismatch script.length expectedLen)
  let handle : AltHandle := FixedBytes.ofPrefix altHandleLen (script.drop 16)
  let entriesSection := script.drop altHeaderLen
  let (cursor, decodedEntries) ← scanAltEntries payloadLen entriesSection.length entriesSection 0 0
  reject (cursor ≠ payloadLen.toNat ∨ decodedEntries ≠ entryCount)
    (.entriesLenMismatch cursor payloadLen)
  let computed := hashCanonicalPayload hashers script
  reject (handle ≠ computed) (.handleMismatch handle computed)
  return { flags, entryCount, payloadLen, handle }

def parseAltReference (script : List UInt8) : Except AltReferenceError AltReference := do
  reject (script.length ≠ altReferenceLen) (.badLength script.length)
  return {
    handle := FixedBytes.ofPrefix altHandleLen (script.drop 1)
    index := byteAt script (1 + altHandleLen)
  }

/-- Reads the entries that follow the header. An entry that runs past the end
of the section aborts. -/
def altEntriesFrom : Nat → List UInt8 → Option (List AltEntryView)
  | 0, _ => some []
  | fuel + 1, rest =>
    if rest.length < 4 then
      some []
    else
      let spkLen := (u16At rest 2).toNat
      if rest.length < 4 + spkLen then
        none
      else do
        let tail ← altEntriesFrom fuel (rest.drop (4 + spkLen))
        return {
          spkVersion := u16At rest 0
          spkScript := slice rest 4 spkLen
        } :: tail

def iterAltEntries (script : List UInt8) : Option (List AltEntryView) :=
  altEntriesFrom (script.drop altHeaderLen).length (script.drop altHeaderLen)

end Sophis
