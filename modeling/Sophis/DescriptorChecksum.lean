import Sophis.ExceptLoop

namespace Sophis

open List

/-!
# Checksums of descriptors

`wallet/descriptors/src/checksum.rs` and the reference algorithm it ports.
-/

namespace DescriptorChecksum

def checksumLength : Nat := 8

def inputCharset : String :=
  "0123456789()[],'/*abcdefgh@:$%\x7b\x7dIJKLMNOPQRSTUVWXYZ&+-.;<=>?!^_|~ijklmnopqrstuvwxyzABCDEFGH`#\"\\ "

def checksumCharset : String := "qpzry9x8gf2tvdw0s3jn54khce6mua7l"

def generators : List UInt64 :=
  [0xf5dee51989, 0xa9fdca3312, 0x1bab10e32d, 0x3706b1677a, 0x644d626ffd]

/-- Why a checksum is refused. -/
inductive ChecksumError where
  | invalidChar (c : Char)
  | invalidLength (length : Nat)
  | mismatch
  deriving Repr, DecidableEq

def polymodStep (chk value : UInt64) : UInt64 :=
  let top := chk >>> 35
  generators.zipIdx.foldl
    (fun current item =>
      if (top >>> UInt64.ofNat item.2) &&& 1 ≠ 0 then current ^^^ item.1 else current)
    (((chk &&& 0x7ffffffff) <<< 5) ^^^ value)

def bodyToSymbols (body : String) : Except ChecksumError (List UInt8) :=
  body.toList.mapM fun c =>
    match inputCharset.toList.findIdx? (· = c) with
    | some position => .ok (UInt8.ofNat position)
    | none => .error (.invalidChar c)

def render (chk : UInt64) : String :=
  String.ofList ((List.range checksumLength).map fun i =>
    checksumCharset.toList.getD
      ((chk >>> UInt64.ofNat (5 * (checksumLength - 1 - i))) &&& 31).toNat 'q')

/-- The polymod of some values and of the padding, rendered. -/
def finish (values : List UInt64) : String :=
  render ((values ++ replicate checksumLength 0).foldl polymodStep 1 ^^^ 1)

def low (s : UInt8) : UInt64 := (s &&& 31).toUInt64

def high (s : UInt8) : UInt64 := (s >>> 5).toUInt64

/-- Feeds the low parts of all symbols and then their high parts. -/
def create (body : String) : Except ChecksumError String := do
  let symbols ← bodyToSymbols body
  return finish (symbols.map low ++ symbols.map high)

/-- The values of the reference algorithm: after each group of three symbols one
value collects their high parts. -/
def expand : List UInt8 → List UInt64
  | first :: second :: third :: rest =>
    [low first, low second, low third, high first * 9 + high second * 3 + high third] ++ expand rest
  | [first, second] => [low first, low second, high first * 3 + high second]
  | [first] => [low first, high first]
  | [] => []

def reference (body : String) : Except ChecksumError String := do
  return finish (expand (← bodyToSymbols body))

/-- The two algorithms agree on the bodies of at most one character. -/
theorem create_eq_reference (body : String) (short : body.toList.length ≤ 1) :
    create body = reference body := by
  rw [create, reference, bodyToSymbols]
  match body.toList, short with
  | [], _ => rfl
  | [c], _ =>
    simp only [mapM_cons, mapM_nil]
    cases inputCharset.toList.findIdx? (· = c) with
    | none => rfl
    | some pos => rfl

/-- A longer body with one checksum by accident: the two lists of values differ by
a multiple of the generator. -/
example : create "a3'1/e,0" = reference "a3'1/e,0" := by
  decide +kernel

theorem create_zero : create "0" = reference "0" :=
  create_eq_reference "0" (by decide)

theorem create_differs : create "00" ≠ reference "00" := by
  decide +kernel

end DescriptorChecksum

end Sophis
