import Sophis.ExceptLoop
import Sophis.Transaction

namespace Sophis

open ByteCodec ExceptLoop

/-!
# The data stack of the script engine

Number encoding and stack operations of `data_stack.rs`. A stack is a list
whose head is the top of the stack; items popped together are listed from the
deepest to the topmost, as the source does.
-/

/-- The top comes first. -/
abbrev Stack := List (List UInt8)

/-- A value or a script error. -/
abbrev ScriptResult (α : Type) := Except TxScriptError α

/-- The bytes of a list as the `{:?}` format prints them. -/
def debugBytes (bytes : List UInt8) : String :=
  "[" ++ ", ".intercalate (bytes.map fun byte => toString byte) ++ "]"

/-- One number as the `{:x}` format prints it. -/
def lowerHex (number : Nat) : String := String.ofList (Nat.toDigits 16 number)

/-- The bytes of a list as the `{:x?}` format prints them. -/
def debugHexBytes (bytes : List UInt8) : String :=
  "[" ++ ", ".intercalate (bytes.map fun byte => lowerHex byte.toNat) ++ "]"

def isI64 (number : Int) : Bool := -2 ^ 63 ≤ number ∧ number < 2 ^ 63

def checkMinimalDataEncoding (bytes : List UInt8) : ScriptResult Unit := match bytes.reverse with
  | [] => .ok ()
  | last :: rest =>
    reject (last &&& 0x7f = 0 ∧ rest.head?.all (fun second => second &&& 0x80 = 0)) (.notMinimalData
      s!"numeric value encoded as {debugHexBytes bytes} is not minimally encoded")

/-- The magnitude of a number, low byte first and without leading zeros. The
width bounds the number of bytes. -/
def magnitudeBytes : Nat → Nat → List UInt8
  | 0, _ => []
  | width + 1, positive =>
    if positive = 0 then
      []
    else
      UInt8.ofNat (positive % 256) :: magnitudeBytes width (positive / 256)

/-- A zero byte is appended when the sign bit is taken by the magnitude. -/
def padSaturated (bytes : List UInt8) : List UInt8 := match bytes.getLast? with
  | some last => if last &&& 0x80 ≠ 0 then bytes ++ [0] else bytes
  | none => []

def setSignBit (bytes : List UInt8) : List UInt8 := match bytes.getLast? with
  | some last => bytes.dropLast ++ [last ||| 0x80]
  | none => []

def serializeI64 (number : Int) : List UInt8 :=
  let bytes := padSaturated (magnitudeBytes 8 number.natAbs)
  if number < 0 then setSignBit bytes else bytes

def deserializeI64 (bytes : List UInt8) : ScriptResult Int :=
  if bytes.length > 8 then
    .error (.notMinimalData
      s!"numeric value encoded as {debugHexBytes bytes} is longer than 8 bytes")
  else
    match bytes.getLast? with
    | none => .ok 0
    | some last => do
      checkMinimalDataEncoding bytes
      let magnitude : Int := leValue (bytes.dropLast ++ [last &&& 0x7f])
      return if last &&& 0x80 ≠ 0 then -magnitude else magnitude

/-- A number of at most the given number of bytes. -/
def deserializeSized (limit : Nat) (bytes : List UInt8) : ScriptResult Int :=
  if bytes.length > limit then
    .error (.numberTooBig
      s!"numeric value encoded as {debugHexBytes bytes} is {bytes.length} bytes which exceeds the max allowed of {limit}")
  else
    deserializeI64 bytes

def serializeSized (limit : Nat) (number : Int) : ScriptResult (List UInt8) :=
  let bytes := serializeI64 number
  if bytes.length > limit then .error (.numberTooLong number) else .ok bytes

/-- Zero of either sign is false. -/
def deserializeBool (bytes : List UInt8) : Bool := match bytes.getLast? with
  | none => false
  | some last => last &&& 0x7f ≠ 0 || bytes.dropLast.any (· ≠ 0)

def serializeBool (value : Bool) : List UInt8 := if value then [1] else []

namespace Stack

def popRaw (count : Nat) (stack : Stack) : ScriptResult (List (List UInt8) × Stack) :=
  if stack.length < count then
    .error (.invalidStackOperation count stack.length)
  else
    .ok ((stack.take count).reverse, stack.drop count)

def popNumbers (limit count : Nat) (stack : Stack) : ScriptResult (List Int × Stack) := do
  let (items, rest) ← popRaw count stack
  let numbers ← items.mapM (deserializeSized limit)
  return (numbers, rest)

def popI64 (stack : Stack) : ScriptResult (Int × Stack) := do
  let (numbers, rest) ← popNumbers 8 1 stack
  return (numbers.getD 0 0, rest)

def popI32 (stack : Stack) : ScriptResult (Int × Stack) := do
  let (numbers, rest) ← popNumbers 4 1 stack
  return (numbers.getD 0 0, rest)

def popBool (stack : Stack) : ScriptResult (Bool × Stack) := do
  let (items, rest) ← popRaw 1 stack
  return (deserializeBool (items.getD 0 []), rest)

def pushNumber (number : Int) (stack : Stack) : ScriptResult Stack := do
  let bytes ← serializeSized 8 number
  return bytes :: stack

def pushBool (value : Bool) (stack : Stack) : Stack := serializeBool value :: stack

def dropItems (count : Nat) (stack : Stack) : ScriptResult Stack :=
  if count ≤ stack.length then
    .ok (stack.drop count)
  else
    .error (.invalidStackOperation count stack.length)

def dupItems (count : Nat) (stack : Stack) : ScriptResult Stack :=
  if count ≤ stack.length then
    .ok (stack.take count ++ stack)
  else
    .error (.invalidStackOperation count stack.length)

def overItems (count : Nat) (stack : Stack) : ScriptResult Stack :=
  if 2 * count ≤ stack.length then
    .ok ((stack.drop count).take count ++ stack)
  else
    .error (.invalidStackOperation (2 * count) stack.length)

def rotItems (count : Nat) (stack : Stack) : ScriptResult Stack :=
  if 3 * count ≤ stack.length then
    .ok ((stack.drop (2 * count)).take count ++ stack.take (2 * count) ++ stack.drop (3 * count))
  else
    .error (.invalidStackOperation (3 * count) stack.length)

def swapItems (count : Nat) (stack : Stack) : ScriptResult Stack :=
  if 2 * count ≤ stack.length then
    .ok ((stack.drop count).take count ++ stack.take count ++ stack.drop (2 * count))
  else
    .error (.invalidStackOperation (2 * count) stack.length)

end Stack

end Sophis
