import Sophis.ScriptStack

namespace Sophis

open ByteCodec ExceptLoop

/-!
# Script opcodes

Parsing of scripts into opcodes, the metadata of an opcode, and the opcodes
that work on the data stack alone, from `opcodes/mod.rs` and
`opcodes/macros.rs`.
-/

/-- An opcode and the data it pushes. -/
structure OpCode where
  value : UInt8
  data : List UInt8
  deriving Repr, DecidableEq

namespace OpCode

/-- The opcode as the `{:?}` format prints it. -/
def debug (opcode : OpCode) : String :=
  "Opcode<0x" ++ lowerHex opcode.value.toNat ++ ">\x7b data:" ++ debugBytes opcode.data ++ " \x7d"

def disabledCodes : List UInt8 :=
  [0x7e, 0x7f, 0x80, 0x81, 0x83, 0x84, 0x85, 0x86, 0x8d, 0x8e, 0x95, 0x96, 0x97, 0x98, 0x99]

def isDisabled (opcode : OpCode) : Bool := opcode.value ∈ disabledCodes

/-- The two conditionals on the version are rejected even where they would be
skipped. -/
def alwaysIllegal (opcode : OpCode) : Bool := opcode.value = 0x65 || opcode.value = 0x66

def isPushOpcode (opcode : OpCode) : Bool := opcode.value ≤ 0x60

def isConditional (opcode : OpCode) : Bool := 0x63 ≤ opcode.value && opcode.value ≤ 0x68

/-- The opcode that must be used to push the given data, with the name the
error text uses for it. Longer data may be pushed by any opcode. -/
def minimalPush (opcode : OpCode) : Option (UInt8 × String) :=
  let length := opcode.data.length
  let small := byteAt opcode.data 0
  let described (text name : String) := text ++ opcode.debug ++ " instead of " ++ name
  let pushOf := s!"data push of {length} bytes encoded with opcode "
  if length = 0 then
    some (0x00, described "zero length data push is encoded with opcode " "OpFalse")
  else if length = 1 ∧ 1 ≤ small ∧ small ≤ 16 then
    some (0x51 + small - 1, described "zero length data push is encoded with opcode "
      s!"Op_{small}")
  else if length = 1 ∧ small = 0x81 then
    some (0x4f, described "data push of the value -1 encoded with opcode " "OP_1NEGATE")
  else if length ≤ 75 then
    some (UInt8.ofNat length, described pushOf s!"OP_DATA_{length}")
  else if length ≤ 255 then
    some (0x4c, described pushOf "OP_PUSHDATA1")
  else if length < 65535 then
    some (0x4d, described pushOf "OP_PUSHDATA2")
  else
    none

def checkMinimalDataPush (opcode : OpCode) : ScriptResult Unit := match opcode.minimalPush with
  | some (required, text) => reject (opcode.value ≠ required) (.notMinimalData text)
  | none => .ok ()

end OpCode

/-- Reads the data of an opcode with a fixed number of data bytes. -/
def deserializeFixed (value : UInt8) (length : Nat) (input : List UInt8) :
    ScriptResult OpCode × List UInt8 :=
  let data := input.take length
  (if data.length ≠ length then
    .error (.malformedPush length data.length)
  else
    .ok { value, data },
    input.drop length)

/-- Reads the data of an opcode whose data is preceded by its length. -/
def deserializeVariable (value : UInt8) (width : Nat) (input : List UInt8) :
    ScriptResult OpCode × List UInt8 :=
  let lengthBytes := input.take width
  if lengthBytes.length ≠ width then
    (.error (.malformedPushSize lengthBytes), [])
  else
    deserializeFixed value (leValue lengthBytes) (input.drop width)

/-- Reads one opcode after its first byte. -/
def deserializeOpcode (value : UInt8) (input : List UInt8) : ScriptResult OpCode × List UInt8 :=
  if value = 0x4c then
    deserializeVariable value 1 input
  else if value = 0x4d then
    deserializeVariable value 2 input
  else if value = 0x4e then
    deserializeVariable value 4 input
  else if value ≤ 0x4b then
    deserializeFixed value value.toNat input
  else
    deserializeFixed value 0 input

/-- Reads opcodes until the input ends or one is malformed. Every opcode takes
at least one byte, so the length of the script is enough fuel. -/
def parseOpcodes : Nat → List UInt8 → List (ScriptResult OpCode)
  | 0, _ => []
  | _, [] => []
  | fuel + 1, value :: input =>
    match deserializeOpcode value input with
    | (.error error, _) => [.error error]
    | (.ok opcode, rest) => .ok opcode :: parseOpcodes fuel rest

def parseScript (script : List UInt8) : List (ScriptResult OpCode) :=
  parseOpcodes script.length script

/-- An opcode that only works on the data stack. -/
abbrev StackOpcode := Stack → ScriptResult Stack

def opIfDup : StackOpcode := fun stack => do
  let (items, _) ← stack.popRaw 1
  let item := items.getD 0 []
  return if deserializeBool item then item :: stack else stack

def opDepth : StackOpcode := fun stack => stack.pushNumber stack.length

def opNip : StackOpcode
  | top :: _ :: rest => .ok (top :: rest)
  | stack => .error (.invalidStackOperation 2 stack.length)

def opPick : StackOpcode := fun stack => do
  let (location, rest) ← stack.popI32
  if location < 0 ∨ location.toNat ≥ rest.length then
    .error (.invalidState "pick at an invalid location")
  else
    return rest.getD location.toNat [] :: rest

def opRoll : StackOpcode := fun stack => do
  let (location, rest) ← stack.popI32
  if location < 0 ∨ location.toNat ≥ rest.length then
    .error (.invalidState "roll at an invalid location")
  else
    return rest.getD location.toNat [] :: rest.eraseIdx location.toNat

def opTuck : StackOpcode
  | top :: second :: rest => .ok (top :: second :: top :: rest)
  | stack => .error (.invalidStackOperation 2 stack.length)

def opSize : StackOpcode
  | [] => .error (.invalidStackOperation 1 0)
  | top :: rest => Stack.pushNumber top.length (top :: rest)

def opEqual : StackOpcode
  | top :: second :: rest => .ok (Stack.pushBool (second = top) rest)
  | stack => .error (.invalidStackOperation 2 stack.length)

def opEqualVerify : StackOpcode
  | top :: second :: rest =>
    if second = top then .ok rest else .error .verifyError
  | stack => .error (.invalidStackOperation 2 stack.length)

def opVerify : StackOpcode := fun stack => do
  let (result, rest) ← stack.popBool
  if result then return rest else .error .verifyError

/-- A result that must be an `i64`. -/
def checkedNumber (text : String) (number : Int) : ScriptResult Int :=
  if isI64 number then .ok number else .error (.numberTooBig text)

/-- An opcode that replaces one number. -/
def unaryNumber (compute : Int → ScriptResult Int) : StackOpcode := fun stack => do
    let (value, rest) ← stack.popI64
    let result ← compute value
    rest.pushNumber result

/-- An opcode that replaces two numbers, the deeper one first. -/
def binaryNumber (compute : Int → Int → ScriptResult Int) : StackOpcode := fun stack => do
    let (numbers, rest) ← stack.popNumbers 8 2
    let result ← compute (numbers.getD 0 0) (numbers.getD 1 0)
    rest.pushNumber result

/-- An opcode that compares two numbers. -/
def binaryTest (test : Int → Int → Bool) : StackOpcode :=
  binaryNumber fun first second => .ok (if test first second then 1 else 0)

def op1Add : StackOpcode := unaryNumber fun value =>
  checkedNumber "Result of addition exceeds 64-bit signed integer range" (value + 1)

def op1Sub : StackOpcode := unaryNumber fun value =>
  checkedNumber "Result of subtraction exceeds 64-bit signed integer range" (value - 1)

def opNegate : StackOpcode := unaryNumber fun value =>
  checkedNumber "Negation result exceeds 64-bit signed integer range" (-value)

def opAbs : StackOpcode := unaryNumber fun value =>
  checkedNumber "Absolute value exceeds 64-bit signed integer range" value.natAbs

def opNot : StackOpcode := unaryNumber fun value => .ok (if value = 0 then 1 else 0)

def op0NotEqual : StackOpcode := unaryNumber fun value => .ok (if value ≠ 0 then 1 else 0)

def opAdd : StackOpcode := binaryNumber fun first second =>
  checkedNumber "Sum exceeds 64-bit signed integer range" (first + second)

def opSub : StackOpcode := binaryNumber fun first second =>
  checkedNumber "Difference exceeds 64-bit signed integer range" (first - second)

def opBoolAnd : StackOpcode := binaryTest fun a b => a ≠ 0 && b ≠ 0

def opBoolOr : StackOpcode := binaryTest fun a b => a ≠ 0 || b ≠ 0

def opNumEqual : StackOpcode := binaryTest fun a b => a = b

def opNumEqualVerify : StackOpcode := fun stack => do
  let (numbers, rest) ← stack.popNumbers 8 2
  if numbers.getD 0 0 = numbers.getD 1 0 then
    return rest
  else
    .error .verifyError

def opNumNotEqual : StackOpcode := binaryTest fun a b => a ≠ b

def opLessThan : StackOpcode := binaryTest fun a b => a < b

def opGreaterThan : StackOpcode := binaryTest fun a b => a > b

def opLessThanOrEqual : StackOpcode := binaryTest fun a b => a ≤ b

def opGreaterThanOrEqual : StackOpcode := binaryTest fun a b => a ≥ b

def opMin : StackOpcode := binaryNumber fun a b => .ok (min a b)

def opMax : StackOpcode := binaryNumber fun a b => .ok (max a b)

def opWithin : StackOpcode := fun stack => do
  let (numbers, rest) ← stack.popNumbers 8 3
  let x := numbers.getD 0 0
  rest.pushNumber (if numbers.getD 1 0 ≤ x ∧ x < numbers.getD 2 0 then 1 else 0)

/-- The opcodes of this section by their code. -/
def stackOpcodes : List (UInt8 × StackOpcode) :=
  [(0x61, .ok), (0x69, opVerify), (0x6d, Stack.dropItems 2), (0x6e, Stack.dupItems 2),
    (0x6f, Stack.dupItems 3), (0x70, Stack.overItems 2), (0x71, Stack.rotItems 2),
    (0x72, Stack.swapItems 2), (0x73, opIfDup), (0x74, opDepth), (0x75, Stack.dropItems 1),
    (0x76, Stack.dupItems 1), (0x77, opNip), (0x78, Stack.overItems 1), (0x79, opPick),
    (0x7a, opRoll), (0x7b, Stack.rotItems 1), (0x7c, Stack.swapItems 1), (0x7d, opTuck),
    (0x82, opSize), (0x87, opEqual), (0x88, opEqualVerify), (0x8b, op1Add), (0x8c, op1Sub),
    (0x8f, opNegate), (0x90, opAbs), (0x91, opNot), (0x92, op0NotEqual), (0x93, opAdd),
    (0x94, opSub), (0x9a, opBoolAnd), (0x9b, opBoolOr), (0x9c, opNumEqual),
    (0x9d, opNumEqualVerify), (0x9e, opNumNotEqual), (0x9f, opLessThan), (0xa0, opGreaterThan),
    (0xa1, opLessThanOrEqual), (0xa2, opGreaterThanOrEqual), (0xa3, opMin), (0xa4, opMax),
    (0xa5, opWithin)]

end Sophis
