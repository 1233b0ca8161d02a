import ClassVM.Binary.Reader
import ClassVM.Code.Opcode
import ClassVM.Fault.FormatError

namespace ClassVM
open Binary Reader

namespace Code

/-- Reads an operand of the instruction at `pc`. -/
def operand {α : Type} (pc : Nat) (r : Reader α) (rest : Bytes) : Except FormatError α :=
  match r rest with
  | none => .error (.truncatedInstruction pc)
  | some (a, _) => .ok a

/-- The offset `distance` away from `pc`, if it lies in a code array of `size` bytes. -/
def target (size pc : Nat) (distance : Int) : Except FormatError Nat :=
  let offset := (pc : Int) + distance
  if 0 ≤ offset ∧ offset < size then .ok offset.toNat
  else .error (.branchOutOfRange pc offset)

def nearTarget (size pc : Nat) (rest : Bytes) : Except FormatError Nat := do
  let distance ← operand pc u16 rest
  target size pc distance.toInt16.toInt

def farTarget (size pc : Nat) (rest : Bytes) : Except FormatError Nat := do
  let distance ← operand pc u32 rest
  target size pc distance.toInt32.toInt

/-- An operation that is not executed, with `width` operand bytes. -/
def skip (pc width : Nat) (rest : Bytes) : Except FormatError (Op × Nat) :=
  if atLeast width rest then .ok (.unsupported, width) else .error (.truncatedInstruction pc)

/-- The operands of a switch start at the next multiple of four. -/
def switchPadding (pc : Nat) : Nat := 3 - pc % 4

/-- The bounds of a table switch, after the padding and the default. -/
def tableBounds (pc : Nat) : Reader (Int32 × Int32) := do
  let _ ← bytes (switchPadding pc + 4)
  let low ← u32
  let high ← u32
  return (low.toInt32, high.toInt32)

/-- The number of pairs of a lookup switch, after the padding and the default. -/
def pairCount (pc : Nat) : Reader Int32 := do
  let _ ← bytes (switchPadding pc + 4)
  let count ← u32
  return count.toInt32

/-- The operation and the operand bytes of an instruction that names a local variable. -/
def narrow (pc : Nat) (use : SlotUse) (rest : Bytes) : Except FormatError (Op × Nat) :=
  match use with
  | .load => do
    let slot ← operand pc u8 rest
    return (.load slot.toUInt16, 1)
  | .store => do
    let slot ← operand pc u8 rest
    return (.store slot.toUInt16, 1)
  | .increment => do
    let (slot, delta) ← operand pc (do return (← u8, ← u8)) rest
    return (.increment slot.toUInt16 delta.toInt8.toInt32, 2)
  | .other => skip pc 1 rest

/-- The same after `wide`: two bytes for each operand. -/
def widened (pc : Nat) (use : SlotUse) (rest : Bytes) : Except FormatError (Op × Nat) :=
  match use with
  | .load => do
    let slot ← operand pc u16 rest
    return (.load slot, 2)
  | .store => do
    let slot ← operand pc u16 rest
    return (.store slot, 2)
  | .increment => do
    let (slot, delta) ← operand pc (do return (← u16, ← u16)) rest
    return (.increment slot delta.toInt16.toInt32, 4)
  | .other => skip pc 2 rest

/-- The instruction after a `wide` at `pc`, which `rest` follows. Its opcode must be one that names a
local variable. -/
def wideInstruction (pc : Nat) : Bytes → Except FormatError (Instruction × Nat)
  | [] => .error (.truncatedInstruction pc)
  | byte :: rest =>
    match Opcode.ofByte? byte with
    | none => .error (.invalidOpcode byte pc)
    | some opcode =>
      match opcode.widened? with
      | none => .error (.invalidOpcode byte pc)
      | some use => do
        let (op, width) ← widened pc use rest
        return (⟨pc, opcode, op⟩, width + 1)

/-- The instruction with this opcode at `pc` of `size` bytes of code, and the number of its operand
bytes, which `rest` starts with. -/
def withOperands (size pc : Nat) (opcode : Opcode) (rest : Bytes) :
    Except FormatError (Instruction × Nat) :=
  let give (op : Op) (width : Nat) := .ok (⟨pc, opcode, op⟩, width)
  match opcode.layout with
  | .plain op => give op 0
  | .pushByte => do
    let value ← operand pc u8 rest
    give (.push value.toInt8.toInt32) 1
  | .pushShort => do
    let value ← operand pc u16 rest
    give (.push value.toInt16.toInt32) 2
  | .constantByte => do
    let index ← operand pc u8 rest
    give (.loadConstant index.toUInt16) 1
  | .constantShort => do
    let index ← operand pc u16 rest
    give (.loadConstant index) 2
  | .slot use => do
    let (op, width) ← narrow pc use rest
    give op width
  | .branchIf condition => do
    let target ← nearTarget size pc rest
    give (.branchIf condition target) 2
  | .branchCompare condition => do
    let target ← nearTarget size pc rest
    give (.branchCompare condition target) 2
  | .jump => do
    let target ← nearTarget size pc rest
    give (.jump target) 2
  | .jumpFar => do
    let target ← farTarget size pc rest
    give (.jump target) 4
  | .getStatic => do
    let index ← operand pc u16 rest
    give (.getStatic index) 2
  | .invokeVirtual => do
    let index ← operand pc u16 rest
    give (.invokeVirtual index) 2
  | .invokeStatic => do
    let index ← operand pc u16 rest
    give (.invokeStatic index) 2
  | .skipped width => do
    let (op, width) ← skip pc width rest
    give op width
  | .tableSwitch => do
    let (low, high) ← operand pc (tableBounds pc) rest
    let (op, width) ← skip pc
      (switchPadding pc + 12 + 4 * (high.toInt - low.toInt + 1).toNat) rest
    give op width
  | .lookupSwitch => do
    let count ← operand pc (pairCount pc) rest
    let (op, width) ← skip pc (switchPadding pc + 8 + 8 * count.toInt.toNat) rest
    give op width
  | .wide => wideInstruction pc rest

/-- The instruction at `pc`, which starts with `byte`, and the number of bytes after that one. -/
def instruction (size pc : Nat) (byte : UInt8) (rest : Bytes) :
    Except FormatError (Instruction × Nat) :=
  match Opcode.ofByte? byte with
  | none => .error (.invalidOpcode byte pc)
  | some opcode => withOperands size pc opcode rest

/-- Walks over the bytes from offset `pc`; the first `skipped` of them belong to the instruction
before. `found` holds the instructions so far, newest first. -/
def decodeFrom (size : Nat) : Nat → Nat → Bytes → List Instruction →
    Except FormatError (List Instruction)
  | _, _, [], found => .ok found.reverse
  | pc, skipped + 1, _ :: rest, found => decodeFrom size (pc + 1) skipped rest found
  | pc, 0, byte :: rest, found =>
    match instruction size pc byte rest with
    | .error e => .error e
    | .ok (i, width) => decodeFrom size (pc + 1) width rest (i :: found)

def decode (code : Bytes) : Except FormatError (List Instruction) :=
  decodeFrom code.length 0 0 code []

end Code
end ClassVM
