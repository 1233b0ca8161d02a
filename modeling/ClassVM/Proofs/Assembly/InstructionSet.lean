import ClassVM.Code.Decoding
import ClassVM.Proofs.Binary.BigEndian

namespace ClassVM
open Binary

namespace Opcode

theorem eq_of_byte {o p : Opcode} (h : o.byte = p.byte) : o = p := by
  cases o
  cases p
  cases h
  rfl

/-- The number of operand bytes of an opcode, `wide` and the two switches apart. -/
def operandWidth (byte : Nat) : Nat :=
  if byte ∈ [0x10, 0x12, 0x15, 0x16, 0x17, 0x18, 0x19, 0x36, 0x37, 0x38, 0x39, 0x3a, 0xa9,
      0xbc] then 1
  else if byte ∈ [0x11, 0x13, 0x14, 0x84, 0xbb, 0xbd, 0xc0, 0xc1, 0xc6, 0xc7] then 2
  else if 0x99 ≤ byte ∧ byte ≤ 0xa8 then 2
  else if 0xb2 ≤ byte ∧ byte ≤ 0xb8 then 2
  else if byte = 0xc5 then 3
  else if byte ∈ [0xb9, 0xba, 0xc8, 0xc9] then 4
  else 0

/-- What the operand bytes of an opcode say. -/
inductive Meaning where
  /-- Nothing that the operation depends on. -/
  | fixed (op : Op)
  /-- A signed number to push. -/
  | push
  /-- An unsigned index into the constant pool. -/
  | loadConstant | getStatic | invokeVirtual | invokeStatic
  /-- An unsigned local variable. -/
  | load | store
  /-- An unsigned local variable and a signed increment, of the same width. -/
  | increment
  /-- A signed distance. -/
  | branchIf (condition : Condition) | branchCompare (condition : Condition) | jump
  deriving DecidableEq

def meaning (byte : Nat) : Meaning :=
  match byte with
  | 0x00 => .fixed .nop
  | 0x02 => .fixed (.push (-1))
  | 0x03 => .fixed (.push 0)
  | 0x04 => .fixed (.push 1)
  | 0x05 => .fixed (.push 2)
  | 0x06 => .fixed (.push 3)
  | 0x07 => .fixed (.push 4)
  | 0x08 => .fixed (.push 5)
  | 0x10 | 0x11 => .push
  | 0x12 | 0x13 => .loadConstant
  | 0x15 => .load
  | 0x1a => .fixed (.load 0)
  | 0x1b => .fixed (.load 1)
  | 0x1c => .fixed (.load 2)
  | 0x1d => .fixed (.load 3)
  | 0x36 => .store
  | 0x3b => .fixed (.store 0)
  | 0x3c => .fixed (.store 1)
  | 0x3d => .fixed (.store 2)
  | 0x3e => .fixed (.store 3)
  | 0x57 => .fixed .pop
  | 0x59 => .fixed .duplicate
  | 0x60 => .fixed (.arithmetic .add)
  | 0x64 => .fixed (.arithmetic .sub)
  | 0x68 => .fixed (.arithmetic .mul)
  | 0x6c => .fixed (.arithmetic .div)
  | 0x70 => .fixed (.arithmetic .rem)
  | 0x74 => .fixed .negate
  | 0x84 => .increment
  | 0x99 => .branchIf .eq
  | 0x9a => .branchIf .ne
  | 0x9b => .branchIf .lt
  | 0x9c => .branchIf .ge
  | 0x9d => .branchIf .gt
  | 0x9e => .branchIf .le
  | 0x9f => .branchCompare .eq
  | 0xa0 => .branchCompare .ne
  | 0xa1 => .branchCompare .lt
  | 0xa2 => .branchCompare .ge
  | 0xa3 => .branchCompare .gt
  | 0xa4 => .branchCompare .le
  | 0xa7 | 0xc8 => .jump
  | 0xac => .fixed .returnValue
  | 0xb1 => .fixed .returnVoid
  | 0xb2 => .getStatic
  | 0xb6 => .invokeVirtual
  | 0xb8 => .invokeStatic
  | _ => .fixed .unsupported

/-- The opcodes that `wide` can widen. -/
def widenable (byte : Nat) : Bool :=
  byte ∈ [0x15, 0x16, 0x17, 0x18, 0x19, 0x36, 0x37, 0x38, 0x39, 0x3a, 0x84, 0xa9]

namespace Meaning

def target? (pc : Nat) (operands : Bytes) : Meaning → Option Int
  | branchIf _ | branchCompare _ | jump => some (pc + signed operands)
  | _ => none

def op (pc : Nat) (operands : Bytes) : Meaning → Op
  | fixed op => op
  | push => .push (.ofInt (signed operands))
  | loadConstant => .loadConstant (.ofNat (bigEndian operands))
  | getStatic => .getStatic (.ofNat (bigEndian operands))
  | invokeVirtual => .invokeVirtual (.ofNat (bigEndian operands))
  | invokeStatic => .invokeStatic (.ofNat (bigEndian operands))
  | load => .load (.ofNat (bigEndian operands))
  | store => .store (.ofNat (bigEndian operands))
  | increment =>
    let half := operands.length / 2
    .increment (.ofNat (bigEndian (operands.take half))) (.ofInt (signed (operands.drop half)))
  | branchIf condition => .branchIf condition (pc + signed operands).toNat
  | branchCompare condition => .branchCompare condition (pc + signed operands).toNat
  | jump => .jump (pc + signed operands).toNat

end Meaning

/-- Whether the row of an opcode has the operand bytes, the meaning and the widened form that the
instruction set gives it. -/
def conforms (byte : Nat) (layout : Layout) : Bool :=
  let width := operandWidth byte
  let meaning := meaning byte
  let plain := byte ≠ 0xaa ∧ byte ≠ 0xab ∧ byte ≠ 0xc4
  match layout with
  | .plain op => width = 0 ∧ meaning = .fixed op ∧ plain ∧ ¬ widenable byte
  | .pushByte => width = 1 ∧ meaning = .push ∧ plain ∧ ¬ widenable byte
  | .pushShort => width = 2 ∧ meaning = .push ∧ plain ∧ ¬ widenable byte
  | .constantByte => width = 1 ∧ meaning = .loadConstant ∧ plain ∧ ¬ widenable byte
  | .constantShort => width = 2 ∧ meaning = .loadConstant ∧ plain ∧ ¬ widenable byte
  | .slot .load => width = 1 ∧ meaning = .load ∧ plain ∧ widenable byte
  | .slot .store => width = 1 ∧ meaning = .store ∧ plain ∧ widenable byte
  | .slot .increment => width = 2 ∧ meaning = .increment ∧ byte = 0x84 ∧ widenable byte
  | .slot .other => width = 1 ∧ meaning = .fixed .unsupported ∧ plain ∧ widenable byte
  | .branchIf c => width = 2 ∧ meaning = .branchIf c ∧ plain ∧ ¬ widenable byte
  | .branchCompare c => width = 2 ∧ meaning = .branchCompare c ∧ plain ∧ ¬ widenable byte
  | .jump => width = 2 ∧ meaning = .jump ∧ plain ∧ ¬ widenable byte
  | .jumpFar => width = 4 ∧ meaning = .jump ∧ plain ∧ ¬ widenable byte
  | .getStatic => width = 2 ∧ meaning = .getStatic ∧ plain ∧ ¬ widenable byte
  | .invokeVirtual => width = 2 ∧ meaning = .invokeVirtual ∧ plain ∧ ¬ widenable byte
  | .invokeStatic => width = 2 ∧ meaning = .invokeStatic ∧ plain ∧ ¬ widenable byte
  | .skipped n => width = n ∧ meaning = .fixed .unsupported ∧ plain ∧ ¬ widenable byte
  | .tableSwitch => byte = 0xaa ∧ ¬ widenable byte
  | .lookupSwitch => byte = 0xab ∧ ¬ widenable byte
  | .wide => byte = 0xc4 ∧ ¬ widenable byte

-- Checked row by row; what the readers need of the table follows from this alone.
theorem table_conforms :
    table.toList.zipIdx.all (fun (row, byte) => conforms byte row.layout) = true := by
  decide +kernel

theorem layout_conforms (opcode : Opcode) : conforms opcode.byte.toNat opcode.layout = true := by
  have hlt : opcode.byte.toNat < table.size := table_size ▸ opcode.assigned
  have hrow : table.toList[opcode.byte.toNat]? = some table[opcode.byte.toNat] := by
    rw [Array.getElem?_toList, Array.getElem?_eq_getElem hlt]
  exact List.all_eq_true.mp table_conforms _ (List.mk_mem_zipIdx_iff_getElem?.mpr hrow)

end Opcode
end ClassVM
