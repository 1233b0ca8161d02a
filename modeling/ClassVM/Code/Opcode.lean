import ClassVM.Code.Instruction

namespace ClassVM

/-- What an instruction does with a local variable that its operand names; `other` stands for uses
that are not executed. -/
inductive SlotUse where
  | load | store | increment | other
  deriving DecidableEq, Repr

/-- The operands of an opcode and the operation they give. -/
inductive Layout where
  /-- No operands. -/
  | plain (op : Op)
  /-- A signed byte to push. -/
  | pushByte
  /-- A signed two-byte number to push. -/
  | pushShort
  /-- A pool index of one byte. -/
  | constantByte
  /-- A pool index of two bytes. -/
  | constantShort
  /-- A local variable of one byte; `wide` makes it two. -/
  | slot (use : SlotUse)
  /-- A signed two-byte distance. -/
  | branchIf (condition : Condition)
  | branchCompare (condition : Condition)
  | jump
  /-- A signed four-byte distance. -/
  | jumpFar
  /-- A pool index of two bytes. -/
  | getStatic
  | invokeVirtual
  | invokeStatic
  /-- So many operand bytes of an operation that is not executed. -/
  | skipped (width : Nat)
  /-- Padding, a default, two bounds, and an entry of four bytes for every value in the bounds. -/
  | tableSwitch
  /-- Padding, a default, a count, and so many entries of eight bytes. -/
  | lookupSwitch
  /-- An opcode with a `slot` layout, whose operands are then twice as wide. -/
  | wide
  deriving DecidableEq, Repr

namespace Opcode

/-- What there is to know about an opcode. -/
structure Row where
  mnemonic : String
  layout : Layout

/-- From 0x00: constants and what pushes them. -/
def constantRows : List Row := [
  ⟨"nop", .plain .nop⟩, ⟨"aconst_null", .skipped 0⟩, ⟨"iconst_m1", .plain (.push (-1))⟩,
  ⟨"iconst_0", .plain (.push 0)⟩, ⟨"iconst_1", .plain (.push 1)⟩, ⟨"iconst_2", .plain (.push 2)⟩,
  ⟨"iconst_3", .plain (.push 3)⟩, ⟨"iconst_4", .plain (.push 4)⟩, ⟨"iconst_5", .plain (.push 5)⟩,
  ⟨"lconst_0", .skipped 0⟩, ⟨"lconst_1", .skipped 0⟩, ⟨"fconst_0", .skipped 0⟩,
  ⟨"fconst_1", .skipped 0⟩, ⟨"fconst_2", .skipped 0⟩, ⟨"dconst_0", .skipped 0⟩,
  ⟨"dconst_1", .skipped 0⟩, ⟨"bipush", .pushByte⟩, ⟨"sipush", .pushShort⟩, ⟨"ldc", .constantByte⟩,
  ⟨"ldc_w", .constantShort⟩, ⟨"ldc2_w", .skipped 2⟩]

/-- From 0x15: loads. -/
def loadRows : List Row := [
  ⟨"iload", .slot .load⟩, ⟨"lload", .slot .other⟩, ⟨"fload", .slot .other⟩,
  ⟨"dload", .slot .other⟩, ⟨"aload", .slot .other⟩, ⟨"iload_0", .plain (.load 0)⟩,
  ⟨"iload_1", .plain (.load 1)⟩, ⟨"iload_2", .plain (.load 2)⟩, ⟨"iload_3", .plain (.load 3)⟩,
  ⟨"lload_0", .skipped 0⟩, ⟨"lload_1", .skipped 0⟩, ⟨"lload_2", .skipped 0⟩,
  ⟨"lload_3", .skipped 0⟩, ⟨"fload_0", .skipped 0⟩, ⟨"fload_1", .skipped 0⟩,
  ⟨"fload_2", .skipped 0⟩, ⟨"fload_3", .skipped 0⟩, ⟨"dload_0", .skipped 0⟩,
  ⟨"dload_1", .skipped 0⟩, ⟨"dload_2", .skipped 0⟩, ⟨"dload_3", .skipped 0⟩,
  ⟨"aload_0", .skipped 0⟩, ⟨"aload_1", .skipped 0⟩, ⟨"aload_2", .skipped 0⟩,
  ⟨"aload_3", .skipped 0⟩, ⟨"iaload", .skipped 0⟩, ⟨"laload", .skipped 0⟩, ⟨"faload", .skipped 0⟩,
  ⟨"daload", .skipped 0⟩, ⟨"aaload", .skipped 0⟩, ⟨"baload", .skipped 0⟩, ⟨"caload", .skipped 0⟩,
  ⟨"saload", .skipped 0⟩]

/-- From 0x36: stores. -/
def storeRows : List Row := [
  ⟨"istore", .slot .store⟩, ⟨"lstore", .slot .other⟩, ⟨"fstore", .slot .other⟩,
  ⟨"dstore", .slot .other⟩, ⟨"astore", .slot .other⟩, ⟨"istore_0", .plain (.store 0)⟩,
  ⟨"istore_1", .plain (.store 1)⟩, ⟨"istore_2", .plain (.store 2)⟩,
  ⟨"istore_3", .plain (.store 3)⟩, ⟨"lstore_0", .skipped 0⟩, ⟨"lstore_1", .skipped 0⟩,
  ⟨"lstore_2", .skipped 0⟩, ⟨"lstore_3", .skipped 0⟩, ⟨"fstore_0", .skipped 0⟩,
  ⟨"fstore_1", .skipped 0⟩, ⟨"fstore_2", .skipped 0⟩, ⟨"fstore_3", .skipped 0⟩,
  ⟨"dstore_0", .skipped 0⟩, ⟨"dstore_1", .skipped 0⟩, ⟨"dstore_2", .skipped 0⟩,
  ⟨"dstore_3", .skipped 0⟩, ⟨"astore_0", .skipped 0⟩, ⟨"astore_1", .skipped 0⟩,
  ⟨"astore_2", .skipped 0⟩, ⟨"astore_3", .skipped 0⟩, ⟨"iastore", .skipped 0⟩,
  ⟨"lastore", .skipped 0⟩, ⟨"fastore", .skipped 0⟩, ⟨"dastore", .skipped 0⟩,
  ⟨"aastore", .skipped 0⟩, ⟨"bastore", .skipped 0⟩, ⟨"castore", .skipped 0⟩,
  ⟨"sastore", .skipped 0⟩]

/-- From 0x57: rearranging the operand stack. -/
def stackRows : List Row := [
  ⟨"pop", .plain .pop⟩, ⟨"pop2", .skipped 0⟩, ⟨"dup", .plain .duplicate⟩, ⟨"dup_x1", .skipped 0⟩,
  ⟨"dup_x2", .skipped 0⟩, ⟨"dup2", .skipped 0⟩, ⟨"dup2_x1", .skipped 0⟩, ⟨"dup2_x2", .skipped 0⟩,
  ⟨"swap", .skipped 0⟩]

/-- From 0x60: arithmetic. -/
def arithmeticRows : List Row := [
  ⟨"iadd", .plain (.arithmetic .add)⟩, ⟨"ladd", .skipped 0⟩, ⟨"fadd", .skipped 0⟩,
  ⟨"dadd", .skipped 0⟩, ⟨"isub", .plain (.arithmetic .sub)⟩, ⟨"lsub", .skipped 0⟩,
  ⟨"fsub", .skipped 0⟩, ⟨"dsub", .skipped 0⟩, ⟨"imul", .plain (.arithmetic .mul)⟩,
  ⟨"lmul", .skipped 0⟩, ⟨"fmul", .skipped 0⟩, ⟨"dmul", .skipped 0⟩,
  ⟨"idiv", .plain (.arithmetic .div)⟩, ⟨"ldiv", .skipped 0⟩, ⟨"fdiv", .skipped 0⟩,
  ⟨"ddiv", .skipped 0⟩, ⟨"irem", .plain (.arithmetic .rem)⟩, ⟨"lrem", .skipped 0⟩,
  ⟨"frem", .skipped 0⟩, ⟨"drem", .skipped 0⟩, ⟨"ineg", .plain .negate⟩, ⟨"lneg", .skipped 0⟩,
  ⟨"fneg", .skipped 0⟩, ⟨"dneg", .skipped 0⟩, ⟨"ishl", .skipped 0⟩, ⟨"lshl", .skipped 0⟩,
  ⟨"ishr", .skipped 0⟩, ⟨"lshr", .skipped 0⟩, ⟨"iushr", .skipped 0⟩, ⟨"lushr", .skipped 0⟩,
  ⟨"iand", .skipped 0⟩, ⟨"land", .skipped 0⟩, ⟨"ior", .skipped 0⟩, ⟨"lor", .skipped 0⟩,
  ⟨"ixor", .skipped 0⟩, ⟨"lxor", .skipped 0⟩, ⟨"iinc", .slot .increment⟩]

/-- From 0x85: conversions. -/
def conversionRows : List Row := [
  ⟨"i2l", .skipped 0⟩, ⟨"i2f", .skipped 0⟩, ⟨"i2d", .skipped 0⟩, ⟨"l2i", .skipped 0⟩,
  ⟨"l2f", .skipped 0⟩, ⟨"l2d", .skipped 0⟩, ⟨"f2i", .skipped 0⟩, ⟨"f2l", .skipped 0⟩,
  ⟨"f2d", .skipped 0⟩, ⟨"d2i", .skipped 0⟩, ⟨"d2l", .skipped 0⟩, ⟨"d2f", .skipped 0⟩,
  ⟨"i2b", .skipped 0⟩, ⟨"i2c", .skipped 0⟩, ⟨"i2s", .skipped 0⟩]

/-- From 0x94: comparisons and the branches on them. -/
def comparisonRows : List Row := [
  ⟨"lcmp", .skipped 0⟩, ⟨"fcmpl", .skipped 0⟩, ⟨"fcmpg", .skipped 0⟩, ⟨"dcmpl", .skipped 0⟩,
  ⟨"dcmpg", .skipped 0⟩, ⟨"ifeq", .branchIf .eq⟩, ⟨"ifne", .branchIf .ne⟩, ⟨"iflt", .branchIf .lt⟩,
  ⟨"ifge", .branchIf .ge⟩, ⟨"ifgt", .branchIf .gt⟩, ⟨"ifle", .branchIf .le⟩,
  ⟨"if_icmpeq", .branchCompare .eq⟩, ⟨"if_icmpne", .branchCompare .ne⟩,
  ⟨"if_icmplt", .branchCompare .lt⟩, ⟨"if_icmpge", .branchCompare .ge⟩,
  ⟨"if_icmpgt", .branchCompare .gt⟩, ⟨"if_icmple", .branchCompare .le⟩, ⟨"if_acmpeq", .skipped 2⟩,
  ⟨"if_acmpne", .skipped 2⟩]

/-- From 0xa7: jumps, switches and returns. -/
def controlRows : List Row := [
  ⟨"goto", .jump⟩, ⟨"jsr", .skipped 2⟩, ⟨"ret", .slot .other⟩, ⟨"tableswitch", .tableSwitch⟩,
  ⟨"lookupswitch", .lookupSwitch⟩, ⟨"ireturn", .plain .returnValue⟩, ⟨"lreturn", .skipped 0⟩,
  ⟨"freturn", .skipped 0⟩, ⟨"dreturn", .skipped 0⟩, ⟨"areturn", .skipped 0⟩,
  ⟨"return", .plain .returnVoid⟩]

/-- From 0xb2: fields, methods and objects. -/
def referenceRows : List Row := [
  ⟨"getstatic", .getStatic⟩, ⟨"putstatic", .skipped 2⟩, ⟨"getfield", .skipped 2⟩,
  ⟨"putfield", .skipped 2⟩, ⟨"invokevirtual", .invokeVirtual⟩, ⟨"invokespecial", .skipped 2⟩,
  ⟨"invokestatic", .invokeStatic⟩, ⟨"invokeinterface", .skipped 4⟩, ⟨"invokedynamic", .skipped 4⟩,
  ⟨"new", .skipped 2⟩, ⟨"newarray", .skipped 1⟩, ⟨"anewarray", .skipped 2⟩,
  ⟨"arraylength", .skipped 0⟩, ⟨"athrow", .skipped 0⟩, ⟨"checkcast", .skipped 2⟩,
  ⟨"instanceof", .skipped 2⟩, ⟨"monitorenter", .skipped 0⟩, ⟨"monitorexit", .skipped 0⟩]

/-- From 0xc4: wide forms and later additions. -/
def extendedRows : List Row := [
  ⟨"wide", .wide⟩, ⟨"multianewarray", .skipped 3⟩, ⟨"ifnull", .skipped 2⟩,
  ⟨"ifnonnull", .skipped 2⟩, ⟨"goto_w", .jumpFar⟩, ⟨"jsr_w", .skipped 4⟩]

/-- The rows of all opcodes, in the order of their bytes. -/
def table : Array Row := (
  constantRows ++ loadRows ++ storeRows ++ stackRows ++ arithmeticRows ++ conversionRows ++
  comparisonRows ++ controlRows ++ referenceRows ++ extendedRows).toArray

def count : Nat := 202

set_option maxRecDepth 2000 in
theorem table_size : table.size = count := by decide

end Opcode

structure Opcode where
  byte : UInt8
  assigned : byte.toNat < Opcode.count
  deriving DecidableEq

namespace Opcode

def ofByte? (byte : UInt8) : Option Opcode :=
  if assigned : byte.toNat < count then some ⟨byte, assigned⟩ else none

def row (opcode : Opcode) : Row :=
  have : opcode.byte.toNat < table.size := table_size ▸ opcode.assigned
  table[opcode.byte.toNat]

def mnemonic (opcode : Opcode) : String := opcode.row.mnemonic

def layout (opcode : Opcode) : Layout := opcode.row.layout

/-- What a widened form of this opcode does with its local variable; `none` if it has none. -/
def widened? (opcode : Opcode) : Option SlotUse :=
  match opcode.layout with
  | .slot use => some use
  | _ => none

end Opcode

/-- A decoded instruction: where it starts, its opcode (of a widened instruction, the opcode that
is widened) and what it does. -/
structure Instruction where
  pc : Nat
  opcode : Opcode
  op : Op
  deriving DecidableEq

def Instruction.text (i : Instruction) : String := toString i.pc ++ ": " ++ i.opcode.mnemonic

end ClassVM
