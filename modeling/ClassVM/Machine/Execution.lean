import ClassVM.Machine.Library
import ClassVM.Machine.Workspace

namespace ClassVM

namespace Operator

/-- Results wrap around at 32 bits; quotients are rounded toward zero, and remainders have the sign
of the left operand. -/
def apply (operator : Operator) (left right : Int32) : Except RunError Int32 :=
  match operator with
  | .add => .ok (left + right)
  | .sub => .ok (left - right)
  | .mul => .ok (left * right)
  | .div => if right = 0 then .error .divisionByZero else .ok (left / right)
  | .rem => if right = 0 then .error .divisionByZero else .ok (left % right)

end Operator

/-- How a run goes on after an instruction. -/
inductive Control where
  /-- With the next instruction. -/
  | next
  /-- With the instruction at a byte offset. -/
  | jump (target : Nat)
  /-- With an invocation of a method. -/
  | call (ref : MemberRef)
  /-- With the next instruction, after a text has been printed. -/
  | print (text : String)
  /-- With the caller, which gets the value if there is one. -/
  | leave (value : Option Value)
  deriving DecidableEq

namespace ConstantPool

/-- The int that an instruction can load from a slot. -/
def loadable (pool : ConstantPool) (index : UInt16) : Except RunError Int32 :=
  match pool.constant? index with
  | some (.integer value) => .ok value
  | some _ => .error (.unsupportedConstant index)
  | none => .error (.unresolved ⟨index, .loadable⟩)

end ConstantPool

namespace Workspace

/-- Takes what a call of a method of the library needs off the stack, an int argument first and then
the stream, and gives the text to print. -/
def printed (ref : MemberRef) : Exec Workspace String :=
  match PrintCall.ofRef? ref with
  | none => throw (.unsupportedMethod ref)
  | some call => do
    let argument ← if call.arity = 0 then pure 0 else popInt
    let receiver ← pop
    match receiver with
    | .printStream => return call.text argument
    | v => throw (.typeMismatch .printStream (.value v))

end Workspace

namespace Instruction
open Workspace

/-- Executes an instruction of a class with constant pool `pool`. -/
def execute (pool : ConstantPool) (i : Instruction) : Exec Workspace Control :=
  match i.op with
  | .nop => return .next
  | .push value => do
    push (.int value)
    return .next
  | .loadConstant index => do
    let value ← Exec.ofExcept (pool.loadable index)
    push (.int value)
    return .next
  | .load slot => do
    let value ← Exec.ofExcept ((← get).load slot.toNat)
    push (.int value)
    return .next
  | .store slot => do
    let value ← popInt
    store slot.toNat (.int value)
    return .next
  | .increment slot delta => do
    let value ← Exec.ofExcept ((← get).load slot.toNat)
    store slot.toNat (.int (value + delta))
    return .next
  | .arithmetic operator => do
    let right ← popInt
    let left ← popInt
    let value ← Exec.ofExcept (operator.apply left right)
    push (.int value)
    return .next
  | .negate => do
    let value ← popInt
    push (.int (-value))
    return .next
  | .pop => do
    let _ ← pop
    return .next
  | .duplicate => do
    let value ← Exec.ofExcept (← get).peek
    push value
    return .next
  | .branchIf condition target => do
    let value ← popInt
    return if condition.holds value 0 then .jump target else .next
  | .branchCompare condition target => do
    let right ← popInt
    let left ← popInt
    return if condition.holds left right then .jump target else .next
  | .jump target => return .jump target
  | .getStatic index => do
    let ref ← Exec.ofExcept ((pool.fieldRef index).mapError .unresolved)
    match Library.staticField? ref with
    | some value => do
      push value
      return .next
    | none => throw (.unsupportedField ref.className ref.name)
  | .invokeVirtual index => do
    let ref ← Exec.ofExcept ((pool.methodRef index).mapError .unresolved)
    let text ← printed ref
    return .print text
  | .invokeStatic index => do
    let ref ← Exec.ofExcept ((pool.methodRef index).mapError .unresolved)
    return .call ref
  | .returnValue => do
    let value ← pop
    return .leave (some value)
  | .returnVoid => return .leave none
  | .unsupported => throw (.unsupportedOpcode i.opcode i.pc)

end Instruction
end ClassVM
