import ClassVM.Code.Opcode
import ClassVM.Fault.FormatError
import ClassVM.Machine.Value
import ClassVM.Text.ClassName

namespace ClassVM

/-- Why output cannot be written. -/
inductive ConsoleFault where
  | full
  | flushFailed
  deriving DecidableEq, Repr

def ConsoleFault.message : ConsoleFault → String
  | .full => "sink full"
  | .flushFailed => "flush failed"

/-- What was found in the place of a value of the expected kind. -/
inductive Found where
  | value (v : Value)
  | unsetLocal (index : Nat)
  deriving DecidableEq, Repr

def Found.text : Found → String
  | .value v => v.text
  | .unsetLocal index => "uninitialized local " ++ toString index

/-- An error of a run; class names are kept in the form in which the program gives them. -/
inductive RunError where
  | classNotFound (className : String)
  | noSuchMethod (className name descriptor : String)
  | unresolved (cause : PoolError)
  | unsupportedOpcode (opcode : Opcode) (pc : Nat)
  | unsupportedField (className name : String)
  | unsupportedMethod (ref : MemberRef)
  | unsupportedConstant (index : UInt16)
  | stackUnderflow
  | typeMismatch (expected : ValueKind) (found : Found)
  | invalidLocal (index : Nat)
  | invalidBranchTarget (offset : Nat)
  | emptyCallStack
  | stackOverflow (limit : Nat)
  | divisionByZero
  | malformed (cause : FormatError)
  | output (cause : ConsoleFault)
  deriving DecidableEq

/-- The groups of run errors. -/
inductive Category where
  /-- A class, method or constant could not be resolved. -/
  | resolution
  /-- The program needs an instruction or a library call that there is not. -/
  | unsupported
  /-- Operand stack, local variables or call stack were used inconsistently. -/
  | invariant
  | arithmetic
  | format
  | output
  deriving DecidableEq, Repr

namespace RunError

def category : RunError → Category
  | classNotFound _ | noSuchMethod .. | unresolved _ => .resolution
  | unsupportedOpcode .. | unsupportedField .. | unsupportedMethod _ | unsupportedConstant _ =>
    .unsupported
  | stackUnderflow | typeMismatch .. | invalidLocal _ | invalidBranchTarget _ | emptyCallStack
  | stackOverflow _ => .invariant
  | divisionByZero => .arithmetic
  | malformed _ => .format
  | output _ => .output

/-- The text of an error; class names are shown in binary form. -/
def message : RunError → String
  | classNotFound className => "class not found: " ++ ClassName.binary className
  | noSuchMethod className name descriptor =>
    "no method " ++ name ++ descriptor ++ " in class " ++ ClassName.binary className
  | unresolved cause => cause.message
  | unsupportedOpcode opcode pc =>
    "unsupported opcode " ++ opcode.mnemonic ++ " at pc " ++ toString pc
  | unsupportedField className name =>
    "unsupported static field " ++ ClassName.binary className ++ "." ++ name
  | unsupportedMethod ref =>
    "unsupported method " ++ ClassName.binary ref.className ++ "." ++ ref.name ++ ref.descriptor
  | unsupportedConstant index =>
    "unsupported constant #" ++ toString index.toNat ++ " for ldc"
  | stackUnderflow => "operand stack underflow"
  | typeMismatch expected found =>
    "type mismatch: expected " ++ expected.name ++ ", found " ++ found.text
  | invalidLocal index => "local variable " ++ toString index ++ " is out of range"
  | invalidBranchTarget offset => "no instruction at byte offset " ++ toString offset
  | emptyCallStack => "call stack is empty"
  | stackOverflow limit => "stack overflow: call depth exceeded " ++ toString limit
  | divisionByZero => "ArithmeticException: / by zero"
  | malformed cause => cause.message
  | output cause => "failed to write output: " ++ cause.message

end RunError
end ClassVM
