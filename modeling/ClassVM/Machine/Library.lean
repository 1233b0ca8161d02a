import ClassVM.Machine.Value
import ClassVM.Pool.Lookup

namespace ClassVM

namespace Library

def systemClass : String := "java/lang/System"

def printStreamClass : String := "java/io/PrintStream"

/-- The value of a static field. Its descriptor does not matter. -/
def staticField? (ref : MemberRef) : Option Value :=
  if ref.className = systemClass ∧ ref.name = "out" then some .printStream else none

end Library

/-- The methods that print. -/
inductive PrintCall where
  | printlnInt
  | printlnBoolean
  | printlnChar
  | println
  | printInt
  deriving DecidableEq, Repr

namespace PrintCall

def name : PrintCall → String
  | printInt => "print"
  | _ => "println"

def descriptor : PrintCall → String
  | printlnInt | printInt => "(I)V"
  | printlnBoolean => "(Z)V"
  | printlnChar => "(C)V"
  | println => "()V"

def all : List PrintCall := [printlnInt, printlnBoolean, printlnChar, println, printInt]

/-- The printing method that a reference names. -/
def ofRef? (ref : MemberRef) : Option PrintCall :=
  if ref.className = Library.printStreamClass then
    all.find? fun call => call.name = ref.name && call.descriptor = ref.descriptor
  else none

/-- How many int arguments the call takes. -/
def arity : PrintCall → Nat
  | println => 0
  | _ => 1

/-- The character whose code is the low 16 bits of `n`, or U+FFFD if that is a surrogate. -/
def charOf (n : Int32) : Char :=
  let code := n.toUInt32.toNat % 65536
  if code.isValidChar then Char.ofNat code else Char.ofNat 0xfffd

/-- What the call prints; a call without an argument ignores it. -/
def text (call : PrintCall) (argument : Int32) : String :=
  match call with
  | printlnInt => decimal argument ++ "\n"
  | printlnBoolean => (if argument = 0 then "false" else "true") ++ "\n"
  | printlnChar => String.singleton (charOf argument) ++ "\n"
  | println => "\n"
  | printInt => decimal argument

end PrintCall
end ClassVM
