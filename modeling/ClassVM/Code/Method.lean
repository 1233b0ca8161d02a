import ClassVM.Code.Decoding
import ClassVM.Code.Signature

namespace ClassVM

/-- For every byte offset below `size`, the position of the instruction that starts there. -/
def offsetTable (size : Nat) (instructions : Array Instruction) : Array (Option Nat) :=
  instructions.toList.zipIdx.foldl (fun table (i, position) => table.setIfInBounds i.pc (some position))
    (Array.replicate size none)

/-- The code of a method, its decoded form, and the sizes it declares. The bytes are kept to say what has
been decoded; a run does not look at them. -/
structure Body where
  maxStack : UInt16
  maxLocals : UInt16
  code : Bytes
  instructions : Array Instruction
  offsets : Array (Option Nat)
  instructions_eq : Code.decode code = .ok instructions.toList
  offsets_eq : offsets = offsetTable code.length instructions

namespace Body

def ofCode (maxStack maxLocals : UInt16) (code : Bytes) : Except FormatError Body :=
  match h : Code.decode code with
  | .error e => .error e
  | .ok found =>
    .ok ⟨maxStack, maxLocals, code, found.toArray, offsetTable code.length found.toArray,
      by simpa using h, rfl⟩

/-- The position of the instruction that starts at byte `offset`. -/
def indexOf? (body : Body) (offset : Nat) : Option Nat := body.offsets[offset]?.join

end Body

/-- A method. One without a body is native or abstract. -/
structure Method where
  name : String
  descriptor : String
  flags : UInt16
  signature : Signature
  body : Option Body
  signature_eq : Signature.parse descriptor = .ok signature

namespace Method

def ofBody (name descriptor : String) (flags : UInt16) (body : Option Body) :
    Except FormatError Method :=
  match h : Signature.parse descriptor with
  | .error e => .error e
  | .ok signature => .ok ⟨name, descriptor, flags, signature, body, h⟩

/-- A method with code. The code is looked at before the descriptor. -/
def ofCode (name descriptor : String) (flags maxStack maxLocals : UInt16) (code : Bytes) :
    Except FormatError Method := do
  let body ← Body.ofCode maxStack maxLocals code
  ofBody name descriptor flags (some body)

def withoutCode (name descriptor : String) (flags : UInt16) : Except FormatError Method :=
  ofBody name descriptor flags none

/-- The flag of a static method. -/
def staticFlag : UInt16 := 0x0008

def isStatic (m : Method) : Bool := m.flags &&& staticFlag != 0

/-- How many values a call takes off the stack. A long or double is one value. -/
def parameterCount (m : Method) : Nat := m.signature.arguments.length

def maxStack (m : Method) : UInt16 := (m.body.map Body.maxStack).getD 0

def maxLocals (m : Method) : UInt16 := (m.body.map Body.maxLocals).getD 0

def instructions (m : Method) : Array Instruction := (m.body.map Body.instructions).getD #[]

def indexOf? (m : Method) (offset : Nat) : Option Nat := m.body.bind (·.indexOf? offset)

end Method
end ClassVM
