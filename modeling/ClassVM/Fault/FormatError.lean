import ClassVM.Pool.Lookup
import ClassVM.Text.Hex

namespace ClassVM

inductive FormatError where
  | truncated
  | badMagic (magic : UInt32)
  | unknownConstantTag (tag : UInt8) (slot : UInt16)
  | constantPoolOverflow (slot : UInt16)
  | unresolved (cause : PoolError)
  | malformedDescriptor (text : String)
  | invalidOpcode (byte : UInt8) (pc : Nat)
  | truncatedInstruction (pc : Nat)
  | branchOutOfRange (pc : Nat) (target : Int)
  deriving DecidableEq, Repr

namespace FormatError

/-- A failed lookup as a fault of the file. -/
def ofLookup {α : Type} (r : Except PoolError α) : Except FormatError α := r.mapError unresolved

/-- Why a file is truncated. -/
def truncatedCause : String := "failed to fill whole buffer"

def message : FormatError → String
  | truncated => "truncated class file: " ++ truncatedCause
  | badMagic magic => "bad magic number 0x" ++ Text.hex 8 magic.toNat
  | unknownConstantTag tag slot =>
    "unknown constant pool tag " ++ toString tag.toNat ++ " at #" ++ toString slot.toNat
  | constantPoolOverflow slot =>
    "two-slot constant at #" ++ toString slot.toNat ++ " runs past the end of the pool"
  | unresolved cause => cause.message
  | malformedDescriptor text => "malformed method descriptor `" ++ text ++ "`"
  | invalidOpcode byte pc =>
    "invalid opcode 0x" ++ Text.hex 2 byte.toNat ++ " at pc " ++ toString pc
  | truncatedInstruction pc => "truncated instruction at pc " ++ toString pc
  | branchOutOfRange pc target =>
    "branch at pc " ++ toString pc ++ " jumps outside the method to " ++ toString target

end FormatError
end ClassVM
