import ClassVM.Machine.Run
import Mathlib.Control.Monad.Basic

namespace ClassVM

/-- The opcode with a given byte. Bytes that are none stand for `nop`. -/
def Opcode.ofByte (byte : UInt8) : Opcode := (ofByte? byte).getD ⟨0x00, by decide⟩

/-- A method without parameters and result. -/
def Method.procedure (name : String) (flags : UInt16) (body : Option Body) : Method :=
  ⟨name, "()V", flags, ⟨[], none⟩, body, rfl⟩

end ClassVM
