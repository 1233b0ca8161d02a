import ClassVM.Code.LoadedClass
import ClassVM.Machine.Workspace

namespace ClassVM

/-- A method being run, the class it belongs to, the values it works on, and the position of the next
instruction in its list. -/
structure Frame where
  owner : LoadedClass
  method : Method
  workspace : Workspace
  cursor : Nat

namespace Frame

/-- The start of an invocation. There is room for the arguments even if the method declares fewer
local variables. -/
def enter (owner : LoadedClass) (method : Method) (arguments : List Value) : Frame where
  owner := owner
  method := method
  workspace := .withArguments arguments method.maxLocals.toNat
  cursor := 0

/-- The next instruction. -/
def next? (f : Frame) : Option Instruction := f.method.instructions[f.cursor]?

/-- Moves past the next instruction. -/
def advance (f : Frame) : Frame := { f with cursor := f.cursor + 1 }

/-- Moves to the instruction that starts at a byte offset. -/
def seek (offset : Nat) : Exec Frame Unit
  | ⟨owner, method, workspace, cursor⟩ =>
    match method.indexOf? offset with
    | some position => (.ok (), ⟨owner, method, workspace, position⟩)
    | none => (.error (.invalidBranchTarget offset), ⟨owner, method, workspace, cursor⟩)

/-- An effect on the values of the invocation. -/
def onWorkspace {α : Type} (x : Exec Workspace α) : Exec Frame α
  | ⟨owner, method, workspace, cursor⟩ =>
    let (r, workspace) := x workspace
    (r, ⟨owner, method, workspace, cursor⟩)

end Frame
end ClassVM
