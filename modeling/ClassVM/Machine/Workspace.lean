import ClassVM.Machine.Exec

namespace ClassVM

namespace Value

/-- The int that a value is. -/
def asInt : Value → Except RunError Int32
  | int n => .ok n
  | v => .error (.typeMismatch .int (.value v))

end Value

/-- The operand stack, its top first, and the local variables; those never stored to are `none`. -/
structure Workspace where
  stack : List Value
  locals : Array (Option Value)
  deriving DecidableEq, Repr

namespace Workspace

/-- An empty operand stack, and `size` local variables or more, the first of which hold the
arguments. -/
def withArguments (arguments : List Value) (size : Nat) : Workspace where
  stack := []
  locals := (arguments.map some).toArray ++ Array.replicate (size - arguments.length) none

def push (v : Value) : Exec Workspace Unit
  | ⟨stack, locals⟩ => (.ok (), ⟨v :: stack, locals⟩)

def pop : Exec Workspace Value
  | ⟨[], locals⟩ => (.error .stackUnderflow, ⟨[], locals⟩)
  | ⟨v :: stack, locals⟩ => (.ok v, ⟨stack, locals⟩)

/-- Takes the top off the stack, also if it is no int. -/
def popInt : Exec Workspace Int32 := do
  let v ← pop
  Exec.ofExcept v.asInt

def peek (w : Workspace) : Except RunError Value :=
  match w.stack with
  | [] => .error .stackUnderflow
  | v :: _ => .ok v

/-- Takes `n` values off the stack, or none if there are fewer; the deepest comes first. -/
def popArguments (n : Nat) : Exec Workspace (List Value)
  | ⟨stack, locals⟩ =>
    if n ≤ stack.length then (.ok (stack.take n).reverse, ⟨stack.drop n, locals⟩)
    else (.error .stackUnderflow, ⟨stack, locals⟩)

/-- The int in a local variable. -/
def load (w : Workspace) (index : Nat) : Except RunError Int32 :=
  match w.locals[index]? with
  | some (some v) => v.asInt
  | some none => .error (.typeMismatch .int (.unsetLocal index))
  | none => .error (.invalidLocal index)

def store (index : Nat) (v : Value) : Exec Workspace Unit
  | ⟨stack, locals⟩ =>
    if h : index < locals.size then (.ok (), ⟨stack, locals.set index (some v)⟩)
    else (.error (.invalidLocal index), ⟨stack, locals⟩)

end Workspace
end ClassVM
