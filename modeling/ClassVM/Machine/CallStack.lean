import ClassVM.Machine.Frame

namespace ClassVM

/-- Frames, the innermost first, their number, and how many there may be. -/
structure CallStack where
  maxDepth : Nat
  frames : List Frame
  depth : Nat
  depth_eq : depth = frames.length

namespace CallStack

def empty (maxDepth : Nat) : CallStack := ⟨maxDepth, [], 0, rfl⟩

def isEmpty (calls : CallStack) : Bool := calls.frames.isEmpty

/-- Starts an invocation, if the limit allows one more. -/
def push (f : Frame) : Exec CallStack Unit
  | ⟨maxDepth, frames, depth, depth_eq⟩ =>
    if depth < maxDepth then
      (.ok (), ⟨maxDepth, f :: frames, depth + 1, by simp [depth_eq]⟩)
    else (.error (.stackOverflow maxDepth), ⟨maxDepth, frames, depth, depth_eq⟩)

/-- Ends the innermost invocation. -/
def pop : Exec CallStack Frame
  | ⟨maxDepth, f :: frames, depth, depth_eq⟩ =>
    (.ok f, ⟨maxDepth, frames, depth - 1, by simp [depth_eq]⟩)
  | ⟨maxDepth, [], depth, depth_eq⟩ =>
    (.error .emptyCallStack, ⟨maxDepth, [], depth, depth_eq⟩)

/-- The innermost invocation. -/
def top (calls : CallStack) : Except RunError Frame :=
  match calls.frames with
  | f :: _ => .ok f
  | [] => .error .emptyCallStack

/-- An effect on the innermost invocation. -/
def onTop {α : Type} (x : Exec Frame α) : Exec CallStack α
  | ⟨maxDepth, f :: frames, depth, depth_eq⟩ =>
    let (r, f) := x f
    (r, ⟨maxDepth, f :: frames, depth, depth_eq⟩)
  | ⟨maxDepth, [], depth, depth_eq⟩ =>
    (.error .emptyCallStack, ⟨maxDepth, [], depth, depth_eq⟩)

/-- Drops all invocations. -/
def clear (calls : CallStack) : CallStack := empty calls.maxDepth

end CallStack
end ClassVM
