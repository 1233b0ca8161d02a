import ClassVM.Loading.ClassStore
import ClassVM.Machine.CallStack
import ClassVM.Machine.Console
import ClassVM.Machine.Execution

namespace ClassVM

structure Machine where
  mainClass : String
  store : ClassStore
  calls : CallStack
  console : Console
  log : Log

namespace Machine

/-- The call depth that is allowed if nothing else is said. -/
def defaultDepth : Nat := 1024

/-- A machine that has not started yet. -/
def new (mainClass : String) (maxDepth : Nat) (console : Console) (log : Log) : Machine :=
  ⟨mainClass, .empty, .empty maxDepth, console, log⟩

/-- The same machine with another limit and without invocations. -/
def withDepth (m : Machine) (maxDepth : Nat) : Machine := { m with calls := .empty maxDepth }

def onCalls {α : Type} (x : Exec CallStack α) : Exec Machine α
  | ⟨mainClass, store, calls, console, log⟩ =>
    let (r, calls) := x calls
    (r, ⟨mainClass, store, calls, console, log⟩)

def onConsole {α : Type} (x : Exec Console α) : Exec Machine α
  | ⟨mainClass, store, calls, console, log⟩ =>
    let (r, console) := x console
    (r, ⟨mainClass, store, calls, console, log⟩)

/-- An effect on the values of the innermost invocation. -/
def onWorkspace {α : Type} (x : Exec Workspace α) : Exec Machine α :=
  onCalls (CallStack.onTop (Frame.onWorkspace x))

def record (e : Event) : Exec Machine Unit
  | ⟨mainClass, store, calls, console, log⟩ =>
    (.ok (), ⟨mainClass, store, calls, console, log.record e⟩)

/-- The class called `name`, which is loaded if it has not been. -/
def loadClass (loader : Loader) (name : String) : Exec Machine LoadedClass
  | ⟨mainClass, store, calls, console, log⟩ =>
    let loading := store.load loader name
    (loading.result, ⟨mainClass, loading.store, calls, console, log.recordAll loading.events⟩)

/-- Invokes a method that has a body. Its arguments are taken off the stack of the invocation that
calls it before the limit is looked at. -/
def call (loader : Loader) (ref : MemberRef) : Exec Machine Unit := do
  let owner ← loadClass loader ref.className
  match owner.findMethod? ref.name ref.descriptor with
  | none => throw (.noSuchMethod ref.className ref.name ref.descriptor)
  | some method =>
    match method.body with
    | none => throw (.unsupportedMethod ref)
    | some _ =>
      let arguments ← onWorkspace (Workspace.popArguments method.parameterCount)
      record (.invoking ref arguments)
      onCalls (CallStack.push (.enter owner method arguments))

/-- Pushes a value for the innermost invocation; without one the value is dropped. -/
def give (v : Value) : Exec Machine Unit := do
  if (← get).calls.isEmpty then pure () else onWorkspace (Workspace.push v)

def leave (value : Option Value) : Exec Machine Unit := do
  let frame ← onCalls CallStack.pop
  record (.leaving frame.owner.name frame.method.name (← get).calls.depth)
  match value with
  | none => pure ()
  | some v => give v

/-- What an instruction asked for. -/
def perform (loader : Loader) (control : Control) : Exec Machine Unit :=
  match control with
  | .next => pure ()
  | .jump target => onCalls (CallStack.onTop (Frame.seek target))
  | .call ref => call loader ref
  | .print text => onConsole (Console.write text)
  | .leave value => leave value

/-- Takes the next instruction of the innermost invocation, with the pool that it refers to. The
invocation moves past it before it is executed. -/
def fetch? : Machine → Option (ConstantPool × Instruction × Machine)
  | ⟨mainClass, store, ⟨maxDepth, f :: frames, depth, depth_eq⟩, console, log⟩ =>
    match f.next? with
    | none => none
    | some i =>
      let log := log.record (.executing f.owner.name f.method.name i)
      some (f.owner.pool, i,
        ⟨mainClass, store, ⟨maxDepth, f.advance :: frames, depth, depth_eq⟩, console, log⟩)
  | _ => none

/-- Executes the next instruction. Without one there is no result and the machine stays as it is. -/
def step (loader : Loader) (m : Machine) : Option (Except RunError Unit) × Machine :=
  match m.fetch? with
  | none => (none, m)
  | some (pool, i, m) =>
    let (result, m) := (onWorkspace (i.execute pool) >>= perform loader) m
    (some result, m)

/-- The class, by internal name, that the next step will ask the loader for. -/
def request? (m : Machine) : Option String :=
  match m.fetch? with
  | some (pool, ⟨_, _, .invokeStatic index⟩, _) =>
    match pool.methodRef index with
    | .ok ref =>
      if m.store.isLoaded ref.className then none else some (ClassName.internal ref.className)
    | .error _ => none
  | _ => none

/-- Makes the main method of the main class the only invocation. Its argument is left unset. -/
def boot (loader : Loader) : Exec Machine Unit := do
  modify fun m => { m with calls := m.calls.clear }
  let owner ← loadClass loader (← get).mainClass
  match owner.method? "main" with
  | none => throw (.noSuchMethod owner.name "main" "")
  | some method =>
    record (.starting owner.name)
    onCalls (CallStack.push (.enter owner method []))

end Machine
end ClassVM
