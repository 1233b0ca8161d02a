import ClassVM.Machine.Run
import ClassVM.Proofs.Code.OffsetTable

namespace ClassVM

/-- A method being run, and the byte offset of the next instruction. -/
structure ByteFrame where
  owner : LoadedClass
  method : Method
  workspace : Workspace
  pc : Nat

namespace ByteFrame

def enter (owner : LoadedClass) (method : Method) (arguments : List Value) : ByteFrame where
  owner := owner
  method := method
  workspace := .withArguments arguments method.maxLocals.toNat
  pc := 0

def given (f : ByteFrame) (v : Value) : ByteFrame :=
  { f with workspace := { f.workspace with stack := v :: f.workspace.stack } }

def arguments (f : ByteFrame) (n : Nat) : List Value := (f.workspace.stack.take n).reverse

def withoutArguments (f : ByteFrame) (n : Nat) : ByteFrame :=
  { f with workspace := { f.workspace with stack := f.workspace.stack.drop n } }

end ByteFrame

/-- The frames, the innermost first, and how many there may be; the rest is as in `Machine`. -/
structure ByteMachine where
  mainClass : String
  store : ClassStore
  maxDepth : Nat
  frames : List ByteFrame
  console : Console
  log : Log

namespace ByteMachine

def logged (m : ByteMachine) (e : Event) : ByteMachine := { m with log := m.log.record e }

def loaded (m : ByteMachine) (loader : Loader) (name : String) : ByteMachine :=
  { m with
    store := (m.store.load loader name).store
    log := m.log.recordAll (m.store.load loader name).events }

def push (m : ByteMachine) (f : ByteFrame) (frames : List ByteFrame) :
    Except RunError Unit × ByteMachine :=
  if frames.length < m.maxDepth then (.ok (), { m with frames := f :: frames })
  else (.error (.stackOverflow m.maxDepth), { m with frames := frames })

def call (loader : Loader) (m : ByteMachine) (f : ByteFrame) (below : List ByteFrame)
    (ref : MemberRef) : Except RunError Unit × ByteMachine :=
  let asked := { m.loaded loader ref.className with frames := f :: below }
  match (m.store.load loader ref.className).result with
  | .error e => (.error e, asked)
  | .ok owner =>
    match owner.findMethod? ref.name ref.descriptor with
    | none => (.error (.noSuchMethod ref.className ref.name ref.descriptor), asked)
    | some method =>
      let n := method.parameterCount
      if method.body.isNone then (.error (.unsupportedMethod ref), asked)
      else if n ≤ f.workspace.stack.length then
        (asked.logged (.invoking ref (f.arguments n))).push
          (.enter owner method (f.arguments n)) (f.withoutArguments n :: below)
      else (.error .stackUnderflow, asked)

def leave (m : ByteMachine) (f : ByteFrame) (below : List ByteFrame) (value : Option Value) :
    ByteMachine :=
  let left := m.logged (.leaving f.owner.name f.method.name below.length)
  match value with
  | none => { left with frames := below }
  | some v => { left with frames := below.modifyHead (·.given v) }

/-- What an instruction of `f` asked for. A branch is taken only to an offset that the walk over the
code from its beginning comes by. -/
def perform (loader : Loader) (m : ByteMachine) (f : ByteFrame) (below : List ByteFrame) :
    Control → Except RunError Unit × ByteMachine
  | .next => (.ok (), { m with frames := f :: below })
  | .jump target =>
    if target ∈ Code.walk f.method.code 0 then
      (.ok (), { m with frames := { f with pc := target } :: below })
    else (.error (.invalidBranchTarget target), { m with frames := f :: below })
  | .call ref => m.call loader f below ref
  | .print text =>
    let (r, console) := Console.write text m.console
    (r, { m with console := console, frames := f :: below })
  | .leave value => (.ok (), m.leave f below value)

def next? (m : ByteMachine) : Option Instruction :=
  match m.frames with
  | [] => none
  | f :: _ =>
    match Code.fetchAt f.method.code f.pc with
    | some (.ok (i, _)) => some i
    | _ => none

/-- Decodes the instruction at the offset of the innermost invocation, moves past it and executes
it. There is none at the end of the code. -/
def step (loader : Loader) (m : ByteMachine) : Option (Except RunError Unit) × ByteMachine :=
  match m.frames with
  | [] => (none, m)
  | f :: below =>
    match Code.fetchAt f.method.code f.pc with
    | none => (none, m)
    | some (.error e) => (some (.error (.malformed e)), m)
    | some (.ok (i, next)) =>
      let m := m.logged (.executing f.owner.name f.method.name i)
      let (result, workspace) := i.execute f.owner.pool f.workspace
      let f := { f with workspace := workspace, pc := next }
      match result with
      | .error e => (some (.error e), { m with frames := f :: below })
      | .ok control =>
        let (r, m) := m.perform loader f below control
        (some r, m)

def run (loader : Loader) : Nat → ByteMachine → Option (Except RunError Unit) × ByteMachine
  | 0, m => (none, m)
  | fuel + 1, m =>
    match m.step loader with
    | (none, m) => (some (.ok ()), m)
    | (some (.error e), m) => (some (.error e), m)
    | (some (.ok ()), m) => run loader fuel m

/-- The instructions that these steps execute, in their order. -/
def trace (loader : Loader) : Nat → ByteMachine → List Instruction
  | 0, _ => []
  | fuel + 1, m =>
    match m.next? with
    | none => []
    | some i =>
      match m.step loader with
      | (some (.ok ()), m) => i :: trace loader fuel m
      | _ => [i]

def boot (loader : Loader) (m : ByteMachine) : Except RunError Unit × ByteMachine :=
  let asked := { m.loaded loader m.mainClass with frames := [] }
  match (m.store.load loader m.mainClass).result with
  | .error e => (.error e, asked)
  | .ok owner =>
    match owner.method? "main" with
    | none => (.error (.noSuchMethod owner.name "main" ""), asked)
    | some method => (asked.logged (.starting owner.name)).push (.enter owner method []) []

def finish (result : Except RunError Unit) (m : ByteMachine) : Except RunError Unit × ByteMachine :=
  let (r, console) := Console.flush m.console
  match r with
  | .ok () => (result, { m with console := console })
  | .error e => (.error e, { m with console := console })

def start (loader : Loader) (fuel : Nat) (m : ByteMachine) :
    Option (Except RunError Unit) × ByteMachine :=
  match m.boot loader with
  | (.error e, m) => (some (.error e), m)
  | (.ok (), m) =>
    match m.run loader fuel with
    | (none, m) => (none, m)
    | (some result, m) =>
      let (result, m) := m.finish result
      (some result, m)

end ByteMachine
end ClassVM
