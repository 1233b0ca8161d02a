import ClassVM.CommandLine.Invocation

namespace ClassVM.Command

/-- What comes of reading the files for the class, up to the first one that can be read. -/
def readClass (path : ClassPath) (name : String) :
    IO (List (String × Except (Option String) Bytes)) := do
  let mut tried := []
  for entry in path.entries do
    let file := Loader.classFilePath entry name
    match (← (IO.FS.readBinFile file).toBaseIO) with
    | .ok content => return (file, .ok content.data.toList) :: tried
    | .error cause => tried := (file, .error (some cause.toString)) :: tried
  return tried

/-- A loader that can answer a request for the class `name`. -/
def loaderFor (path : ClassPath) (name : Option String) : IO Loader := do
  let known ← match name with
    | some name => readClass path name
    | none => pure []
  return Loader.ofClassPath ⟨fun file => (known.lookup file).getD (.error none), fun _ => false⟩ path

/-- The files as far as it matters for a class path: which of its entries are directories. Nothing
but a directory has itself below it. -/
def directories (path : ClassPath) : IO FileSystem := do
  let found ← path.entries.filterM fun entry => do
    match (← (IO.FS.realPath (Path.join entry ".")).toBaseIO) with
    | .ok _ => return true
    | .error _ => return false
  return ⟨fun _ => .error none, found.contains⟩

/-- Writes what has been printed and reported, and drops it. -/
def writeOut (m : Machine) : IO Machine := do
  for e in m.log.events do
    IO.eprintln e.message
  unless m.console.written.isEmpty do
    (← IO.getStdout).write ⟨m.console.written⟩
  return { m with
    console := { m.console with written := #[] }
    log := .empty m.log.level }

/-- Executes instructions until the machine stops. -/
partial def runOn (path : ClassPath) (m : Machine) : IO (Except RunError Unit) := do
  let m ← writeOut m
  let loader ← loaderFor path m.request?
  match m.step loader with
  | (some (.ok ()), m) => runOn path m
  | (some (.error e), m) => do
    let _ ← writeOut m
    return .error e
  | (none, _) => return .ok ()

def runMain (arguments : CommandLine.Arguments) : IO UInt32 := do
  let environment ← IO.getEnv "CLASSPATH"
  let (path, _) := ClassPath.resolve arguments.classPath environment
  let files ← directories path
  let (m, path) := CommandLine.machine files environment arguments
  let loader ← loaderFor path (some (ClassName.internal arguments.mainClass))
  let (booted, m) := Machine.boot loader m
  let m ← writeOut m
  let result ← match booted with
    | .ok () => runOn path m
    | .error e => pure (.error e)
  (← IO.getStdout).flush
  let outcome := CommandLine.outcomeOf arguments result m
  if let some report := outcome.report then IO.eprint report
  return .ofNat outcome.exit

end ClassVM.Command

open ClassVM in
def main (texts : List String) : IO UInt32 := do
  match CommandLine.parse texts with
  | .ok arguments => Command.runMain arguments
  | .error stop =>
    let outcome := CommandLine.outcomeOfStop stop
    (← IO.getStdout).write ⟨outcome.stdout⟩
    if let .misuse cause := stop then IO.eprintln ("error: " ++ cause.message)
    return .ofNat outcome.exit
