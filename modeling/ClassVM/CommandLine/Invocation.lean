import ClassVM.CommandLine.Arguments
import ClassVM.Machine.Run

namespace ClassVM.CommandLine

/-- The end of the command: the exit code, the bytes on standard output, and the report of a failed
run. -/
structure Outcome where
  exit : Nat
  stdout : Array UInt8
  report : Option String
  deriving DecidableEq

/-- Why a run failed, each text the cause of the one before it. -/
def causes : RunError → List String
  | .malformed .truncated => [(RunError.malformed .truncated).message, FormatError.truncatedCause]
  | .output fault => [(RunError.output fault).message, fault.message]
  | e => [e.message]

/-- The lines of `text`, the first after `first` and the others after `others`. -/
def indented (first others text : String) : String :=
  let lines := (Text.splitChars '\n' text.toList).map String.ofList
  first ++ ("\n" ++ others).intercalate lines ++ "\n"

/-- Causes are numbered if there are several. -/
def listed : List String → List String
  | [text] => [indented "    " "    " text]
  | texts =>
    texts.zipIdx.map fun (text, n) => indented ("    " ++ toString n ++ ": ") "       " text

/-- The report of a run of `mainClass` that failed with `e`. -/
def report (mainClass : String) (e : RunError) : String :=
  "Error: failed to run " ++ mainClass ++ "\n\nCaused by:\n" ++ String.join (listed (causes e))

/-- The name and the version of the command. -/
def versionText : String := "minibrew 0.1.0\n"

def helpText : String :=
  "Run the main method of a compiled Java class\n\n" ++
  "Usage: minibrew [OPTIONS] <MAIN_CLASS>\n\n" ++
  "Arguments:\n" ++
  "  <MAIN_CLASS>  Main class, for instance samples.SimpleClass\n\n" ++
  "Options:\n" ++
  "  -c, --classpath <PATH>  Directories to search for class files [aliases: --cp]\n" ++
  "      --max-depth <N>     Maximum call depth [default: 1024]\n" ++
  "  -v, --verbose...        Log more, repeat for more detail\n" ++
  "  -h, --help              Print help\n" ++
  "  -V, --version           Print version\n"

/-- How much is logged at a verbosity. -/
def logLevel : Nat → Level
  | 0 | 1 => .warnings
  | 2 => .calls
  | _ => .instructions

/-- The machine that arguments ask for and the class path of its loader. -/
def machine (files : FileSystem) (environment : Option String) (arguments : Arguments) :
    Machine × ClassPath :=
  let (path, event) := ClassPath.resolve arguments.classPath environment
  let log := (Log.empty (logLevel arguments.verbosity)).recordAll
    (event :: Loader.warnings files path)
  let depth := arguments.maxDepth.getD Machine.defaultDepth
  (.new arguments.mainClass depth .unlimited log, path)

/-- The end of the command when the machine has stopped. -/
def outcomeOf (arguments : Arguments) (result : Except RunError Unit) (m : Machine) : Outcome :=
  match result with
  | .ok () => ⟨0, m.console.written, none⟩
  | .error e => ⟨1, m.console.written, some (report arguments.mainClass e)⟩

/-- The end of the command when its arguments do not ask for a run. -/
def outcomeOfStop : Stop → Outcome
  | .help => ⟨0, helpText.toUTF8.data, none⟩
  | .version => ⟨0, versionText.toUTF8.data, none⟩
  | .misuse _ => ⟨2, #[], none⟩

/-- The whole command over files that do not change; `none` if the run takes more steps than
`fuel`. -/
def invoke (files : FileSystem) (environment : Option String) (texts : List String) (fuel : Nat) :
    Option Outcome :=
  match parse texts with
  | .error stop => some (outcomeOfStop stop)
  | .ok arguments =>
    let (m, path) := machine files environment arguments
    match m.start (Loader.ofClassPath files path) fuel with
    | (some result, m) => some (outcomeOf arguments result m)
    | (none, _) => none

end ClassVM.CommandLine
