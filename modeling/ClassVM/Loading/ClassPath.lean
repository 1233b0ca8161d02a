import ClassVM.Log
import ClassVM.Text.Split

namespace ClassVM

structure ClassPath where
  entries : List String
  deriving DecidableEq, Repr

namespace ClassPath

def separator : Char := ':'

/-- The entries between separators; empty ones are dropped, others are kept as they are. -/
def parse (text : String) : ClassPath := ⟨Text.piecesAt separator text⟩

/-- The current directory. -/
def byDefault : String := "."

/-- The class path to use, and the event that tells which one it is. An empty environment variable
counts as none, an empty argument does not. -/
def resolve (argument environment : Option String) : ClassPath × Event :=
  match argument, environment.filter (· ≠ "") with
  | some text, _ => (parse text, .classPathFromArgument text)
  | none, some text => (parse text, .classPathFromEnvironment text)
  | none, none => (parse byDefault, .classPathByDefault byDefault)

end ClassPath
end ClassVM
