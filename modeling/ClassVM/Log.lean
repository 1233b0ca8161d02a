import ClassVM.Code.Opcode
import ClassVM.Machine.Value
import ClassVM.Pool.Lookup

namespace ClassVM

inductive Event where
  | notDirectory (entry : String)
  | classPathFromArgument (text : String)
  | classPathFromEnvironment (text : String)
  | classPathByDefault (text : String)
  | found (className entry : String)
  | notIn (className entry reason : String)
  | alreadyLoaded (className : String)
  | loaded (className : String)
  | starting (className : String)
  | executing (className method : String) (instruction : Instruction)
  | invoking (ref : MemberRef) (arguments : List Value)
  | leaving (className method : String) (depth : Nat)
  deriving DecidableEq

/-- How much a log keeps, from little to all. -/
inductive Level where
  | quiet | warnings | calls | instructions
  deriving DecidableEq, Repr

def Level.rank : Level → Nat
  | .quiet => 0
  | .warnings => 1
  | .calls => 2
  | .instructions => 3

namespace Event

/-- The least level that keeps an event. -/
def level : Event → Level
  | notDirectory _ => .warnings
  | executing .. => .instructions
  | _ => .calls

def message : Event → String
  | notDirectory entry => "class path entry " ++ entry ++ " is not a directory"
  | classPathFromArgument text => "using class path from arguments: " ++ text
  | classPathFromEnvironment text => "using CLASSPATH: " ++ text
  | classPathByDefault text => "using default class path: " ++ text
  | found className entry => "found " ++ className ++ " in " ++ entry
  | notIn className entry reason => className ++ " not in " ++ entry ++ ": " ++ reason
  | alreadyLoaded className => "class " ++ className ++ " already loaded"
  | loaded className => "loaded class " ++ className
  | starting className => "starting " ++ className ++ ".main"
  | executing className method instruction =>
    className ++ "." ++ method ++ " " ++ instruction.text
  | invoking ref arguments =>
    "invoking " ++ ref.text ++ " with [" ++ ", ".intercalate (arguments.map Value.logText) ++ "]"
  | leaving className method depth =>
    "leaving " ++ className ++ "." ++ method ++ ", depth " ++ toString depth

end Event

/-- Events, newest first. -/
structure Log where
  level : Level
  newest : List Event

namespace Log

def empty (level : Level) : Log := ⟨level, []⟩

def record (log : Log) (e : Event) : Log :=
  if e.level.rank ≤ log.level.rank then { log with newest := e :: log.newest } else log

/-- Records events in their order. -/
def recordAll (log : Log) (events : List Event) : Log := events.foldl record log

/-- The events in the order in which they happened. -/
def events (log : Log) : List Event := log.newest.reverse

end Log
end ClassVM
