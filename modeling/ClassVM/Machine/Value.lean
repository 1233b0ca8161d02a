namespace ClassVM

/-- An int, or the output stream that printing goes to. -/
inductive Value where
  | int (n : Int32)
  | printStream
  deriving DecidableEq, Repr

/-- What an instruction can ask a value to be. -/
inductive ValueKind where
  | int
  | printStream
  deriving DecidableEq, Repr

def ValueKind.name : ValueKind → String
  | .int => "int"
  | .printStream => "java.io.PrintStream"

/-- The decimal text of an int, with a minus sign if it is negative. -/
def decimal (n : Int32) : String := toString n.toInt

namespace Value

/-- A value as error texts show it. -/
def text : Value → String
  | int n => "int " ++ decimal n
  | printStream => ValueKind.printStream.name

/-- A value as the log shows it. -/
def logText : Value → String
  | int n => "Int(" ++ decimal n ++ ")"
  | printStream => "PrintStream"

end Value
end ClassVM
