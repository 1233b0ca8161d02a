import ClassVM.Text.Split

namespace ClassVM.CommandLine

/-- The options that take a value. -/
inductive Setting where
  | classPath
  | maxDepth
  deriving DecidableEq, Repr

/-- The options that take none. -/
inductive Switch where
  | verbose
  | help
  | version
  deriving DecidableEq, Repr

inductive Misuse where
  | unknownOption (text : String)
  | missingValue (setting : Setting)
  | unneededValue (text : String)
  | repeated (setting : Setting)
  | notANumber (text : String)
  | extraArgument (text : String)
  | missingMainClass
  deriving DecidableEq, Repr

/-- Why arguments do not ask for a run. -/
inductive Stop where
  | help
  | version
  | misuse (cause : Misuse)
  deriving DecidableEq, Repr

/-- What the arguments so far have given. -/
structure Given where
  mainClass : Option String
  classPath : Option String
  maxDepth : Option Nat
  verbosity : Nat
  deriving DecidableEq, Repr

structure Arguments where
  mainClass : String
  classPath : Option String
  maxDepth : Option Nat
  verbosity : Nat
  deriving DecidableEq, Repr

def Setting.flag : Setting → String
  | .classPath => "--classpath"
  | .maxDepth => "--max-depth"

def Misuse.message : Misuse → String
  | unknownOption text => "unexpected argument '" ++ text ++ "'"
  | missingValue setting => "a value is required for '" ++ setting.flag ++ "'"
  | unneededValue text => "unexpected value in '" ++ text ++ "'"
  | repeated setting => "'" ++ setting.flag ++ "' cannot be used more than once"
  | notANumber text => "'" ++ text ++ "' is not a call depth"
  | extraArgument text => "unexpected argument '" ++ text ++ "'"
  | missingMainClass => "the main class is missing"

/-- The options by their long names. -/
def longNames : List (String × (Setting ⊕ Switch)) :=
  [("classpath", .inl .classPath), ("cp", .inl .classPath), ("max-depth", .inl .maxDepth),
    ("verbose", .inr .verbose), ("help", .inr .help), ("version", .inr .version)]

/-- The options by their letters. -/
def letters : List (Char × (Setting ⊕ Switch)) :=
  [('c', .inl .classPath), ('v', .inr .verbose), ('h', .inr .help), ('V', .inr .version)]

/-- One more than the greatest call depth. -/
def depthBound : Nat := 18446744073709551616

def digit? (c : Char) : Option Nat :=
  if '0' ≤ c ∧ c ≤ '9' then some (c.toNat - 48) else none

def digits? : Nat → List Char → Option Nat
  | value, [] => some value
  | value, c :: cs =>
    match digit? c with
    | some d => digits? (value * 10 + d) cs
    | none => none

/-- A decimal number below the bound, with a plus sign or without. -/
def depth? (text : String) : Option Nat :=
  let cs :=
    match text.toList with
    | '+' :: cs => cs
    | cs => cs
  if cs = [] then none else (digits? 0 cs).filter (· < depthBound)

/-- Gives a setting its value; each can be given once. -/
def set (g : Given) (setting : Setting) (value : String) : Except Stop Given :=
  match setting with
  | .classPath =>
    if g.classPath.isSome then .error (.misuse (.repeated .classPath))
    else .ok { g with classPath := some value }
  | .maxDepth =>
    if g.maxDepth.isSome then .error (.misuse (.repeated .maxDepth))
    else
      match depth? value with
      | some depth => .ok { g with maxDepth := some depth }
      | none => .error (.misuse (.notANumber value))

/-- Help and version end the reading of arguments at once. -/
def turnOn (g : Given) : Switch → Except Stop Given
  | .verbose => .ok { g with verbosity := g.verbosity + 1 }
  | .help => .error .help
  | .version => .error .version

/-- An option by its long name. The second part of the answer is a setting that waits for its
value. -/
def long (g : Given) (text : String) : Except Stop (Given × Option Setting) :=
  let (name, value) := (text.toList.drop 2).span (· ≠ '=')
  match longNames.lookup (String.ofList name), value with
  | some (.inl setting), [] => .ok (g, some setting)
  | some (.inl setting), _ :: value => (set g setting (String.ofList value)).map (·, none)
  | some (.inr switch), [] => (turnOn g switch).map (·, none)
  | some (.inr _), _ :: _ => .error (.misuse (.unneededValue text))
  | none, _ => .error (.misuse (.unknownOption text))

/-- Options by their letters. One that takes a value takes the letters after it, less an equals sign
in front of them. -/
def short (g : Given) (text : String) : List Char → Except Stop (Given × Option Setting)
  | [] => .ok (g, none)
  | c :: cs =>
    match letters.lookup c with
    | none => .error (.misuse (.unknownOption text))
    | some (.inr switch) => do
      let g ← turnOn g switch
      short g text cs
    | some (.inl setting) =>
      match cs with
      | [] => .ok (g, some setting)
      | '=' :: value | value => (set g setting (String.ofList value)).map (·, none)

def positional (g : Given) (text : String) : Except Stop Given :=
  if g.mainClass.isSome then .error (.misuse (.extraArgument text))
  else .ok { g with mainClass := some text }

/-- Reads arguments from left to right; the first thing that stops the reading counts. -/
def scan (g : Given) : Option Setting → List String → Except Stop Given
  | none, [] => .ok g
  | some setting, [] => .error (.misuse (.missingValue setting))
  | waiting, text :: rest =>
    match waiting, text.toList with
    | some setting, '-' :: _ :: _ => .error (.misuse (.missingValue setting))
    | some setting, _ => do
      let g ← set g setting text
      scan g none rest
    | none, ['-', '-'] => rest.foldlM positional g
    | none, '-' :: '-' :: _ => do
      let (g, waiting) ← long g text
      scan g waiting rest
    | none, '-' :: c :: cs => do
      let (g, waiting) ← short g text (c :: cs)
      scan g waiting rest
    | none, _ => do
      let g ← positional g text
      scan g none rest

def parse (texts : List String) : Except Stop Arguments := do
  let g ← scan ⟨none, none, none, 0⟩ none texts
  match g.mainClass with
  | none => .error (.misuse .missingMainClass)
  | some mainClass => .ok ⟨mainClass, g.classPath, g.maxDepth, g.verbosity⟩

end ClassVM.CommandLine
