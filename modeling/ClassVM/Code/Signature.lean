import ClassVM.Fault.FormatError

namespace ClassVM

inductive BaseType where
  | byte | char | double | float | int | long | short | boolean
  deriving DecidableEq, Repr

def BaseType.letter : BaseType → Char
  | .byte => 'B'
  | .char => 'C'
  | .double => 'D'
  | .float => 'F'
  | .int => 'I'
  | .long => 'J'
  | .short => 'S'
  | .boolean => 'Z'

def BaseType.ofLetter? : Char → Option BaseType
  | 'B' => some .byte
  | 'C' => some .char
  | 'D' => some .double
  | 'F' => some .float
  | 'I' => some .int
  | 'J' => some .long
  | 'S' => some .short
  | 'Z' => some .boolean
  | _ => none

theorem BaseType.ofLetter?_letter (b : BaseType) : ofLetter? b.letter = some b := by
  cases b <;> rfl

/-- The type of a field or of an argument; the name of a referenced class is in internal form. -/
inductive FieldType where
  | base (kind : BaseType)
  | reference (className : String)
  | array (component : FieldType)
  deriving DecidableEq, Repr

namespace FieldType

/-- The array type with `dimensions` dimensions over `t`. -/
def arrayOf : Nat → FieldType → FieldType
  | 0, t => t
  | dimensions + 1, t => arrayOf dimensions (.array t)

def chars : FieldType → List Char
  | base kind => [kind.letter]
  | reference name => 'L' :: (name.toList ++ [';'])
  | array component => '[' :: component.chars

/-- Where reading stands: before a type with some dimensions read, or inside a class name, whose
characters so far are reversed. -/
inductive Place where
  | before (dimensions : Nat)
  | inside (dimensions : Nat) (name : List Char)

/-- Reads types to the end of the text; `found` holds those before, newest first. A class name is
not empty and ends at the first semicolon. -/
def listOfCharsOnto : Place → List FieldType → List Char → Option (List FieldType)
  | .before 0, found, [] => some found.reverse
  | .before (_ + 1), _, [] => none
  | .inside _ _, _, [] => none
  | .before dimensions, found, c :: rest =>
    if c = '[' then listOfCharsOnto (.before (dimensions + 1)) found rest
    else if c = 'L' then listOfCharsOnto (.inside dimensions []) found rest
    else
      match BaseType.ofLetter? c with
      | some kind => listOfCharsOnto (.before 0) (arrayOf dimensions (.base kind) :: found) rest
      | none => none
  | .inside dimensions name, found, c :: rest =>
    if c = ';' then
      if name = [] then none
      else
        let t := reference (String.ofList name.reverse)
        listOfCharsOnto (.before 0) (arrayOf dimensions t :: found) rest
    else listOfCharsOnto (.inside dimensions (c :: name)) found rest

/-- The types that a text lists without separators. -/
def listOfChars? (cs : List Char) : Option (List FieldType) := listOfCharsOnto (.before 0) [] cs

/-- The one type that a text is. -/
def ofChars? (cs : List Char) : Option FieldType :=
  match listOfChars? cs with
  | some [t] => some t
  | _ => none

end FieldType

/-- Argument types and result type; a method without a result has `none`. -/
structure Signature where
  arguments : List FieldType
  result : Option FieldType
  deriving DecidableEq, Repr

namespace Signature

def chars (s : Signature) : List Char :=
  '(' :: (s.arguments.flatMap FieldType.chars ++ ')' :: (s.result.map FieldType.chars).getD ['V'])

def text (s : Signature) : String := String.ofList s.chars

def resultOfChars? (cs : List Char) : Option (Option FieldType) :=
  if cs = ['V'] then some none else (FieldType.ofChars? cs).map some

/-- The arguments end at the first closing parenthesis; what follows it is not empty and has no
line break. -/
def ofChars? : List Char → Option Signature
  | '(' :: cs =>
    match cs.span (· ≠ ')') with
    | (arguments, ')' :: result) =>
      if '\n' ∈ result then none
      else do
        let arguments ← FieldType.listOfChars? arguments
        let result ← resultOfChars? result
        return ⟨arguments, result⟩
    | _ => none
  | _ => none

def parse (text : String) : Except FormatError Signature :=
  match ofChars? text.toList with
  | some s => .ok s
  | none => .error (.malformedDescriptor text)

end Signature
end ClassVM
