import ClassVM.Binary.Reader
import ClassVM.Pool.Lookup

namespace ClassVM

/-- A range of code, the code that handles what is thrown there, and the class it handles. -/
structure Handler where
  start : UInt16
  stop : UInt16
  code : UInt16
  caught : UInt16
  deriving DecidableEq, Repr

/-- An attribute. Of those whose name is not known only the bytes are kept. Attributes that belong to
another are listed newest first, each with its name. -/
inductive Attribute where
  | code (maxStack maxLocals : UInt16) (code : Bytes) (handlers : List Handler)
      (attributes : List (String × Attribute))
  | constantValue (index : UInt16)
  | sourceFile (index : UInt16)
  | other (info : Bytes)

/-- Attributes by name, newest first, so that of two with one name the later one counts. -/
abbrev AttributeTable := List (String × Attribute)

def AttributeTable.find? (table : AttributeTable) (name : String) : Option Attribute :=
  table.lookup name

/-- A field or a method. -/
structure Member where
  flags : UInt16
  name : UInt16
  descriptor : UInt16
  attributes : AttributeTable

structure ClassFile where
  minor : UInt16
  major : UInt16
  pool : ConstantPool
  flags : UInt16
  thisClass : UInt16
  superClass : UInt16
  interfaces : List UInt16
  fields : List Member
  methods : List Member
  attributes : AttributeTable

namespace ClassFile

/-- The internal name of the class. -/
def className (file : ClassFile) : Except PoolError String := file.pool.className file.thisClass

/-- The internal name of the super class; index 0 stands for none. -/
def superName (file : ClassFile) : Except PoolError (Option String) :=
  if file.superClass = 0 then .ok none
  else (file.pool.className file.superClass).map some

end ClassFile
end ClassVM
