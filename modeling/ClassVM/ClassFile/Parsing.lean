import ClassVM.ClassFile.Basic
import ClassVM.Pool.Section

namespace ClassVM
open Binary Reader

namespace Attribute

def readHandler : FileParser Handler := do
  let start ← inFile u16
  let stop ← inFile u16
  let code ← inFile u16
  let caught ← inFile u16
  return ⟨start, stop, code, caught⟩

/-- The parts of a code attribute; `nested` reads the attributes in it. -/
def readCode (nested : FileParser AttributeTable) : FileParser Attribute := do
  let maxStack ← inFile u16
  let maxLocals ← inFile u16
  let length ← inFile u32
  let code ← inFile (bytes length.toNat)
  let count ← inFile u16
  let handlers ← Parser.many count.toNat readHandler
  let attributes ← nested
  return .code maxStack maxLocals code handlers attributes

/-- The attribute called `name` whose bytes are `info`. -/
def ofInfo (nested : FileParser AttributeTable) (name : String) (info : Bytes) :
    Except FormatError Attribute :=
  if name = "Code" then (readCode nested info).map Prod.fst
  else if name = "ConstantValue" then (inFile u16 info).map fun r => .constantValue r.1
  else if name = "SourceFile" then (inFile u16 info).map fun r => .sourceFile r.1
  else .ok (.other info)

/-- A name, a length, and so many bytes. The name is looked up before the length is read. -/
def read (pool : ConstantPool) (nested : FileParser AttributeTable) :
    FileParser (String × Attribute) := do
  let index ← inFile u16
  let name ← FormatError.ofLookup (pool.utf8 index)
  let length ← inFile u32
  let info ← inFile (bytes length.toNat)
  let value ← ofInfo nested name info
  return (name, value)

end Attribute

namespace AttributeTable

/-- A count and so many attributes. -/
def readWith (pool : ConstantPool) (nested : FileParser AttributeTable) :
    FileParser AttributeTable := do
  let count ← inFile u16
  let attributes ← Parser.many count.toNat (Attribute.read pool nested)
  return attributes.reverse

/-- A table in which tables are nested `depth` deep at most. -/
def read (pool : ConstantPool) : Nat → FileParser AttributeTable
  | 0, s => readWith pool (fun _ => .error .truncated) s
  | depth + 1, s => readWith pool (fun info => read pool depth info) s

end AttributeTable

namespace ClassFile

/-- The least number of bytes by which a table is shorter than the one it is nested in: ten of the
code attribute around it, two for its count, and six before its first attribute's bytes. -/
def nestingCost : Nat := 18

def readMember (tables : FileParser AttributeTable) : FileParser Member := do
  let flags ← inFile u16
  let name ← inFile u16
  let descriptor ← inFile u16
  let attributes ← tables
  return ⟨flags, name, descriptor, attributes⟩

/-- A count and so many fields or methods. -/
def readMembers (tables : FileParser AttributeTable) : FileParser (List Member) := do
  let count ← inFile u16
  Parser.many count.toNat (readMember tables)

def magic : UInt32 := 0xcafebabe

def readMagic : FileParser Unit := do
  let found ← inFile u32
  if found = magic then pure () else throw (.badMagic found)

/-- A class file; `tables` reads the tables of attributes in it. -/
def read (tables : ConstantPool → FileParser AttributeTable) : FileParser ClassFile := do
  readMagic
  let minor ← inFile u16
  let major ← inFile u16
  let pool ← ConstantPool.read
  let flags ← inFile u16
  let thisClass ← inFile u16
  let superClass ← inFile u16
  let count ← inFile u16
  let interfaces ← Parser.many count.toNat (inFile u16)
  let fields ← readMembers (tables pool)
  let methods ← readMembers (tables pool)
  let attributes ← tables pool
  return { minor, major, pool, flags, thisClass, superClass, interfaces, fields, methods, attributes }

/-- The class file at the front of `bytes`. No table can be nested deeper than the bytes allow, so
the bound refuses nothing. -/
def parse (bytes : Bytes) : Except FormatError ClassFile :=
  let depth := bytes.length / nestingCost
  (read (fun pool => AttributeTable.read pool depth) bytes).map Prod.fst

end ClassFile
end ClassVM
