import ClassVM.ClassFile.Basic
import ClassVM.Code.Method

namespace ClassVM

/-- A class; its name and that of its super class are in internal form. -/
structure LoadedClass where
  name : String
  superName : Option String
  pool : ConstantPool
  methods : List Method

namespace LoadedClass

/-- The first method with this name. -/
def method? (c : LoadedClass) (name : String) : Option Method :=
  c.methods.find? fun m => m.name = name

/-- The first method with this name and descriptor. -/
def findMethod? (c : LoadedClass) (name descriptor : String) : Option Method :=
  c.methods.find? fun m => m.name = name && m.descriptor = descriptor

/-- The position of the method that `findMethod?` finds, or `method?` if no descriptor is given. -/
def position? (c : LoadedClass) (name : String) (descriptor : Option String) : Option Nat :=
  c.methods.findIdx? fun m => m.name = name && descriptor.all (m.descriptor = ·)

end LoadedClass

/-- The method that a member of a class file describes; it has a body if it has a code attribute. -/
def Member.toMethod (pool : ConstantPool) (member : Member) : Except FormatError Method := do
  let name ← FormatError.ofLookup (pool.utf8 member.name)
  let descriptor ← FormatError.ofLookup (pool.utf8 member.descriptor)
  match member.attributes.find? "Code" with
  | some (.code maxStack maxLocals code _ _) =>
    Method.ofCode name descriptor member.flags maxStack maxLocals code
  | _ => Method.withoutCode name descriptor member.flags

/-- The class that a class file defines. Its methods are looked at in order, then its name, then that
of its super class. -/
def ClassFile.toClass (file : ClassFile) : Except FormatError LoadedClass := do
  let methods ← file.methods.mapM (Member.toMethod file.pool)
  let name ← FormatError.ofLookup file.className
  let superName ← FormatError.ofLookup file.superName
  return ⟨name, superName, file.pool, methods⟩

end ClassVM
