import ClassVM.Pool.Constant

namespace ClassVM

/-- What a slot was expected to hold. -/
inductive Expected where
  | utf8
  | classInfo
  | nameAndType
  | method
  | field
  | integer
  | loadable
  deriving DecidableEq, Repr

def Expected.name : Expected → String
  | .utf8 => "Utf8"
  | .classInfo => "Class"
  | .nameAndType => "NameAndType"
  | .method => "Methodref"
  | .field => "Fieldref"
  | .integer => "Integer"
  | .loadable => "loadable constant"

/-- The slot at `index` does not exist or does not hold what was expected. -/
structure PoolError where
  index : UInt16
  expected : Expected
  deriving DecidableEq, Repr

def PoolError.message (e : PoolError) : String :=
  "constant pool entry #" ++ toString e.index.toNat ++ " is not a valid " ++ e.expected.name

/-- A field or method named by class, name and descriptor; the class name is in internal form. -/
structure MemberRef where
  className : String
  name : String
  descriptor : String
  deriving DecidableEq, Repr

def MemberRef.text (ref : MemberRef) : String :=
  ref.className ++ "." ++ ref.name ++ ":" ++ ref.descriptor

namespace ConstantPool

def utf8 (pool : ConstantPool) (index : UInt16) : Except PoolError String :=
  match pool.constant? index with
  | some (.utf8 text) => .ok text
  | _ => .error ⟨index, .utf8⟩

/-- The internal name in a class constant. -/
def className (pool : ConstantPool) (index : UInt16) : Except PoolError String :=
  match pool.constant? index with
  | some (.classInfo name) => pool.utf8 name
  | _ => .error ⟨index, .classInfo⟩

/-- The name and the descriptor in a name-and-type constant; the name is looked at first. -/
def nameAndType (pool : ConstantPool) (index : UInt16) : Except PoolError (String × String) :=
  match pool.constant? index with
  | some (.nameAndType name descriptor) => do
    let name ← pool.utf8 name
    let descriptor ← pool.utf8 descriptor
    return (name, descriptor)
  | _ => .error ⟨index, .nameAndType⟩

/-- The member with this owner and name-and-type; the owner is looked at first. -/
def member (pool : ConstantPool) (owner nameAndType : UInt16) : Except PoolError MemberRef := do
  let className ← pool.className owner
  let (name, descriptor) ← pool.nameAndType nameAndType
  return ⟨className, name, descriptor⟩

/-- The method a slot refers to, of a class or of an interface. -/
def methodRef (pool : ConstantPool) (index : UInt16) : Except PoolError MemberRef :=
  match pool.constant? index with
  | some (.method owner nameAndType) | some (.interfaceMethod owner nameAndType) =>
    pool.member owner nameAndType
  | _ => .error ⟨index, .method⟩

def fieldRef (pool : ConstantPool) (index : UInt16) : Except PoolError MemberRef :=
  match pool.constant? index with
  | some (.field owner nameAndType) => pool.member owner nameAndType
  | _ => .error ⟨index, .field⟩

def integer (pool : ConstantPool) (index : UInt16) : Except PoolError Int32 :=
  match pool.constant? index with
  | some (.integer value) => .ok value
  | _ => .error ⟨index, .integer⟩

end ConstantPool
end ClassVM
