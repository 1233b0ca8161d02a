namespace ClassVM

/-- A constant. Indices refer to other slots of the same pool; a float or double is kept as the
bits of its IEEE 754 form. -/
inductive Constant where
  | utf8 (text : String)
  | integer (value : Int32)
  | float (bits : UInt32)
  | long (value : Int64)
  | double (bits : UInt64)
  | classInfo (name : UInt16)
  | string (text : UInt16)
  | field (owner nameAndType : UInt16)
  | method (owner nameAndType : UInt16)
  | interfaceMethod (owner nameAndType : UInt16)
  | nameAndType (name descriptor : UInt16)
  | methodHandle (kind : UInt8) (reference : UInt16)
  | methodType (descriptor : UInt16)
  | dynamic (bootstrap nameAndType : UInt16)
  | invokeDynamic (bootstrap nameAndType : UInt16)
  | module (name : UInt16)
  | package (name : UInt16)
  deriving DecidableEq, Repr

/-- Longs and doubles take two slots. -/
def Constant.isWide : Constant → Bool
  | .long _ | .double _ => true
  | _ => false

/-- A constant pool. `entries` starts with slot 1; an entry without a constant is unusable. -/
structure ConstantPool where
  entries : Array (Option Constant)
  deriving DecidableEq, Repr

namespace ConstantPool

/-- The number of slots, slot 0 included. -/
def size (pool : ConstantPool) : Nat := pool.entries.size + 1

/-- Whether the pool has slot 0 only. -/
def isEmpty (pool : ConstantPool) : Bool := pool.entries.isEmpty

/-- What a slot holds: `none` past the end, `some none` for an unusable slot. -/
def slot? (pool : ConstantPool) (index : UInt16) : Option (Option Constant) :=
  match index.toNat with
  | 0 => some none
  | i + 1 => pool.entries[i]?

/-- The constant in a slot, if the slot exists and holds one. -/
def constant? (pool : ConstantPool) (index : UInt16) : Option Constant :=
  (pool.slot? index).join

end ConstantPool
end ClassVM
