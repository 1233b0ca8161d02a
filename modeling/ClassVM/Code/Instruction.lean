namespace ClassVM

/-- The operators on two ints. -/
inductive Operator where
  | add | sub | mul | div | rem
  deriving DecidableEq, Repr

/-- The comparisons a branch can make. -/
inductive Condition where
  | eq | ne | lt | ge | gt | le
  deriving DecidableEq, Repr

/-- Whether the comparison holds of `left` and `right`, in this order. -/
def Condition.holds (c : Condition) (left right : Int32) : Bool :=
  match c with
  | .eq => left == right
  | .ne => left != right
  | .lt => decide (left < right)
  | .ge => !decide (left < right)
  | .gt => decide (right < left)
  | .le => !decide (right < left)

/-- An operation. Indices are slots of the class's constant pool, targets are byte offsets into the
code array, and `slot` is a local variable. -/
inductive Op where
  | nop
  | push (value : Int32)
  | loadConstant (index : UInt16)
  | load (slot : UInt16)
  | store (slot : UInt16)
  | increment (slot : UInt16) (delta : Int32)
  | arithmetic (operator : Operator)
  | negate
  | pop
  | duplicate
  | branchIf (condition : Condition) (target : Nat)
  | branchCompare (condition : Condition) (target : Nat)
  | jump (target : Nat)
  | getStatic (index : UInt16)
  | invokeVirtual (index : UInt16)
  | invokeStatic (index : UInt16)
  | returnValue
  | returnVoid
  | unsupported
  deriving DecidableEq, Repr

end ClassVM
