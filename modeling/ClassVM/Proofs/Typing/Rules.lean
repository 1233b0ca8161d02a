import ClassVM.Machine.Run

namespace ClassVM

def Value.kind : Value → ValueKind
  | .int _ => .int
  | .printStream => .printStream

/-- What is known of the values of an invocation: the kinds on the operand stack, its top first, and
local variables that hold an int. -/
structure Shape where
  operands : List ValueKind
  slots : List Nat

def Shape.push (s : Shape) (k : ValueKind) : Shape := ⟨k :: s.operands, s.slots⟩

/-- The shapes before the instructions of a method, and the kind of the value that the method hands
to its caller, if it does. -/
structure Typing where
  shape : Nat → Shape
  result : Option ValueKind

namespace Typing
variable (T : Typing) (method : Method)

/-- Values of shape `t` are what `position` expects. Of the known slots some may be forgotten. -/
def Admits (position : Nat) (t : Shape) : Prop :=
  (T.shape position).operands = t.operands ∧ (T.shape position).slots ⊆ t.slots

/-- There is a next position, and it expects values of shape `t`. -/
def Falls (position : Nat) (t : Shape) : Prop :=
  position + 1 < method.instructions.size ∧ T.Admits (position + 1) t

/-- An instruction starts at offset `target`, and its position expects values of shape `t`. -/
def Lands (target : Nat) (t : Shape) : Prop :=
  ∃ position i, method.instructions[position]? = some i ∧ i.pc = target ∧ T.Admits position t

end Typing

section rules
variable (loader : Loader) (typings : LoadedClass → Method → Typing)

/-- A call of `ref` from values of shape `s`: the loader finds a method with code, the stack holds its
arguments, with an int where it relies on one, and the next position expects the result. -/
def Calls (owner : LoadedClass) (method : Method) (position : Nat) (s : Shape) (ref : MemberRef) :
    Prop :=
  ∀ request, ∃ callee called,
    (loader.find request (ClassName.internal ref.className)).answer = .ok (some callee) ∧
    callee.findMethod? ref.name ref.descriptor = some called ∧ called.body.isSome ∧
    called.parameterCount ≤ s.operands.length ∧
    (∀ slot ∈ ((typings callee called).shape 0).slots,
      (s.operands.take called.parameterCount).reverse[slot]? = some .int) ∧
    (typings owner method).Falls method position
      ⟨(typings callee called).result.toList ++ s.operands.drop called.parameterCount, s.slots⟩

/-- The operation at a position finds the values it needs, and all positions that it can lead to
expect what it makes of them. -/
def Accepts (owner : LoadedClass) (method : Method) (position : Nat) (op : Op) : Prop :=
  let T := typings owner method
  let s := T.shape position
  match op with
  | .nop => T.Falls method position s
  | .push _ => T.Falls method position (s.push .int)
  | .loadConstant index =>
    (∃ value, owner.pool.constant? index = some (.integer value)) ∧
      T.Falls method position (s.push .int)
  | .load slot => slot.toNat ∈ s.slots ∧ T.Falls method position (s.push .int)
  | .store slot =>
    slot.toNat < method.maxLocals.toNat ∧
      ∃ rest, s.operands = .int :: rest ∧ T.Falls method position ⟨rest, slot.toNat :: s.slots⟩
  | .increment slot _ => slot.toNat ∈ s.slots ∧ T.Falls method position s
  | .arithmetic _ =>
    ∃ rest, s.operands = .int :: .int :: rest ∧ T.Falls method position ⟨.int :: rest, s.slots⟩
  | .negate => ∃ rest, s.operands = .int :: rest ∧ T.Falls method position s
  | .pop => ∃ k rest, s.operands = k :: rest ∧ T.Falls method position ⟨rest, s.slots⟩
  | .duplicate => ∃ k rest, s.operands = k :: rest ∧ T.Falls method position (s.push k)
  | .branchIf _ target =>
    ∃ rest, s.operands = .int :: rest ∧
      T.Falls method position ⟨rest, s.slots⟩ ∧ T.Lands method target ⟨rest, s.slots⟩
  | .branchCompare _ target =>
    ∃ rest, s.operands = .int :: .int :: rest ∧
      T.Falls method position ⟨rest, s.slots⟩ ∧ T.Lands method target ⟨rest, s.slots⟩
  | .jump target => T.Lands method target s
  | .getStatic index =>
    ∃ ref, owner.pool.fieldRef index = .ok ref ∧ Library.staticField? ref = some .printStream ∧
      T.Falls method position (s.push .printStream)
  | .invokeVirtual index =>
    ∃ ref call rest, owner.pool.methodRef index = .ok ref ∧ PrintCall.ofRef? ref = some call ∧
      s.operands = (if call.arity = 0 then [] else [.int]) ++ .printStream :: rest ∧
      T.Falls method position ⟨rest, s.slots⟩
  | .invokeStatic index =>
    ∃ ref, owner.pool.methodRef index = .ok ref ∧
      Calls loader typings owner method position s ref
  | .returnValue => ∃ k rest, s.operands = k :: rest ∧ T.result = some k
  | .returnVoid => T.result = none
  | .unsupported => False

/-- The typing of a method holds: it begins with an empty stack and knows of no slot but those of
parameters, all known slots exist, and every instruction is accepted. -/
structure Checks (owner : LoadedClass) (method : Method) : Prop where
  operands : ((typings owner method).shape 0).operands = []
  parameters : ∀ slot ∈ ((typings owner method).shape 0).slots, slot < method.parameterCount
  slots : ∀ position < method.instructions.size,
    ∀ slot ∈ ((typings owner method).shape position).slots, slot < method.maxLocals.toNat
  accepts : ∀ position i, method.instructions[position]? = some i →
    Accepts loader typings owner method position i.op

/-- The methods with code that a run can invoke, whatever it computes. -/
inductive Invocable (mainClass : String) : LoadedClass → Method → Prop where
  | main {request : Nat} {owner : LoadedClass} {method : Method}
    (found : (loader.find request (ClassName.internal mainClass)).answer = .ok (some owner))
    (named : owner.method? "main" = some method) (code : method.body.isSome) :
    Invocable mainClass owner method
  | call {request : Nat} {owner callee : LoadedClass} {method called : Method} {i : Instruction}
    {index : UInt16} {ref : MemberRef} (caller : Invocable mainClass owner method)
    (mem : i ∈ method.instructions) (op : i.op = .invokeStatic index)
    (resolved : owner.pool.methodRef index = .ok ref)
    (found : (loader.find request (ClassName.internal ref.className)).answer = .ok (some callee))
    (named : callee.findMethod? ref.name ref.descriptor = some called) (code : called.body.isSome) :
    Invocable mainClass callee called

/-- A typing of a whole program: it holds of every method that can be invoked, and `main`, whose
argument is left unset, relies on no slot. -/
structure WellTyped (mainClass : String) : Prop where
  checks : ∀ owner method, Invocable loader mainClass owner method →
    Checks loader typings owner method
  main : ∀ request owner method,
    (loader.find request (ClassName.internal mainClass)).answer = .ok (some owner) →
    owner.method? "main" = some method → ((typings owner method).shape 0).slots = []

end rules
end ClassVM
