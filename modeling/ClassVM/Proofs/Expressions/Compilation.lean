import ClassVM.Proofs.Assembly.Respelling
import ClassVM.Proofs.Machine.Effect
import ClassVM.Proofs.Programs.Basic
import Mathlib.Data.List.Forall2

namespace ClassVM
open Binary

/-- The number in the range of an int that differs by a multiple of 2^32. -/
def wrap (n : Int) : Int := n.bmod UInt32.size

/-- What an operator makes of two numbers, if it does not divide by zero. Quotients are rounded toward
zero, and the remainder is what is left then; it never leaves the range. -/
def Operator.value? (operator : Operator) (left right : Int) : Option Int :=
  match operator with
  | .add => some (wrap (left + right))
  | .sub => some (wrap (left - right))
  | .mul => some (wrap (left * right))
  | .div => if right = 0 then none else some (wrap (left.tdiv right))
  | .rem => if right = 0 then none else some (left.tmod right)

/-- An expression over constants and local variables. -/
inductive Expression where
  | constant (value : Int32)
  | load (slot : UInt16)
  | negate (operand : Expression)
  | binary (operator : Operator) (left right : Expression)

namespace Expression

/-- The value of the expression when the variables have these, if there is no division by zero. -/
def value? (vars : UInt16 → Int32) : Expression → Option Int
  | constant value => some value.toInt
  | load slot => some (vars slot).toInt
  | negate operand => do
    let n ← operand.value? vars
    return wrap (-n)
  | binary operator left right => do
    let a ← left.value? vars
    let b ← right.value? vars
    operator.value? a b

/-- The variables that are read. -/
def slots : Expression → List UInt16
  | constant _ => []
  | load slot => [slot]
  | negate operand => operand.slots
  | binary _ left right => left.slots ++ right.slots

/-- The expression and its parts in the order in which they are computed. -/
def postorder : Expression → List Expression
  | constant value => [constant value]
  | load slot => [load slot]
  | negate operand => operand.postorder ++ [negate operand]
  | binary operator left right =>
    left.postorder ++ right.postorder ++ [binary operator left right]

/-- A division or remainder whose right operand has the value zero. -/
def dividesByZero (vars : UInt16 → Int32) : Expression → Bool
  | binary .div _ right | binary .rem _ right => right.value? vars = some 0
  | _ => false

/-- The position in post-order of the first division by zero. -/
def fault? (vars : UInt16 → Int32) (e : Expression) : Option Nat :=
  e.postorder.findIdx? (dividesByZero vars)

end Expression

namespace Operator

def opcode : Operator → Opcode
  | add => .ofByte 0x60
  | sub => .ofByte 0x64
  | mul => .ofByte 0x68
  | div => .ofByte 0x6c
  | rem => .ofByte 0x70

/-- Ints are computed with as the numbers they stand for. -/
theorem apply_of_value? {operator : Operator} {left right : Int32} {n : Int}
    (h : operator.value? left.toInt right.toInt = some n) :
    ∃ value : Int32, operator.apply left right = .ok value ∧ value.toInt = n := by
  have hzero : right.toInt ≠ 0 → right ≠ 0 := by
    rintro hne rfl
    exact hne rfl
  cases operator with
  | add => exact ⟨left + right, rfl, (Int32.toInt_add ..).trans (Option.some.inj h)⟩
  | sub => exact ⟨left - right, rfl, (Int32.toInt_sub ..).trans (Option.some.inj h)⟩
  | mul => exact ⟨left * right, rfl, (Int32.toInt_mul ..).trans (Option.some.inj h)⟩
  | div =>
    rw [value?] at h
    split at h
    next => cases h
    next hne =>
      exact ⟨left / right, if_neg (hzero hne), (Int32.toInt_div ..).trans (Option.some.inj h)⟩
  | rem =>
    rw [value?] at h
    split at h
    next => cases h
    next hne =>
      exact ⟨left % right, if_neg (hzero hne), (Int32.toInt_mod ..).trans (Option.some.inj h)⟩

theorem apply_of_value?_eq_none {operator : Operator} {left right : Int32}
    (h : operator.value? left.toInt right.toInt = none) :
    operator.apply left right = .error .divisionByZero := by
  have hzero : right.toInt = 0 → right = 0 := fun hright => Int32.toInt_inj.mp hright
  cases operator with
  | add | sub | mul => cases h
  | div | rem =>
    rw [value?] at h
    split at h
    next hright => exact if_pos (hzero hright)
    next => cases h

end Operator

namespace Item

/-- The instructions that push a constant: `iconst`, `bipush` and `sipush` if it is small enough, and
`ldc` and `ldc_w` of a slot that holds it. -/
inductive Pushes (pool : ConstantPool) (value : Int32) : Item → Prop where
  | iconst (opcode : Opcode) (hsmall : -1 ≤ value.toInt ∧ value.toInt ≤ 5)
    (hopcode : opcode.byte.toNat = 3 + value.toInt) : Pushes pool value (plain opcode [])
  | bipush (operand : Bytes) (hsize : operand.length = 1) (hoperand : signed operand = value.toInt) :
    Pushes pool value (plain (.ofByte 0x10) operand)
  | sipush (operand : Bytes) (hsize : operand.length = 2) (hoperand : signed operand = value.toInt) :
    Pushes pool value (plain (.ofByte 0x11) operand)
  | ldc (index : UInt8) (hindex : pool.constant? index.toUInt16 = some (.integer value)) :
    Pushes pool value (plain (.ofByte 0x12) [index])
  | ldcWide (index : UInt16) (hindex : pool.constant? index = some (.integer value)) :
    Pushes pool value (plain (.ofByte 0x13) (octets 2 index.toNat))

/-- The instructions that load a variable: `iload_0` to `iload_3`, `iload`, and `iload` after `wide`. -/
inductive Loads (slot : UInt16) : Item → Prop where
  | short (opcode : Opcode) (hslot : slot.toNat < 4)
    (hopcode : opcode.byte.toNat = 0x1a + slot.toNat) : Loads slot (plain opcode [])
  | narrow (index : UInt8) (hindex : slot = index.toUInt16) :
    Loads slot (plain (.ofByte 0x15) [index])
  | wide : Loads slot (wideSlot (.ofByte 0x15) slot)

def negation : Item := plain (.ofByte 0x74) []

def operation (operator : Operator) : Item := plain operator.opcode []

/-- The code of an expression in a class with this pool, in any of the forms that its constants and
variables may take. -/
inductive Compiled (pool : ConstantPool) : Expression → List Item → Prop where
  | constant {value : Int32} {x : Item} (h : x.Pushes pool value) :
    Compiled pool (.constant value) [x]
  | load {slot : UInt16} {x : Item} (h : x.Loads slot) : Compiled pool (.load slot) [x]
  | negate {operand : Expression} {xs : List Item} (h : Compiled pool operand xs) :
    Compiled pool (.negate operand) (xs ++ [negation])
  | binary (operator : Operator) {left right : Expression} {xs ys : List Item}
    (hleft : Compiled pool left xs) (hright : Compiled pool right ys) :
    Compiled pool (.binary operator left right) (xs ++ ys ++ [operation operator])

theorem meaning_of_iconst {byte : Nat} (h : 2 ≤ byte ∧ byte ≤ 8) :
    Opcode.meaning byte = .fixed (.push (.ofInt (byte - 3))) := by
  obtain rfl | rfl | rfl | rfl | rfl | rfl | rfl : byte = 2 ∨ byte = 3 ∨ byte = 4 ∨ byte = 5 ∨
    byte = 6 ∨ byte = 7 ∨ byte = 8 := by omega
  all_goals rfl

theorem meaning_of_iload {slot : Nat} (h : slot < 4) :
    Opcode.meaning (0x1a + slot) = .fixed (.load (.ofNat slot)) := by
  obtain rfl | rfl | rfl | rfl : slot = 0 ∨ slot = 1 ∨ slot = 2 ∨ slot = 3 := by omega
  all_goals rfl

theorem ofNat_bigEndian_singleton (b : UInt8) : UInt16.ofNat (bigEndian [b]) = b.toUInt16 := by
  rw [← toUInt16_ofNat rfl]
  simp [bigEndian, place]

theorem ofNat_bigEndian_octets (n : UInt16) :
    UInt16.ofNat (bigEndian (octets 2 n.toNat)) = n := by
  rw [bigEndian_octets 2 n.toNat (u16_lt_place n), UInt16.ofNat_toNat]

/-- The instruction for the last step of an expression, when its operands are on the stack. -/
inductive Computes (pool : ConstantPool) : Expression → Item → Prop where
  | constant {value : Int32} {x : Item} (h : x.Pushes pool value) :
    Computes pool (.constant value) x
  | load {slot : UInt16} {x : Item} (h : x.Loads slot) : Computes pool (.load slot) x
  | negate (operand : Expression) : Computes pool (.negate operand) negation
  | binary (operator : Operator) (left right : Expression) :
    Computes pool (.binary operator left right) (operation operator)

section execute
variable {pool : ConstantPool} {x : Item} {stack : List Value} {locals : Array (Option Value)}

theorem Pushes.execute {value : Int32} (h : x.Pushes pool value) (pc : Nat) :
    (x.instruction pc).execute pool ⟨stack, locals⟩ =
      (.ok .next, ⟨.int value :: stack, locals⟩) := by
  cases h with
  | iconst opcode hsmall hopcode =>
    apply Instruction.execute_push
    change (Opcode.meaning opcode.byte.toNat).op pc [] = .push value
    have hvalue : (opcode.byte.toNat : Int) - 3 = value.toInt := by omega
    rw [meaning_of_iconst (by omega), hvalue, Int32.ofInt_toInt]
    rfl
  | bipush operand hsize hoperand | sipush operand hsize hoperand =>
    apply Instruction.execute_push
    change Op.push (.ofInt (signed operand)) = .push value
    rw [hoperand, Int32.ofInt_toInt]
  | ldc index hindex =>
    rw [← ofNat_bigEndian_singleton] at hindex
    exact Instruction.execute_loadConstant rfl hindex
  | ldcWide index hindex =>
    rw [← ofNat_bigEndian_octets index] at hindex
    exact Instruction.execute_loadConstant rfl hindex

theorem Loads.execute {slot : UInt16} {n : Int32} (h : x.Loads slot)
    (hslot : locals[slot.toNat]? = some (some (.int n))) (pc : Nat) :
    (x.instruction pc).execute pool ⟨stack, locals⟩ = (.ok .next, ⟨.int n :: stack, locals⟩) := by
  refine Instruction.execute_load ?_ hslot
  cases h with
  | short opcode hsmall hopcode =>
    change (Opcode.meaning opcode.byte.toNat).op pc [] = .load slot
    rw [hopcode, meaning_of_iload hsmall, UInt16.ofNat_toNat]
    rfl
  | narrow index hindex =>
    change Op.load (.ofNat (bigEndian [index])) = .load slot
    rw [ofNat_bigEndian_singleton, hindex]
  | wide => rfl

end execute

section layout
variable {pool : ConstantPool} {e : Expression} {xs : List Item}

/-- The short forms of constants and variables have no operands. -/
theorem wellFormed_of_short {opcode : Opcode}
    (h : opcode.byte.toNat ≤ 8 ∨ 0x1a ≤ opcode.byte.toNat ∧ opcode.byte.toNat < 0x1e) (pc : Nat) :
    (plain opcode []).WellFormed pc := by
  have hbyte : ∀ byte : UInt8, 0x1e ≤ byte.toNat → opcode.byte ≠ byte := by
    rintro byte hlarge rfl
    omega
  refine ⟨hbyte _ (by decide), hbyte _ (by decide), hbyte _ (by decide), ?_⟩
  generalize opcode.byte.toNat = byte at h
  simp only [Opcode.operandWidth, List.mem_cons, List.not_mem_nil, or_false]
  repeat rw [if_neg (by omega)]
  rfl

theorem Pushes.wellFormed {value : Int32} {x : Item} (h : x.Pushes pool value) (pc : Nat) :
    x.WellFormed pc := by
  cases h with
  | iconst opcode hsmall hopcode => exact wellFormed_of_short (by omega) pc
  | bipush operand hsize | sipush operand hsize =>
    exact ⟨by decide, by decide, by decide, hsize⟩
  | ldc index => exact ⟨by decide, by decide, by decide, rfl⟩
  | ldcWide index => exact ⟨by decide, by decide, by decide, octets_length 2 _⟩

theorem Loads.wellFormed {slot : UInt16} {x : Item} (h : x.Loads slot) (pc : Nat) :
    x.WellFormed pc := by
  cases h with
  | short opcode hsmall hopcode => exact wellFormed_of_short (by omega) pc
  | narrow index => exact ⟨by decide, by decide, by decide, rfl⟩
  | wide => exact ⟨by decide, by decide⟩

theorem Computes.wellFormed {x : Item} (h : Computes pool e x) (pc : Nat) : x.WellFormed pc := by
  cases h with
  | constant h => exact h.wellFormed pc
  | load h => exact h.wellFormed pc
  | negate => exact ⟨by decide, by decide, by decide, rfl⟩
  | binary operator => cases operator <;> exact ⟨by decide, by decide, by decide, rfl⟩

/-- There is one instruction for each part of an expression, in post-order. -/
theorem Compiled.parts (h : Compiled pool e xs) :
    List.Forall₂ (Computes pool) e.postorder xs := by
  induction h with
  | constant h => exact .cons (.constant h) .nil
  | load h => exact .cons (.load h) .nil
  | negate _ ih => exact List.rel_append ih (.cons (.negate _) .nil)
  | binary operator _ _ ihleft ihright =>
    exact List.rel_append (List.rel_append ihleft ihright) (.cons (.binary operator _ _) .nil)

theorem Compiled.length_eq (h : Compiled pool e xs) : xs.length = e.postorder.length :=
  h.parts.length_eq.symm

/-- The code of an expression may be put anywhere. -/
theorem Compiled.wellLaid (h : Compiled pool e xs) (pc : Nat) : WellLaid pc xs := by
  have hparts := h.parts
  clear h
  generalize e.postorder = parts at hparts
  induction hparts generalizing pc with
  | nil => trivial
  | cons hpart _ ih => exact ⟨hpart.wellFormed pc, ih _⟩

end layout
end Item

namespace Expression
open Item

variable (vars : UInt16 → Int32) {e : Expression} {k : Nat}

theorem postorder_negate_length (operand : Expression) :
    (negate operand).postorder.length = operand.postorder.length + 1 := List.length_append

theorem postorder_binary_length (operator : Operator) (left right : Expression) :
    (binary operator left right).postorder.length =
      left.postorder.length + right.postorder.length + 1 := by
  rw [postorder, List.length_append, List.length_append, List.length_singleton]

theorem fault?_negate (operand : Expression) :
    (negate operand).fault? vars = operand.fault? vars := by
  rw [fault?, postorder, List.findIdx?_append, List.findIdx?_singleton]
  exact Option.or_none

theorem fault?_binary (operator : Operator) (left right : Expression) :
    (binary operator left right).fault? vars =
      ((left.fault? vars).or ((right.fault? vars).map (· + left.postorder.length))).or
        (if (binary operator left right).dividesByZero vars then
          some (left.postorder.length + right.postorder.length) else none) := by
  rw [fault?, postorder, List.findIdx?_append, List.findIdx?_append, List.findIdx?_singleton,
    List.length_append]
  split <;> simp [fault?]

variable {vars}

/-- An operator divides by zero if it has no value for the values of its operands. -/
theorem dividesByZero_iff {operator : Operator} {left right : Expression} {a b : Int}
    (hb : right.value? vars = some b) :
    (binary operator left right).dividesByZero vars = true ↔ operator.value? a b = none := by
  cases operator <;> simp [dividesByZero, Operator.value?, hb]

/-- At the first division by zero there is an operator whose right operand has the value zero. -/
theorem of_fault? {pool : ConstantPool} {xs : List Item} (hcompiled : Compiled pool e xs)
    (h : e.fault? vars = some k) :
    ∃ operator left right, e.postorder[k]? = some (binary operator left right) ∧
      xs[k]? = some (operation operator) ∧ (operator = .div ∨ operator = .rem) ∧
      right.value? vars = some 0 := by
  obtain ⟨hlt, hdivides, -⟩ := List.findIdx?_eq_some_iff_getElem.mp h
  have hlt' : k < xs.length := hcompiled.length_eq ▸ hlt
  have hpart := hcompiled.parts.get hlt hlt'
  rw [List.get_eq_getElem, List.get_eq_getElem] at hpart
  rw [List.getElem?_eq_getElem hlt, List.getElem?_eq_getElem hlt']
  generalize e.postorder[k] = part at hdivides hpart ⊢
  generalize xs[k] = x at hpart ⊢
  unfold dividesByZero at hdivides
  split at hdivides
  next left right =>
    cases hpart
    exact ⟨_, _, _, rfl, rfl, .inl rfl, of_decide_eq_true hdivides⟩
  next left right =>
    cases hpart
    exact ⟨_, _, _, rfl, rfl, .inr rfl, of_decide_eq_true hdivides⟩
  next => cases hdivides

end Expression
end ClassVM
