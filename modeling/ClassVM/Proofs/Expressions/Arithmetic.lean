import ClassVM.Proofs.Expressions.Compilation

namespace ClassVM

theorem dvd_wrap_sub (n : Int) : (UInt32.size : Int) ∣ wrap n - n := Int.dvd_bmod_sub_self

theorem wrap_bounds (n : Int) :
    Int32.minValue.toInt ≤ wrap n ∧ wrap n ≤ Int32.maxValue.toInt :=
  ⟨Int.le_bmod (by decide), Int.le_of_lt_add_one (Int.bmod_lt (by decide))⟩

theorem wrap_toInt (v : Int32) : wrap v.toInt = v.toInt := v.toInt_bmod

namespace Operator

/-- The remainder is what the rounded quotient leaves, which is in the range and never wraps. -/
theorem toInt_rem (left right : Int32) :
    (left % right).toInt = left.toInt - left.toInt.tdiv right.toInt * right.toInt := by
  rw [Int32.toInt_mod, Int.tmod_def, Int.mul_comm]

theorem natAbs_rem_lt {left right : Int32} (h : right ≠ 0) :
    (left % right).toInt.natAbs < right.toInt.natAbs := by
  have hright : right.toInt ≠ 0 := fun hzero => h (Int32.toInt_inj.mp hzero)
  rw [Int32.toInt_mod, Int.natAbs_tmod]
  exact Nat.mod_lt _ (Int.natAbs_pos.mpr hright)

theorem sign_rem (left right : Int32) :
    left % right = 0 ∨ (left % right).toInt.sign = left.toInt.sign := by
  by_cases hdvd : right.toInt ∣ left.toInt
  · left
    apply Int32.toInt_inj.mp
    rw [Int32.toInt_mod]
    exact Int.tmod_eq_zero_of_dvd hdvd
  · right
    rw [Int32.toInt_mod, Int.sign_tmod, if_neg hdvd]

/-- Wrapping the quotient loses nothing that the product with the divisor does not wrap anyway. -/
theorem div_mul_add_rem (left right : Int32) : left / right * right + left % right = left := by
  apply Int32.toInt_inj.mp
  calc (left / right * right + left % right).toInt
      = wrap (wrap (wrap (left.toInt.tdiv right.toInt) * right.toInt) + (left % right).toInt) := by
        rw [Int32.toInt_add, Int32.toInt_mul, Int32.toInt_div]
        rfl
    _ = wrap (left.toInt.tdiv right.toInt * right.toInt + (left % right).toInt) := by
        simp only [wrap, Int.bmod_add_bmod, Int.bmod_mul_bmod]
    _ = wrap left.toInt := by rw [toInt_rem, Int.add_comm, Int.sub_add_cancel]
    _ = left.toInt := wrap_toInt left

/-- Results are the exact numbers wrapped to 32 bits, with quotients rounded toward zero; only a division or
remainder by zero fails. -/
theorem apply_agrees_with_integers (left right : Int32) :
    (∀ n, (UInt32.size : Int) ∣ wrap n - n ∧
      Int32.minValue.toInt ≤ wrap n ∧ wrap n ≤ Int32.maxValue.toInt) ∧
    ((∃ v, add.apply left right = .ok v ∧ v.toInt = wrap (left.toInt + right.toInt)) ∧
      (∃ v, sub.apply left right = .ok v ∧ v.toInt = wrap (left.toInt - right.toInt)) ∧
      ∃ v, mul.apply left right = .ok v ∧ v.toInt = wrap (left.toInt * right.toInt)) ∧
    (∀ (operator : Operator) e, operator.apply left right = .error e ↔
      e = .divisionByZero ∧ right = 0 ∧ (operator = .div ∨ operator = .rem)) ∧
    (right ≠ 0 → ∃ quotient remainder,
      div.apply left right = .ok quotient ∧
      quotient.toInt = wrap (left.toInt.tdiv right.toInt) ∧
      rem.apply left right = .ok remainder ∧
      remainder.toInt = left.toInt - left.toInt.tdiv right.toInt * right.toInt ∧
      remainder.toInt.natAbs < right.toInt.natAbs ∧
      (remainder = 0 ∨ remainder.toInt.sign = left.toInt.sign) ∧
      (mul.apply quotient right).bind (add.apply · remainder) = .ok left) ∧
    div.apply Int32.minValue (-1) = .ok Int32.minValue ∧
    ∀ (pool : ConstantPool) (pc : Nat) (opcode : Opcode) (stack : List Value)
      (locals : Array (Option Value)),
      (∀ operator, Instruction.execute pool ⟨pc, opcode, .arithmetic operator⟩
          ⟨.int right :: .int left :: stack, locals⟩ =
        match operator.apply left right with
        | .ok v => (.ok .next, ⟨.int v :: stack, locals⟩)
        | .error e => (.error e, ⟨stack, locals⟩)) ∧
      ∃ v, Instruction.execute pool ⟨pc, opcode, .negate⟩ ⟨.int left :: stack, locals⟩ =
          (.ok .next, ⟨.int v :: stack, locals⟩) ∧ v.toInt = wrap (-left.toInt) := by
  refine ⟨fun n => ⟨dvd_wrap_sub n, wrap_bounds n⟩, ⟨?_, ?_, ?_⟩, ?_, ?_, by decide, ?_⟩
  · exact ⟨left + right, rfl, Int32.toInt_add ..⟩
  · exact ⟨left - right, rfl, Int32.toInt_sub ..⟩
  · exact ⟨left * right, rfl, Int32.toInt_mul ..⟩
  · exact fun operator e => apply_eq_error_iff
  · intro hright
    refine ⟨left / right, left % right, if_neg hright, Int32.toInt_div .., if_neg hright,
      toInt_rem left right, natAbs_rem_lt hright, sign_rem left right, ?_⟩
    exact congrArg Except.ok (div_mul_add_rem left right)
  · intro pool pc opcode stack locals
    refine ⟨fun operator => Instruction.execute_arithmetic rfl, -left, ?_, Int32.toInt_neg left⟩
    exact Instruction.execute_negate rfl

/-- The quotient of the least int and -1 leaves the range and wraps back to it. -/
theorem apply_agrees_with_integers_least :
    (-1 : Int32) ≠ 0 ∧ ∃ quotient remainder,
      div.apply Int32.minValue (-1) = .ok quotient ∧ quotient.toInt = wrap 2147483648 ∧
      rem.apply Int32.minValue (-1) = .ok remainder ∧ remainder.toInt = 0 ∧
      (mul.apply quotient (-1)).bind (add.apply · remainder) = .ok Int32.minValue := by
  have hne : (-1 : Int32) ≠ 0 := by decide
  obtain ⟨-, -, -, hdivision, -, -⟩ := apply_agrees_with_integers Int32.minValue (-1)
  obtain ⟨quotient, remainder, hdiv, hquotient, hrem, hremainder, -, -, hback⟩ := hdivision hne
  exact ⟨hne, quotient, remainder, hdiv, hquotient, hrem, hremainder, hback⟩

end Operator
end ClassVM
