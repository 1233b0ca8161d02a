import ClassVM.Proofs.Assembly.Item

namespace ClassVM

namespace Binary.Reader

theorem pure_apply {α : Type} (a : α) (rest : Bytes) :
    (pure a : Reader α) rest = some (a, rest) := rfl

theorem bind_apply {α β : Type} (x : Reader α) (f : α → Reader β) (rest : Bytes) :
    (x >>= f) rest = (x rest).bind fun (a, rest) => f a rest := rfl

end Binary.Reader

open Binary Reader

namespace Code

theorem operand_u8 (pc : Nat) (rest : Bytes) :
    operand pc u8 rest =
      if 1 ≤ rest.length then .ok (.ofNat (bigEndian (rest.take 1)))
      else .error (.truncatedInstruction pc) := by
  unfold operand
  rw [u8_eq]
  by_cases h : 1 ≤ rest.length
  · rw [if_pos h, if_pos h]
  · rw [if_neg h, if_neg h]

theorem operand_u16 (pc : Nat) (rest : Bytes) :
    operand pc u16 rest =
      if 2 ≤ rest.length then .ok (.ofNat (bigEndian (rest.take 2)))
      else .error (.truncatedInstruction pc) := by
  unfold operand
  rw [u16_eq]
  by_cases h : 2 ≤ rest.length
  · rw [if_pos h, if_pos h]
  · rw [if_neg h, if_neg h]

theorem operand_u32 (pc : Nat) (rest : Bytes) :
    operand pc u32 rest =
      if 4 ≤ rest.length then .ok (.ofNat (bigEndian (rest.take 4)))
      else .error (.truncatedInstruction pc) := by
  unfold operand
  rw [u32_eq]
  by_cases h : 4 ≤ rest.length
  · rw [if_pos h, if_pos h]
  · rw [if_neg h, if_neg h]

theorem operand_increment (pc : Nat) (rest : Bytes) :
    operand pc (do return (← u8, ← u8)) rest =
      if 2 ≤ rest.length then
        .ok (.ofNat (bigEndian (rest.take 1)), .ofNat (bigEndian ((rest.drop 1).take 1)))
      else .error (.truncatedInstruction pc) := by
  match rest with
  | [] | [_] => rfl
  | a :: b :: rest => simp [operand, u8, bigEndian, place, bind_apply, pure_apply, -bind_pure_comp]

theorem operand_wideIncrement (pc : Nat) (rest : Bytes) :
    operand pc (do return (← u16, ← u16)) rest =
      if 4 ≤ rest.length then
        .ok (.ofNat (bigEndian (rest.take 2)), .ofNat (bigEndian ((rest.drop 2).take 2)))
      else .error (.truncatedInstruction pc) := by
  match rest with
  | [] | [_] | [_, _] | [_, _, _] => rfl
  | a :: b :: c :: d :: rest =>
    simp [operand, u16, bigEndian, place, bind_apply, pure_apply, -bind_pure_comp]

theorem skip_eq (pc width : Nat) (rest : Bytes) :
    skip pc width rest =
      if width ≤ rest.length then .ok (.unsupported, width)
      else .error (.truncatedInstruction pc) := by
  unfold skip
  simp only [atLeast_iff]

theorem ite_bind {α β : Type} (c : Prop) [Decidable c] (a : α) (e : FormatError)
    (next : α → Except FormatError β) :
    ((if c then .ok a else .error e : Except FormatError α) >>= next) =
      if c then next a else .error e := by
  split <;> rfl

theorem target_eq (size pc : Nat) (distance : Int) :
    target size pc distance =
      if 0 ≤ pc + distance ∧ pc + distance < size then .ok (pc + distance).toNat
      else .error (.branchOutOfRange pc (pc + distance)) := rfl

theorem nearTarget_eq (size pc : Nat) (rest : Bytes) :
    nearTarget size pc rest =
      if 2 ≤ rest.length then target size pc (signed (rest.take 2))
      else .error (.truncatedInstruction pc) := by
  simp only [nearTarget, operand_u16, ite_bind]
  split
  case isTrue h => rw [toInt16_toInt (List.length_take_of_le h)]
  case isFalse => rfl

theorem farTarget_eq (size pc : Nat) (rest : Bytes) :
    farTarget size pc rest =
      if 4 ≤ rest.length then target size pc (signed (rest.take 4))
      else .error (.truncatedInstruction pc) := by
  simp only [farTarget, operand_u32, ite_bind]
  split
  case isTrue h => rw [toInt32_toInt (List.length_take_of_le h)]
  case isFalse => rfl

/-- The result of reading `x` at `pc`, all of whose bytes are there: only its target can be wrong.
-/
def checked (size pc : Nat) (x : Item) : Except FormatError (Instruction × Nat) :=
  match x.target? pc with
  | none => .ok (x.instruction pc, x.rest.length)
  | some t =>
    if 0 ≤ t ∧ t < size then .ok (x.instruction pc, x.rest.length)
    else .error (.branchOutOfRange pc t)

def plainResult (size pc : Nat) (opcode : Opcode) (rest : Bytes) :
    Except FormatError (Instruction × Nat) :=
  let width := Opcode.operandWidth opcode.byte.toNat
  if width ≤ rest.length then checked size pc (.plain opcode (rest.take width))
  else .error (.truncatedInstruction pc)

/-- The operands of an opcode without a target are read in one go. -/
theorem plainResult_eq {size pc : Nat} {opcode : Opcode} {rest : Bytes} {width : Nat}
    {meaning : Opcode.Meaning} (hw : Opcode.operandWidth opcode.byte.toNat = width)
    (hm : Opcode.meaning opcode.byte.toNat = meaning)
    (ht : meaning.target? pc (rest.take width) = none) :
    plainResult size pc opcode rest =
      if width ≤ rest.length then .ok (⟨pc, opcode, meaning.op pc (rest.take width)⟩, width)
      else .error (.truncatedInstruction pc) := by
  subst hw hm
  unfold plainResult
  by_cases h : Opcode.operandWidth opcode.byte.toNat ≤ rest.length
  · have hlen := List.length_take_of_le h
    simp only [if_pos h, checked, Item.target?, ht, Item.instruction, Item.opcode, Item.op,
      Item.rest, hlen]
  · simp only [if_neg h]

theorem plainResult_branch {size pc : Nat} {opcode : Opcode} {rest : Bytes} {width : Nat}
    {meaning : Opcode.Meaning} (hw : Opcode.operandWidth opcode.byte.toNat = width)
    (hm : Opcode.meaning opcode.byte.toNat = meaning)
    (ht : meaning.target? pc (rest.take width) = some (pc + signed (rest.take width))) :
    plainResult size pc opcode rest =
      if width ≤ rest.length then
        match target size pc (signed (rest.take width)) with
        | .error e => .error e
        | .ok _ => .ok (⟨pc, opcode, meaning.op pc (rest.take width)⟩, width)
      else .error (.truncatedInstruction pc) := by
  subst hw hm
  unfold plainResult
  by_cases h : Opcode.operandWidth opcode.byte.toNat ≤ rest.length
  · have hlen := List.length_take_of_le h
    simp only [if_pos h, checked, Item.target?, ht, Item.instruction, Item.opcode, Item.op,
      Item.rest, hlen, target_eq]
    split <;> rfl
  · simp only [if_neg h]

theorem withOperands_slot (size pc : Nat) (opcode : Opcode) (rest : Bytes) {use : SlotUse}
    (hl : opcode.layout = .slot use) :
    withOperands size pc opcode rest = plainResult size pc opcode rest := by
  have hc := Opcode.layout_conforms opcode
  rw [hl] at hc
  simp only [withOperands, hl]
  cases use <;> simp [Opcode.conforms] at hc <;> obtain ⟨hw, hm, -⟩ := hc <;>
    rw [plainResult_eq hw hm rfl]
  case load | store =>
    simp only [narrow, operand_u8, ite_bind]
    split
    case isTrue h =>
      rw [toUInt16_ofNat (List.length_take_of_le h)]
      rfl
    case isFalse => rfl
  case increment =>
    simp only [narrow, operand_increment, ite_bind]
    split
    case isTrue h =>
      have h1 : (rest.take 1).length = 1 := by
        rw [List.length_take]
        omega
      have h2 : ((rest.drop 1).take 1).length = 1 := by
        rw [List.length_take, List.length_drop]
        omega
      rw [toUInt16_ofNat h1, toInt8_toInt32 h2]
      simp only [Opcode.Meaning.op, List.length_take_of_le h, List.take_take, List.drop_take]
      rfl
    case isFalse => rfl
  case other =>
    simp only [narrow, skip_eq, ite_bind]
    rfl

theorem bind_target {size pc width : Nat} {rest : Bytes} {offset : Except FormatError Nat}
    (opcode : Opcode) (give : Nat → Op)
    (hoffset : offset = if width ≤ rest.length then target size pc (signed (rest.take width))
      else .error (.truncatedInstruction pc)) :
    (offset >>= fun t => .ok (⟨pc, opcode, give t⟩, width)) =
      if width ≤ rest.length then
        match target size pc (signed (rest.take width)) with
        | .error e => .error e
        | .ok _ => .ok (⟨pc, opcode, give (pc + signed (rest.take width)).toNat⟩, width)
      else (.error (.truncatedInstruction pc) : Except FormatError (Instruction × Nat)) := by
  rw [hoffset, target_eq]
  split
  case isTrue => split <;> rfl
  case isFalse => rfl

theorem withOperands_plain (size pc : Nat) (opcode : Opcode) (rest : Bytes)
    (hplain : opcode.byte ≠ 0xaa ∧ opcode.byte ≠ 0xab ∧ opcode.byte ≠ 0xc4) :
    withOperands size pc opcode rest = plainResult size pc opcode rest := by
  -- The row of an opcode conforms to the instruction set, so every layout has one width and one
  -- meaning; what is left is that its reader reads that many bytes and means the same by them.
  have hc := Opcode.layout_conforms opcode
  cases hl : opcode.layout <;> rw [hl] at hc <;> simp [Opcode.conforms] at hc
  case plain op =>
    obtain ⟨hw, hm, -⟩ := hc
    rw [plainResult_eq hw hm rfl]
    simp only [withOperands, hl]
    rfl
  case pushByte =>
    obtain ⟨hw, hm, -⟩ := hc
    rw [plainResult_eq hw hm rfl]
    simp only [withOperands, hl, operand_u8, ite_bind]
    split
    case isTrue h =>
      rw [toInt8_toInt32 (List.length_take_of_le h)]
      rfl
    case isFalse => rfl
  case pushShort =>
    obtain ⟨hw, hm, -⟩ := hc
    rw [plainResult_eq hw hm rfl]
    simp only [withOperands, hl, operand_u16, ite_bind]
    split
    case isTrue h =>
      rw [toInt16_toInt32 (List.length_take_of_le h)]
      rfl
    case isFalse => rfl
  case constantByte =>
    obtain ⟨hw, hm, -⟩ := hc
    rw [plainResult_eq hw hm rfl]
    simp only [withOperands, hl, operand_u8, ite_bind]
    split
    case isTrue h =>
      rw [toUInt16_ofNat (List.length_take_of_le h)]
      rfl
    case isFalse => rfl
  case constantShort | getStatic | invokeVirtual | invokeStatic =>
    obtain ⟨hw, hm, -⟩ := hc
    rw [plainResult_eq hw hm rfl]
    simp only [withOperands, hl, operand_u16, ite_bind]
    rfl
  case skipped width =>
    obtain ⟨hw, hm, -⟩ := hc
    rw [plainResult_eq hw hm rfl]
    simp only [withOperands, hl, skip_eq, ite_bind]
    rfl
  case branchIf | branchCompare | jump =>
    obtain ⟨hw, hm, -⟩ := hc
    rw [plainResult_branch hw hm rfl]
    simp only [withOperands, hl]
    exact bind_target opcode _ (nearTarget_eq size pc rest)
  case jumpFar =>
    obtain ⟨hw, hm, -⟩ := hc
    rw [plainResult_branch hw hm rfl]
    simp only [withOperands, hl]
    exact bind_target opcode _ (farTarget_eq size pc rest)
  case slot use => exact withOperands_slot size pc opcode rest hl
  case tableSwitch => exact absurd (UInt8.toNat_inj.mp hc.1) hplain.1
  case lookupSwitch => exact absurd (UInt8.toNat_inj.mp hc.1) hplain.2.1
  case wide => exact absurd (UInt8.toNat_inj.mp hc.1) hplain.2.2

end Code
end ClassVM
