import ClassVM.Proofs.Assembly.Faults
import ClassVM.Proofs.Assembly.Respelling

namespace ClassVM
open Binary

/-- The operation when the code that it belongs to starts `n` bytes later. -/
def Op.moved (n : Nat) : Op → Op
  | branchIf condition target => .branchIf condition (target + n)
  | branchCompare condition target => .branchCompare condition (target + n)
  | jump target => .jump (target + n)
  | op => op

def Instruction.moved (n : Nat) (i : Instruction) : Instruction :=
  ⟨i.pc + n, i.opcode, i.op.moved n⟩

theorem Op.eq_moved {n : Nat} {op op' : Op} (h : op'.aimless = op.aimless)
    (htarget : op'.target? = op.target?.map (· + n)) : op' = op.moved n := by
  cases op <;> cases op' <;> cases h
  case branchIf.branchIf | branchCompare.branchCompare | jump.jump =>
    cases Option.some.inj htarget
    rfl
  all_goals rfl

namespace Item
variable {n pc size : Nat} {x : Item} {xs : List Item}

theorem pads_moved (hn : n % 4 = 0) {padding : Bytes} (h : Pads pc padding) :
    Pads (pc + n) padding := by
  obtain ⟨hlen, halign⟩ := h
  refine ⟨hlen, ?_⟩
  omega

theorem wellFormed_moved (hn : n % 4 = 0) (h : x.WellFormed pc) : x.WellFormed (pc + n) := by
  cases x with
  | plain | wideSlot | wideIncrement => exact h
  | tableSwitch | lookupSwitch => exact ⟨pads_moved hn h.1, h.2⟩

theorem target?_moved (n pc : Nat) (x : Item) :
    x.target? (pc + n) = (x.target? pc).map (· + (n : Int)) := by
  cases x with
  | plain opcode operands =>
    have hsum : ((pc + n : Nat) : Int) + signed operands = pc + signed operands + n := by omega
    simp only [target?, Opcode.Meaning.target?]
    split
    case h_1 | h_2 | h_3 => exact congrArg some hsum
    case h_4 => rfl
  | wideSlot | wideIncrement | tableSwitch | lookupSwitch => rfl

theorem op_moved (n : Nat) (h : ∀ t, x.target? pc = some t → 0 ≤ t) :
    x.op (pc + n) = (x.op pc).moved n := by
  apply Op.eq_moved ((Respells.refl x).aimless (pc + n) pc)
  rw [target?_of_op, target?_of_op, target?_moved]
  cases ht : x.target? pc with
  | none => rfl
  | some t =>
    have hnonneg := h t ht
    have hsum : (t + n).toNat = t.toNat + n := by omega
    exact congrArg some hsum

theorem instruction_moved (n : Nat) (h : ∀ t, x.target? pc = some t → 0 ≤ t) :
    x.instruction (pc + n) = (x.instruction pc).moved n := by
  rw [instruction, op_moved n h]
  rfl

theorem WellLaid.moved (hn : n % 4 = 0) (h : WellLaid pc xs) : WellLaid (pc + n) xs := by
  induction xs generalizing pc with
  | nil => trivial
  | cons x xs ih =>
    refine ⟨wellFormed_moved hn h.1, ?_⟩
    rw [Nat.add_right_comm]
    exact ih h.2

theorem TargetsWithin.moved (n : Nat) (h : TargetsWithin size pc xs) :
    TargetsWithin (size + n) (pc + n) xs := by
  induction xs generalizing pc with
  | nil => trivial
  | cons x xs ih =>
    constructor
    · intro t ht
      rw [target?_moved, Option.map_eq_some_iff] at ht
      obtain ⟨u, hu, rfl⟩ := ht
      have hwithin := h.1 u hu
      omega
    · rw [Nat.add_right_comm]
      exact ih h.2

theorem TargetsWithin.mono {size' : Nat} (h : TargetsWithin size pc xs) (hle : size ≤ size') :
    TargetsWithin size' pc xs := by
  induction xs generalizing pc with
  | nil => trivial
  | cons x xs ih =>
    refine ⟨fun t ht => ?_, ih h.2⟩
    have hwithin := h.1 t ht
    omega

theorem listing_moved (n : Nat) (h : TargetsWithin size pc xs) :
    listing (pc + n) xs = (listing pc xs).map (·.moved n) := by
  induction xs generalizing pc with
  | nil => rfl
  | cons x xs ih =>
    rw [listing, instruction_moved n fun t ht => (h.1 t ht).1, Nat.add_right_comm, ih h.2]
    rfl

end Item

namespace Code
open Item
variable {a b rest : Bytes} {xs ys : List Item} {is : List Instruction}

theorem CutShort.moved {n pc : Nat} (hn : n % 4 = 0) (h : CutShort pc rest) :
    CutShort (pc + n) rest := by
  obtain ⟨hne, x, missing, hx, hbytes⟩ := h
  exact ⟨hne, x, missing, wellFormed_moved hn hx, hbytes⟩

/-- Items that are laid out after others, whose code has a multiple of four bytes. -/
theorem laid_behind (haligned : (assemble xs).length % 4 = 0) (hx : WellLaid 0 xs)
    (hxt : TargetsWithin (assemble xs).length 0 xs) (hy : WellLaid 0 ys)
    (hyt : TargetsWithin b.length 0 ys) :
    WellLaid 0 (xs ++ ys) ∧ TargetsWithin (assemble xs ++ b).length 0 (xs ++ ys) := by
  have hsize : (assemble xs ++ b).length = b.length + (assemble xs).length := by
    rw [List.length_append, Nat.add_comm]
  exact ⟨hx.append (hy.moved haligned),
    (hxt.mono (by omega)).append (hsize ▸ hyt.moved (assemble xs).length)⟩

/-- A fault of the second code array is one of both together, if it does not depend on how long the code
is. -/
theorem decode_append_error {e e' : FormatError} (ha : decode a = .ok is)
    (haligned : a.length % 4 = 0) (hb : decode b = .error e)
    (hmoved : ∀ size pc rest, Faulty b.length pc rest e → Faulty size (pc + a.length) rest e') :
    decode (a ++ b) = .error e' := by
  obtain ⟨xs, hx, hxt, rfl, -⟩ := items_of_decode ha
  obtain ⟨ys, rest, hy, hyt, rfl, hfault⟩ := (decode_eq_error_iff b e).mp hb
  obtain ⟨hlaid, hwithin⟩ := laid_behind haligned hx hxt hy hyt
  have hlength : (assemble (xs ++ ys)).length = (assemble ys).length + (assemble xs).length := by
    rw [assemble_append, List.length_append, Nat.add_comm]
  refine (decode_eq_error_iff _ e').mpr ⟨xs ++ ys, rest, hlaid, hwithin, ?_, ?_⟩
  · rw [assemble_append, List.append_assoc]
  · rw [hlength]
    exact hmoved _ _ rest hfault

/-- Code behind code that takes a multiple of four bytes is decoded as it is alone, or fails as it does
alone, so many bytes further on. -/
theorem decode_append (ha : decode a = .ok is) (haligned : a.length % 4 = 0) :
    (∀ js, decode b = .ok js → decode (a ++ b) = .ok (is ++ js.map (·.moved a.length))) ∧
    (∀ byte pc, decode b = .error (.invalidOpcode byte pc) →
      decode (a ++ b) = .error (.invalidOpcode byte (pc + a.length))) ∧
    ∀ pc, decode b = .error (.truncatedInstruction pc) →
      decode (a ++ b) = .error (.truncatedInstruction (pc + a.length)) := by
  refine ⟨fun js hb => ?_, fun byte pc hb => ?_, fun pc hb => ?_⟩
  · obtain ⟨xs, hx, hxt, rfl, rfl⟩ := items_of_decode ha
    obtain ⟨ys, hy, hyt, rfl, rfl⟩ := items_of_decode hb
    obtain ⟨hlaid, hwithin⟩ := laid_behind haligned hx hxt hy hyt
    rw [← assemble_append] at hwithin ⊢
    rw [decode_assemble hlaid hwithin, listing_append, listing_moved _ hyt]
  · apply decode_append_error ha haligned hb
    intro size pc rest
    rintro (hbad | - | -)
    exact .invalidOpcode hbad
  · apply decode_append_error ha haligned hb
    intro size pc rest
    rintro (- | hcut | -)
    exact .truncatedInstruction (hcut.moved haligned)

/-- A branch to the `nop` behind it. -/
def front : Bytes := [0xa7, 0x00, 0x03, 0x00]

/-- A `nop`, an empty `lookupswitch` and a branch back to the `nop`. -/
def back : Bytes := [0x00, 0xab, 0, 0, 0, 0, 0, 0, 0, 0, 0, 0, 0xa7, 0xff, 0xf4]

/-- The switch has its padding and the branch its target four bytes further on, and a switch that is cut
off within its padding is still cut off, as is a `wide` that is followed by a bad opcode. -/
theorem decode_append_switch :
    decode (front ++ back) = .ok [⟨0, ⟨0xa7, by decide⟩, .jump 3⟩, ⟨3, ⟨0x00, by decide⟩, .nop⟩,
      ⟨4, ⟨0x00, by decide⟩, .nop⟩, ⟨5, ⟨0xab, by decide⟩, .unsupported⟩,
      ⟨16, ⟨0xa7, by decide⟩, .jump 4⟩] ∧
    decode (front ++ [0x00, 0xab, 0]) = .error (.truncatedInstruction 5) ∧
    decode (front ++ [0x00, 0xc4, 0x00]) = .error (.invalidOpcode 0x00 5) := by
  have hfront : decode front =
      .ok [⟨0, ⟨0xa7, by decide⟩, .jump 3⟩, ⟨3, ⟨0x00, by decide⟩, .nop⟩] := rfl
  have hback : decode back = .ok [⟨0, ⟨0x00, by decide⟩, .nop⟩,
      ⟨1, ⟨0xab, by decide⟩, .unsupported⟩, ⟨12, ⟨0xa7, by decide⟩, .jump 0⟩] := rfl
  exact ⟨(decode_append hfront rfl).1 _ hback, (decode_append hfront rfl).2.2 1 rfl,
    (decode_append hfront rfl).2.1 0x00 1 rfl⟩

end Code
end ClassVM
