import ClassVM.Proofs.Assembly.Operands

namespace ClassVM
open Binary Reader

namespace Item

def number (bs : Bytes) : Int32 := (UInt32.ofNat (bigEndian (bs.take 4))).toInt32

def index (bs : Bytes) : UInt16 := .ofNat (bigEndian (bs.take 2))

theorem number_word (n : Int32) (bs : Bytes) : number (word n ++ bs) = n := by
  unfold number
  rw [List.take_left' (word_length n), word, bigEndian_octets 4 _ (u32_lt_place _),
    UInt32.ofNat_toNat]
  rfl

theorem word_number {bs : Bytes} (h : 4 ≤ bs.length) : word (number bs) = bs.take 4 := by
  have hlt : bigEndian (bs.take 4) < UInt32.size := bigEndian_take_lt h
  rw [word, number, UInt32.toUInt32_toInt32, UInt32.toNat_ofNat_of_lt' hlt, octets_bigEndian_take h]

theorem index_octets (n : UInt16) (bs : Bytes) : index (octets 2 n.toNat ++ bs) = n := by
  unfold index
  rw [List.take_left' (octets_length 2 _), bigEndian_octets 2 _ (u16_lt_place n),
    UInt16.ofNat_toNat]

theorem octets_index {bs : Bytes} (h : 2 ≤ bs.length) : octets 2 (index bs).toNat = bs.take 2 := by
  have hlt : bigEndian (bs.take 2) < UInt16.size := bigEndian_take_lt h
  rw [index, UInt16.toNat_ofNat_of_lt' hlt, octets_bigEndian_take h]

theorem exists_word (bs : Bytes) (h : bs.length = 4) : ∃ n, word n = bs :=
  ⟨number bs, by rw [word_number (by omega), List.take_of_length_le (by omega)]⟩

theorem exists_pair (bs : Bytes) (h : bs.length = 8) : ∃ p, pair p = bs := by
  obtain ⟨m, hm⟩ := exists_word (bs.take 4) (by rw [List.length_take]; omega)
  obtain ⟨n, hn⟩ := exists_word (bs.drop 4) (by rw [List.length_drop]; omega)
  refine ⟨(m, n), ?_⟩
  rw [pair, hm, hn, List.take_append_drop]

/-- Any bytes are the bytes of a table, if there are enough of them. -/
theorem exists_flatMap {α : Type} {f : α → Bytes} {k : Nat}
    (hf : ∀ bs : Bytes, bs.length = k → ∃ a, f a = bs) (n : Nat) (bs : Bytes)
    (h : k * n ≤ bs.length) : ∃ xs : List α, xs.length = n ∧ xs.flatMap f = bs.take (k * n) := by
  induction n generalizing bs with
  | zero => exact ⟨[], rfl, rfl⟩
  | succ n ih =>
    rw [Nat.mul_succ] at h
    obtain ⟨a, ha⟩ := hf (bs.take k) (List.length_take_of_le (by omega))
    obtain ⟨xs, hlen, hxs⟩ := ih (bs.drop k) (by rw [List.length_drop]; omega)
    refine ⟨a :: xs, by rw [List.length_cons, hlen], ?_⟩
    rw [List.flatMap_cons, ha, hxs, ← List.take_add, Nat.mul_succ, Nat.add_comm]

end Item

namespace Code
open Item

theorem layout_wide {opcode : Opcode} (h : opcode.byte = 0xc4) : opcode.layout = .wide := by
  obtain rfl : opcode = ⟨0xc4, by decide⟩ := Opcode.eq_of_byte h
  decide +kernel

theorem layout_tableSwitch {opcode : Opcode} (h : opcode.byte = 0xaa) :
    opcode.layout = .tableSwitch := by
  obtain rfl : opcode = ⟨0xaa, by decide⟩ := Opcode.eq_of_byte h
  decide +kernel

theorem layout_lookupSwitch {opcode : Opcode} (h : opcode.byte = 0xab) :
    opcode.layout = .lookupSwitch := by
  obtain rfl : opcode = ⟨0xab, by decide⟩ := Opcode.eq_of_byte h
  decide +kernel

theorem layout_of_widened {opcode : Opcode} {use : SlotUse} (h : opcode.widened? = some use) :
    opcode.layout = .slot use := by
  unfold Opcode.widened? at h
  cases hl : opcode.layout <;> simp [hl] at h
  rw [h]

theorem widened?_isSome (opcode : Opcode) :
    opcode.widened?.isSome = Opcode.widenable opcode.byte.toNat := by
  have hc := Opcode.layout_conforms opcode
  unfold Opcode.widened?
  cases hl : opcode.layout <;> rw [hl] at hc
  case slot use =>
    cases use <;> simp_all [Opcode.conforms]
    decide
  case tableSwitch | lookupSwitch | wide =>
    simp_all [Opcode.conforms]
    decide
  all_goals simp_all [Opcode.conforms]

theorem widened_slot (pc : Nat) {opcode : Opcode} {use : SlotUse} (hu : opcode.widened? = some use)
    (hi : opcode.byte ≠ 0x84) (rest : Bytes) :
    widened pc use rest =
      if 2 ≤ rest.length then .ok ((wideSlot opcode (index rest)).op pc, 2)
      else .error (.truncatedInstruction pc) := by
  have hc := Opcode.layout_conforms opcode
  rw [layout_of_widened hu] at hc
  cases use <;> simp [Opcode.conforms] at hc <;> obtain ⟨-, hm, hplain⟩ := hc
  case load | store =>
    simp only [widened, operand_u16, ite_bind, Item.op, hm]
    rfl
  case increment => exact absurd (UInt8.toNat_inj.mp hplain.1) hi
  case other =>
    simp only [widened, skip_eq, Item.op, hm]

theorem widened_increment (pc : Nat) {opcode : Opcode} {use : SlotUse}
    (hu : opcode.widened? = some use) (hi : opcode.byte = 0x84) (rest : Bytes) :
    widened pc use rest =
      if 4 ≤ rest.length then
        .ok ((wideIncrement (index rest) (index (rest.drop 2)).toInt16).op pc, 4)
      else .error (.truncatedInstruction pc) := by
  obtain rfl : opcode = ⟨0x84, by decide⟩ := Opcode.eq_of_byte hi
  have hl := layout_of_widened hu
  obtain rfl : use = .increment := by
    have : (⟨0x84, by decide⟩ : Opcode).layout = .slot .increment := by decide +kernel
    rw [this] at hl
    exact (Layout.slot.inj hl).symm
  simp only [widened, operand_wideIncrement, ite_bind]
  rfl

theorem ite_some_bind {α β : Type} (c : Prop) [Decidable c] (a : α) (next : α → Option β) :
    (if c then some a else none).bind next = if c then next a else none := by
  split <;> rfl

theorem operand_tableBounds (pc : Nat) (rest : Bytes) :
    operand pc (tableBounds pc) rest =
      if switchPadding pc + 12 ≤ rest.length then
        .ok (number (rest.drop (switchPadding pc + 4)), number (rest.drop (switchPadding pc + 8)))
      else .error (.truncatedInstruction pc) := by
  simp only [operand, tableBounds, bind_apply, pure_apply, bytes_eq, u32_eq, ite_some_bind,
    List.length_drop, List.drop_drop]
  by_cases h : switchPadding pc + 12 ≤ rest.length
  · rw [if_pos h, if_pos (by omega), if_pos (by omega), if_pos (by omega)]
    rfl
  · rw [if_neg h]
    by_cases h8 : switchPadding pc + 8 ≤ rest.length
    · rw [if_pos (by omega), if_pos (by omega), if_neg (by omega)]
    · by_cases h4 : switchPadding pc + 4 ≤ rest.length
      · rw [if_pos h4, if_neg (by omega)]
      · rw [if_neg h4]

theorem operand_pairCount (pc : Nat) (rest : Bytes) :
    operand pc (pairCount pc) rest =
      if switchPadding pc + 8 ≤ rest.length then .ok (number (rest.drop (switchPadding pc + 4)))
      else .error (.truncatedInstruction pc) := by
  simp only [operand, pairCount, bind_apply, pure_apply, bytes_eq, u32_eq, ite_some_bind,
    List.length_drop]
  by_cases h : switchPadding pc + 8 ≤ rest.length
  · rw [if_pos h, if_pos (by omega), if_pos (by omega)]
    rfl
  · rw [if_neg h]
    by_cases h4 : switchPadding pc + 4 ≤ rest.length
    · rw [if_pos h4, if_neg (by omega)]
    · rw [if_neg h4]

def tableWidth (pc : Nat) (rest : Bytes) : Nat :=
  let low := number (rest.drop (switchPadding pc + 4))
  let high := number (rest.drop (switchPadding pc + 8))
  switchPadding pc + 12 + 4 * (high.toInt - low.toInt + 1).toNat

def lookupWidth (pc : Nat) (rest : Bytes) : Nat :=
  switchPadding pc + 8 + 8 * (number (rest.drop (switchPadding pc + 4))).toInt.toNat

theorem withOperands_tableSwitch (size pc : Nat) {opcode : Opcode} (h : opcode.byte = 0xaa)
    (rest : Bytes) :
    withOperands size pc opcode rest =
      if tableWidth pc rest ≤ rest.length then
        .ok (⟨pc, opcode, .unsupported⟩, tableWidth pc rest)
      else .error (.truncatedInstruction pc) := by
  simp only [withOperands, layout_tableSwitch h, operand_tableBounds, ite_bind, skip_eq]
  by_cases hb : switchPadding pc + 12 ≤ rest.length
  · rw [if_pos hb]
    rfl
  · have hw : ¬ tableWidth pc rest ≤ rest.length := by
      simp only [tableWidth]
      omega
    rw [if_neg hb, if_neg hw]

theorem withOperands_lookupSwitch (size pc : Nat) {opcode : Opcode} (h : opcode.byte = 0xab)
    (rest : Bytes) :
    withOperands size pc opcode rest =
      if lookupWidth pc rest ≤ rest.length then
        .ok (⟨pc, opcode, .unsupported⟩, lookupWidth pc rest)
      else .error (.truncatedInstruction pc) := by
  simp only [withOperands, layout_lookupSwitch h, operand_pairCount, ite_bind, skip_eq]
  by_cases hb : switchPadding pc + 8 ≤ rest.length
  · rw [if_pos hb]
    rfl
  · have hw : ¬ lookupWidth pc rest ≤ rest.length := by
      simp only [lookupWidth]
      omega
    rw [if_neg hb, if_neg hw]

/-- What follows `wide` must be one of the opcodes that it can widen. -/
theorem wideInstruction_eq (pc : Nat) (byte : UInt8) (rest : Bytes) :
    wideInstruction pc (byte :: rest) =
      if h : byte.toNat < Opcode.count ∧ Opcode.widenable byte.toNat then
        if byte = 0x84 then
          if 4 ≤ rest.length then
            .ok ((wideIncrement (index rest) (index (rest.drop 2)).toInt16).instruction pc, 5)
          else .error (.truncatedInstruction pc)
        else
          if 2 ≤ rest.length then .ok ((wideSlot ⟨byte, h.1⟩ (index rest)).instruction pc, 3)
          else .error (.truncatedInstruction pc)
      else .error (.invalidOpcode byte pc) := by
  unfold wideInstruction Opcode.ofByte?
  by_cases hb : byte.toNat < Opcode.count
  · simp only [dif_pos hb]
    have hw := widened?_isSome ⟨byte, hb⟩
    cases hu : (⟨byte, hb⟩ : Opcode).widened? with
    | none =>
      rw [hu] at hw
      rw [dif_neg (fun h => by rw [← hw] at h; simp at h)]
    | some use =>
      rw [hu] at hw
      rw [dif_pos ⟨hb, hw.symm⟩]
      by_cases hi : byte = 0x84
      · subst hi
        simp only [widened_increment pc hu rfl, ite_bind]
        rfl
      · simp only [widened_slot pc hu hi, ite_bind, if_neg hi]
        rfl
  · simp only [dif_neg hb, dif_neg (fun h => hb (And.left h))]

end Code
end ClassVM
