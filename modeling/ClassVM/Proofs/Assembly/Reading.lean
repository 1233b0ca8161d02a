import ClassVM.Proofs.Assembly.Extended

namespace ClassVM
open Binary

namespace Code
open Item

theorem instruction_eq (size pc : Nat) {byte : UInt8} (h : byte.toNat < Opcode.count)
    (rest : Bytes) : instruction size pc byte rest = withOperands size pc ⟨byte, h⟩ rest := by
  unfold instruction Opcode.ofByte?
  rw [dif_pos h]

theorem withOperands_wide (size pc : Nat) {opcode : Opcode} (h : opcode.byte = 0xc4)
    (rest : Bytes) : withOperands size pc opcode rest = wideInstruction pc rest := by
  simp only [withOperands, layout_wide h]

theorem instruction_plain {size pc : Nat} {opcode : Opcode} {operands : Bytes}
    (hx : (plain opcode operands).WellFormed pc) (r : Bytes) :
    instruction size pc opcode.byte (operands ++ r) = checked size pc (plain opcode operands) := by
  obtain ⟨ha, hb, hc, hlen⟩ := hx
  rw [instruction_eq size pc opcode.assigned, withOperands_plain size pc opcode _ ⟨ha, hb, hc⟩]
  simp only [plainResult]
  rw [if_pos (by rw [List.length_append]; omega), List.take_left' hlen]

theorem instruction_wideSlot {size pc : Nat} {opcode : Opcode} {i : UInt16}
    (hx : (wideSlot opcode i).WellFormed pc) (r : Bytes) :
    instruction size pc 0xc4 ((wideSlot opcode i).rest ++ r) =
      checked size pc (wideSlot opcode i) := by
  obtain ⟨hw, hi⟩ := hx
  rw [instruction_eq size pc (by decide), withOperands_wide size pc rfl, Item.rest,
    List.cons_append, wideInstruction_eq, dif_pos ⟨opcode.assigned, hw⟩, if_neg hi, index_octets,
    if_pos (by rw [List.length_append, octets_length]; omega)]
  rfl

theorem instruction_wideIncrement {size pc : Nat} {i : UInt16} {d : Int16} (r : Bytes) :
    instruction size pc 0xc4 ((wideIncrement i d).rest ++ r) =
      checked size pc (wideIncrement i d) := by
  rw [instruction_eq size pc (by decide), withOperands_wide size pc rfl, Item.rest,
    List.cons_append, wideInstruction_eq, dif_pos (by decide), if_pos rfl, List.append_assoc,
    index_octets, List.drop_left' (octets_length 2 _), index_octets,
    if_pos (by rw [List.length_append, List.length_append, octets_length, octets_length]; omega)]
  rfl

theorem flatMap_length {α : Type} {f : α → Bytes} {k : Nat} (hf : ∀ a, (f a).length = k)
    (xs : List α) : (xs.flatMap f).length = k * xs.length := by
  induction xs with
  | nil => rfl
  | cons x xs ih =>
    rw [List.flatMap_cons, List.length_append, hf, ih, List.length_cons, Nat.mul_succ, Nat.add_comm]

theorem number_after {front : Bytes} {k : Nat} (hk : front.length = k) (n : Int32) (back : Bytes) :
    number ((front ++ (word n ++ back)).drop k) = n := by
  rw [List.drop_left' hk, number_word]

theorem instruction_tableSwitch {size pc : Nat} {padding : Bytes} {fallback low high : Int32}
    {entries : List Int32} (hx : (tableSwitch padding fallback low high entries).WellFormed pc)
    (r : Bytes) :
    instruction size pc 0xaa ((tableSwitch padding fallback low high entries).rest ++ r) =
      checked size pc (tableSwitch padding fallback low high entries) := by
  obtain ⟨hp, hlen⟩ := hx
  have hp := pads_length hp
  have hfront : (padding ++ word fallback).length = switchPadding pc + 4 := by
    rw [List.length_append, hp, word_length]
  have hfront' : (padding ++ (word fallback ++ word low)).length = switchPadding pc + 8 := by
    rw [List.length_append, List.length_append, hp, word_length, word_length]
  have hlow := number_after hfront low (word high ++ (entries.flatMap word ++ r))
  have hhigh := number_after hfront' high (entries.flatMap word ++ r)
  have hwidth : tableWidth pc ((tableSwitch padding fallback low high entries).rest ++ r) =
      (tableSwitch padding fallback low high entries).rest.length := by
    simp only [List.append_assoc] at hlow hhigh
    simp only [tableWidth, Item.rest, List.append_assoc, hlow, hhigh, List.length_append,
      word_length, flatMap_length word_length, hp, hlen]
    omega
  rw [instruction_eq size pc (by decide), withOperands_tableSwitch size pc rfl, hwidth,
    if_pos (by rw [List.length_append]; omega)]
  rfl

theorem instruction_lookupSwitch {size pc : Nat} {padding : Bytes} {fallback count : Int32}
    {pairs : List (Int32 × Int32)} (hx : (lookupSwitch padding fallback count pairs).WellFormed pc)
    (r : Bytes) :
    instruction size pc 0xab ((lookupSwitch padding fallback count pairs).rest ++ r) =
      checked size pc (lookupSwitch padding fallback count pairs) := by
  obtain ⟨hp, hlen⟩ := hx
  have hp := pads_length hp
  have hfront : (padding ++ word fallback).length = switchPadding pc + 4 := by
    rw [List.length_append, hp, word_length]
  have hcount := number_after hfront count (pairs.flatMap pair ++ r)
  have hwidth : lookupWidth pc ((lookupSwitch padding fallback count pairs).rest ++ r) =
      (lookupSwitch padding fallback count pairs).rest.length := by
    simp only [List.append_assoc] at hcount
    simp only [lookupWidth, Item.rest, List.append_assoc, hcount, List.length_append, word_length,
      flatMap_length pair_length, hp, hlen]
    omega
  rw [instruction_eq size pc (by decide), withOperands_lookupSwitch size pc rfl, hwidth,
    if_pos (by rw [List.length_append]; omega)]
  rfl

/-- Bytes that begin with an item are read as this item, whatever follows. -/
theorem instruction_of_item {size pc : Nat} {x : Item} (hx : x.WellFormed pc) (r : Bytes) :
    instruction size pc x.lead (x.rest ++ r) = checked size pc x := by
  cases x with
  | plain opcode operands => exact instruction_plain hx r
  | wideSlot opcode i => exact instruction_wideSlot hx r
  | wideIncrement i d => exact instruction_wideIncrement r
  | tableSwitch padding fallback low high entries => exact instruction_tableSwitch hx r
  | lookupSwitch padding fallback count pairs => exact instruction_lookupSwitch hx r

theorem item_of_plain {size pc : Nat} {opcode : Opcode} {rest : Bytes} {out : Instruction × Nat}
    (hplain : opcode.byte ≠ 0xaa ∧ opcode.byte ≠ 0xab ∧ opcode.byte ≠ 0xc4)
    (h : withOperands size pc opcode rest = .ok out) :
    ∃ (x : Item) (r : Bytes), x.WellFormed pc ∧ opcode.byte :: rest = x.encode ++ r := by
  rw [withOperands_plain size pc opcode rest hplain] at h
  simp only [plainResult] at h
  split at h
  case isTrue hlen =>
    refine ⟨plain opcode (rest.take (Opcode.operandWidth opcode.byte.toNat)),
      rest.drop (Opcode.operandWidth opcode.byte.toNat),
      ⟨hplain.1, hplain.2.1, hplain.2.2, List.length_take_of_le hlen⟩, ?_⟩
    rw [encode, lead, Item.rest, List.cons_append, List.take_append_drop]
  case isFalse => cases h

theorem item_of_wide {pc : Nat} {rest : Bytes} {out : Instruction × Nat}
    (h : wideInstruction pc rest = .ok out) :
    ∃ (x : Item) (r : Bytes), x.WellFormed pc ∧ 0xc4 :: rest = x.encode ++ r := by
  cases rest with
  | nil => cases h
  | cons byte rest =>
    rw [wideInstruction_eq] at h
    split at h
    case isTrue hb =>
      split at h
      case isTrue hi =>
        split at h
        case isTrue hlen =>
          refine ⟨wideIncrement (index rest) (index (rest.drop 2)).toInt16, rest.drop 4,
            trivial, ?_⟩
          have hback : (index (rest.drop 2)).toInt16.toUInt16 = index (rest.drop 2) := rfl
          rw [encode, lead, Item.rest, hi, hback, octets_index (by omega),
            octets_index (by rw [List.length_drop]; omega), ← List.take_add, List.cons_append,
            List.cons_append, List.take_append_drop]
        case isFalse => cases h
      case isFalse hi =>
        split at h
        case isTrue hlen =>
          refine ⟨wideSlot ⟨byte, hb.1⟩ (index rest), rest.drop 2, ⟨hb.2, hi⟩, ?_⟩
          rw [encode, lead, Item.rest, List.cons_append, List.cons_append, octets_index hlen,
            List.take_append_drop]
        case isFalse => cases h
    case isFalse => cases h

/-- The next four bytes are a number. -/
theorem word_drop {bs : Bytes} {k : Nat} (h : k + 4 ≤ bs.length) :
    word (number (bs.drop k)) ++ bs.drop (k + 4) = bs.drop k := by
  rw [word_number (by rw [List.length_drop]; omega), ← List.drop_drop, List.take_append_drop]

theorem pads_take {pc : Nat} {rest : Bytes} (h : switchPadding pc ≤ rest.length) :
    Pads pc (rest.take (switchPadding pc)) := by
  have hlen := List.length_take_of_le h
  unfold Pads
  rw [hlen]
  unfold switchPadding
  omega

theorem item_of_tableSwitch {size pc : Nat} {opcode : Opcode} {rest : Bytes}
    {out : Instruction × Nat} (hb : opcode.byte = 0xaa)
    (h : withOperands size pc opcode rest = .ok out) :
    ∃ (x : Item) (r : Bytes), x.WellFormed pc ∧ 0xaa :: rest = x.encode ++ r := by
  rw [withOperands_tableSwitch size pc hb] at h
  split at h
  case isTrue hlen =>
    let p := switchPadding pc
    let low := number (rest.drop (p + 4))
    let high := number (rest.drop (p + 8))
    change p + 12 + 4 * (high.toInt - low.toInt + 1).toNat ≤ rest.length at hlen
    obtain ⟨entries, hcount, hentries⟩ := exists_flatMap exists_word
      (high.toInt - low.toInt + 1).toNat (rest.drop (p + 12))
      (by rw [List.length_drop]; omega)
    refine ⟨tableSwitch (rest.take p) (number (rest.drop p)) low high entries,
      (rest.drop (p + 12)).drop (4 * (high.toInt - low.toInt + 1).toNat),
      ⟨pads_take (by omega), hcount⟩, ?_⟩
    simp only [encode, lead, Item.rest, List.cons_append, List.append_assoc, hentries,
      List.take_append_drop]
    rw [word_drop (by omega), word_drop (by omega), word_drop (by omega), List.take_append_drop]
  case isFalse => cases h

theorem item_of_lookupSwitch {size pc : Nat} {opcode : Opcode} {rest : Bytes}
    {out : Instruction × Nat} (hb : opcode.byte = 0xab)
    (h : withOperands size pc opcode rest = .ok out) :
    ∃ (x : Item) (r : Bytes), x.WellFormed pc ∧ 0xab :: rest = x.encode ++ r := by
  rw [withOperands_lookupSwitch size pc hb] at h
  split at h
  case isTrue hlen =>
    let p := switchPadding pc
    let count := number (rest.drop (p + 4))
    change p + 8 + 8 * count.toInt.toNat ≤ rest.length at hlen
    obtain ⟨pairs, hcount, hpairs⟩ := exists_flatMap exists_pair count.toInt.toNat
      (rest.drop (p + 8)) (by rw [List.length_drop]; omega)
    refine ⟨lookupSwitch (rest.take p) (number (rest.drop p)) count pairs,
      (rest.drop (p + 8)).drop (8 * count.toInt.toNat), ⟨pads_take (by omega), hcount⟩, ?_⟩
    simp only [encode, lead, Item.rest, List.cons_append, List.append_assoc, hpairs,
      List.take_append_drop]
    rw [word_drop (by omega), word_drop (by omega), List.take_append_drop]
  case isFalse => cases h

/-- Bytes that are read as an instruction begin with an item. -/
theorem item_of_instruction {size pc : Nat} {byte : UInt8} {rest : Bytes}
    {out : Instruction × Nat} (h : instruction size pc byte rest = .ok out) :
    ∃ (x : Item) (r : Bytes), x.WellFormed pc ∧ byte :: rest = x.encode ++ r := by
  by_cases hlt : byte.toNat < Opcode.count
  · rw [instruction_eq size pc hlt] at h
    by_cases ha : byte = 0xaa
    · rw [ha]
      exact item_of_tableSwitch ha h
    · by_cases hb : byte = 0xab
      · rw [hb]
        exact item_of_lookupSwitch hb h
      · by_cases hc : byte = 0xc4
        · rw [withOperands_wide size pc hc] at h
          rw [hc]
          exact item_of_wide h
        · exact item_of_plain ⟨ha, hb, hc⟩ h
  · simp only [instruction, Opcode.ofByte?, dif_neg hlt] at h
    cases h

end Code
end ClassVM
