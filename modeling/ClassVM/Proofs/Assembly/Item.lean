import ClassVM.Proofs.Assembly.InstructionSet

namespace ClassVM
open Binary

/-- One instruction of an assembly. -/
inductive Item where
  /-- An opcode and its operand bytes. -/
  | plain (opcode : Opcode) (operands : Bytes)
  /-- A load, a store or `ret` after `wide`. -/
  | wideSlot (opcode : Opcode) (index : UInt16)
  /-- `iinc` after `wide`. -/
  | wideIncrement (index : UInt16) (delta : Int16)
  | tableSwitch (padding : Bytes) (fallback low high : Int32) (entries : List Int32)
  | lookupSwitch (padding : Bytes) (fallback count : Int32) (pairs : List (Int32 × Int32))

namespace Item

/-- The opcode that the instruction is named after; `wide` only says how wide its operands are. -/
def opcode : Item → Opcode
  | plain opcode _ | wideSlot opcode _ => opcode
  | wideIncrement _ _ => ⟨0x84, by decide⟩
  | tableSwitch _ _ _ _ _ => ⟨0xaa, by decide⟩
  | lookupSwitch _ _ _ _ => ⟨0xab, by decide⟩

def lead : Item → UInt8
  | plain opcode _ => opcode.byte
  | wideSlot _ _ | wideIncrement _ _ => 0xc4
  | tableSwitch _ _ _ _ _ => 0xaa
  | lookupSwitch _ _ _ _ => 0xab

def word (n : Int32) : Bytes := octets 4 n.toUInt32.toNat

def pair (p : Int32 × Int32) : Bytes := word p.1 ++ word p.2

def rest : Item → Bytes
  | plain _ operands => operands
  | wideSlot opcode index => opcode.byte :: octets 2 index.toNat
  | wideIncrement index delta => 0x84 :: (octets 2 index.toNat ++ octets 2 delta.toUInt16.toNat)
  | tableSwitch padding fallback low high entries =>
    padding ++ (word fallback ++ (word low ++ (word high ++ entries.flatMap word)))
  | lookupSwitch padding fallback count pairs =>
    padding ++ (word fallback ++ (word count ++ pairs.flatMap pair))

def encode (x : Item) : Bytes := x.lead :: x.rest

def op (pc : Nat) : Item → Op
  | plain opcode operands => (Opcode.meaning opcode.byte.toNat).op pc operands
  | wideSlot opcode index =>
    match Opcode.meaning opcode.byte.toNat with
    | .load => .load index
    | .store => .store index
    | _ => .unsupported
  | wideIncrement index delta => .increment index delta.toInt32
  | tableSwitch _ _ _ _ _ | lookupSwitch _ _ _ _ => .unsupported

def instruction (pc : Nat) (x : Item) : Instruction := ⟨pc, x.opcode, x.op pc⟩

def target? (pc : Nat) : Item → Option Int
  | plain opcode operands => (Opcode.meaning opcode.byte.toNat).target? pc operands
  | _ => none

/-- The padding of a switch at `pc` ends at the next multiple of four. -/
def Pads (pc : Nat) (padding : Bytes) : Prop :=
  padding.length ≤ 3 ∧ (pc + 1 + padding.length) % 4 = 0

/-- The forms that an instruction at `pc` may have. -/
def WellFormed (pc : Nat) : Item → Prop
  | plain opcode operands =>
    opcode.byte ≠ 0xaa ∧ opcode.byte ≠ 0xab ∧ opcode.byte ≠ 0xc4 ∧
      operands.length = Opcode.operandWidth opcode.byte.toNat
  | wideSlot opcode _ => Opcode.widenable opcode.byte.toNat ∧ opcode.byte ≠ 0x84
  | wideIncrement _ _ => True
  | tableSwitch padding _ low high entries =>
    Pads pc padding ∧ entries.length = (high.toInt - low.toInt + 1).toNat
  | lookupSwitch padding _ count pairs => Pads pc padding ∧ pairs.length = count.toInt.toNat

instance (pc : Nat) : (x : Item) → Decidable (x.WellFormed pc)
  | plain _ _ => inferInstanceAs (Decidable (_ ∧ _ ∧ _ ∧ _))
  | wideSlot _ _ => inferInstanceAs (Decidable (_ ∧ _))
  | wideIncrement _ _ => inferInstanceAs (Decidable True)
  | tableSwitch _ _ _ _ _ | lookupSwitch _ _ _ _ => inferInstanceAs (Decidable ((_ ∧ _) ∧ _))

theorem pads_length {pc : Nat} {padding : Bytes} (h : Pads pc padding) :
    padding.length = Code.switchPadding pc := by
  obtain ⟨h3, h4⟩ := h
  unfold Code.switchPadding
  omega

theorem word_length (n : Int32) : (word n).length = 4 := octets_length 4 _

theorem pair_length (p : Int32 × Int32) : (pair p).length = 8 := by
  rw [pair, List.length_append, word_length, word_length]

theorem word_inj {m n : Int32} (h : word m = word n) : m = n := by
  have h := octets_inj (u32_lt_place _) (u32_lt_place _) h
  exact congrArg UInt32.toInt32 (UInt32.toNat_inj.mp h)

theorem pair_inj {p q : Int32 × Int32} (h : pair p = pair q) : p = q := by
  obtain ⟨h1, h2⟩ := List.append_inj h (by rw [word_length, word_length])
  exact Prod.ext (word_inj h1) (word_inj h2)

theorem octets_u16_inj {m n : UInt16} (h : octets 2 m.toNat = octets 2 n.toNat) : m = n :=
  UInt16.toNat_inj.mp (octets_inj (u16_lt_place m) (u16_lt_place n) h)

/-- A list of numbers of one width is determined by its bytes and its length. -/
theorem flatMap_inj {α : Type} {f : α → Bytes} {k : Nat} (hk : ∀ a, (f a).length = k)
    (hf : ∀ a b, f a = f b → a = b) {xs ys : List α} {r s : Bytes} (hl : xs.length = ys.length)
    (h : xs.flatMap f ++ r = ys.flatMap f ++ s) : xs = ys ∧ r = s := by
  induction xs generalizing ys with
  | nil =>
    cases ys with
    | nil => exact ⟨rfl, h⟩
    | cons y ys => simp at hl
  | cons x xs ih =>
    cases ys with
    | nil => simp at hl
    | cons y ys =>
      simp only [List.flatMap_cons, List.append_assoc] at h
      obtain ⟨hxy, h⟩ := List.append_inj h (by rw [hk, hk])
      obtain ⟨hxs, hrs⟩ := ih (by simpa using hl) h
      exact ⟨by rw [hf x y hxy, hxs], hrs⟩

theorem plain_inj {pc : Nat} {o p : Opcode} {a b r s : Bytes} (hx : (plain o a).WellFormed pc)
    (hy : (plain p b).WellFormed pc) (h : (plain o a).encode ++ r = (plain p b).encode ++ s) :
    plain o a = plain p b ∧ r = s := by
  simp only [encode, lead, rest, List.cons_append] at h
  obtain ⟨hbyte, hbytes⟩ := List.cons.inj h
  obtain rfl : o = p := Opcode.eq_of_byte hbyte
  obtain ⟨rfl, hrs⟩ := List.append_inj hbytes (by rw [hx.2.2.2, hy.2.2.2])
  exact ⟨rfl, hrs⟩

theorem wideSlot_inj {o p : Opcode} {m n : UInt16} {r s : Bytes}
    (h : (wideSlot o m).encode ++ r = (wideSlot p n).encode ++ s) :
    wideSlot o m = wideSlot p n ∧ r = s := by
  simp only [encode, lead, rest, List.cons_append] at h
  obtain ⟨hbyte, hindex⟩ := List.cons.inj (List.cons.inj h).2
  obtain ⟨hmn, hrs⟩ := List.append_inj hindex (by rw [octets_length, octets_length])
  rw [Opcode.eq_of_byte hbyte, octets_u16_inj hmn]
  exact ⟨rfl, hrs⟩

theorem wideIncrement_inj {m n : UInt16} {d e : Int16} {r s : Bytes}
    (h : (wideIncrement m d).encode ++ r = (wideIncrement n e).encode ++ s) :
    wideIncrement m d = wideIncrement n e ∧ r = s := by
  simp only [encode, lead, rest, List.cons_append, List.append_assoc] at h
  have hindex := (List.cons.inj (List.cons.inj h).2).2
  obtain ⟨hmn, hdelta⟩ := List.append_inj hindex (by rw [octets_length, octets_length])
  obtain ⟨hde, hrs⟩ := List.append_inj hdelta (by rw [octets_length, octets_length])
  have hde : d = e := congrArg UInt16.toInt16 (octets_u16_inj hde)
  rw [octets_u16_inj hmn, hde]
  exact ⟨rfl, hrs⟩

theorem tableSwitch_inj {pc : Nat} {p q : Bytes} {d e l m u v : Int32} {xs ys : List Int32}
    {r s : Bytes} (hx : (tableSwitch p d l u xs).WellFormed pc)
    (hy : (tableSwitch q e m v ys).WellFormed pc)
    (h : (tableSwitch p d l u xs).encode ++ r = (tableSwitch q e m v ys).encode ++ s) :
    tableSwitch p d l u xs = tableSwitch q e m v ys ∧ r = s := by
  simp only [encode, lead, rest, List.cons_append, List.append_assoc] at h
  obtain ⟨hp, h1⟩ := List.append_inj (List.cons.inj h).2
    (by rw [pads_length hx.1, pads_length hy.1])
  obtain ⟨hd, h2⟩ := List.append_inj h1 (by rw [word_length, word_length])
  obtain ⟨hl, h3⟩ := List.append_inj h2 (by rw [word_length, word_length])
  obtain ⟨hu, h4⟩ := List.append_inj h3 (by rw [word_length, word_length])
  obtain rfl := word_inj hl
  obtain rfl := word_inj hu
  obtain ⟨hxs, hrs⟩ := flatMap_inj word_length (fun _ _ => word_inj) (by rw [hx.2, hy.2]) h4
  rw [hp, word_inj hd, hxs]
  exact ⟨rfl, hrs⟩

theorem lookupSwitch_inj {pc : Nat} {p q : Bytes} {d e c k : Int32} {xs ys : List (Int32 × Int32)}
    {r s : Bytes} (hx : (lookupSwitch p d c xs).WellFormed pc)
    (hy : (lookupSwitch q e k ys).WellFormed pc)
    (h : (lookupSwitch p d c xs).encode ++ r = (lookupSwitch q e k ys).encode ++ s) :
    lookupSwitch p d c xs = lookupSwitch q e k ys ∧ r = s := by
  simp only [encode, lead, rest, List.cons_append, List.append_assoc] at h
  obtain ⟨hp, h1⟩ := List.append_inj (List.cons.inj h).2
    (by rw [pads_length hx.1, pads_length hy.1])
  obtain ⟨hd, h2⟩ := List.append_inj h1 (by rw [word_length, word_length])
  obtain ⟨hc, h3⟩ := List.append_inj h2 (by rw [word_length, word_length])
  obtain rfl := word_inj hc
  obtain ⟨hxs, hrs⟩ := flatMap_inj pair_length (fun _ _ => pair_inj) (by rw [hx.2, hy.2]) h3
  rw [hp, word_inj hd, hxs]
  exact ⟨rfl, hrs⟩

/-- The first two bytes tell the five forms apart. -/
theorem encode_inj {pc : Nat} {x y : Item} {r s : Bytes} (hx : x.WellFormed pc)
    (hy : y.WellFormed pc) (h : x.encode ++ r = y.encode ++ s) : x = y ∧ r = s := by
  have hlead : x.lead = y.lead := (List.cons.inj h).1
  cases x <;> cases y
  case plain.plain => exact plain_inj hx hy h
  case wideSlot.wideSlot => exact wideSlot_inj h
  case wideIncrement.wideIncrement => exact wideIncrement_inj h
  case tableSwitch.tableSwitch => exact tableSwitch_inj hx hy h
  case lookupSwitch.lookupSwitch => exact lookupSwitch_inj hx hy h
  case wideSlot.wideIncrement => exact absurd (List.cons.inj (List.cons.inj h).2).1 hx.2
  case wideIncrement.wideSlot => exact absurd (List.cons.inj (List.cons.inj h).2).1.symm hy.2
  all_goals
    -- One of the two starts with a byte that no item of the other form starts with.
    simp_all [lead, WellFormed]

end Item
end ClassVM
