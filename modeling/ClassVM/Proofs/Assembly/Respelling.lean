import ClassVM.Proofs.Assembly.Grammar
import ClassVM.Proofs.Code.Layout
import ClassVM.Proofs.Code.OffsetTable

namespace ClassVM
open Binary

/-- The operation without the target of a branch. -/
def Op.aimless : Op → Op
  | branchIf condition _ => branchIf condition 0
  | branchCompare condition _ => branchCompare condition 0
  | jump _ => jump 0
  | op => op

theorem Op.corresponds_of_aimless {m n : Method} {op op' : Op} (h : op.aimless = op'.aimless)
    (htargets : ∀ target other, op.target? = some target → op'.target? = some other →
      m.indexOf? target = n.indexOf? other) : op.Corresponds m n op' := by
  cases op
  case branchIf condition target =>
    cases op' <;> cases h
    case branchIf other => exact .branchIf condition (htargets target other rfl rfl)
  case branchCompare condition target =>
    cases op' <;> cases h
    case branchCompare other => exact .branchCompare condition (htargets target other rfl rfl)
  case jump target =>
    cases op' <;> cases h
    case jump other => exact .jump (htargets target other rfl rfl)
  all_goals
    cases op' <;> cases h
    exact .same rfl

namespace Item

/-- The second item is another way to write down the first, up to the distance of a branch. -/
inductive Respells : Item → Item → Prop where
  | refl (x : Item) : Respells x x
  | symm {x y : Item} (h : Respells x y) : Respells y x
  | trans {x y z : Item} (h : Respells x y) (h' : Respells y z) : Respells x z
  /-- `iload_0` to `iload_3`, and `iload`. -/
  | load {opcode : Opcode} {slot : UInt8} (hslot : slot < 4) (hopcode : opcode.byte = 0x1a + slot) :
    Respells (plain opcode []) (plain ⟨0x15, by decide⟩ [slot])
  /-- `istore_0` to `istore_3`, and `istore`. -/
  | store {opcode : Opcode} {slot : UInt8} (hslot : slot < 4) (hopcode : opcode.byte = 0x3b + slot) :
    Respells (plain opcode []) (plain ⟨0x36, by decide⟩ [slot])
  /-- A load, a store or `ret`, and the same after `wide`. -/
  | wide {opcode : Opcode} (slot : UInt8)
    (hopcode : Opcode.widenable opcode.byte.toNat ∧ opcode.byte ≠ 0x84) :
    Respells (plain opcode [slot]) (wideSlot opcode slot.toUInt16)
  /-- `bipush` and `sipush` of one number. -/
  | push {byte short : Bytes} (h : signed byte = signed short) :
    Respells (plain ⟨0x10, by decide⟩ byte) (plain ⟨0x11, by decide⟩ short)
  /-- A branch over another distance. -/
  | branch {opcode : Opcode} (hopcode : ((Opcode.meaning opcode.byte.toNat).target? 0 []).isSome)
    (distance other : Bytes) : Respells (plain opcode distance) (plain opcode other)
  /-- `goto` and `goto_w`. -/
  | jump (near far : Bytes) :
    Respells (plain ⟨0xa7, by decide⟩ near) (plain ⟨0xc8, by decide⟩ far)
  /-- A switch at an offset that asks for other padding. -/
  | tableSwitch (padding other : Bytes) (fallback low high : Int32) (entries : List Int32) :
    Respells (tableSwitch padding fallback low high entries)
      (tableSwitch other fallback low high entries)
  | lookupSwitch (padding other : Bytes) (fallback count : Int32) (pairs : List (Int32 × Int32)) :
    Respells (lookupSwitch padding fallback count pairs) (lookupSwitch other fallback count pairs)

/-- Where the item at a position starts. -/
def offsetOf (xs : List Item) (position : Nat) : Nat := (assemble (xs.take position)).length

/-- The item at a position is a branch to the start of another one. -/
def LeadsTo (xs : List Item) (position destination : Nat) : Prop :=
  destination < xs.length ∧
    xs[position]?.bind (target? (offsetOf xs position)) = some ↑(offsetOf xs destination)

instance (xs : List Item) (position destination : Nat) :
    Decidable (LeadsTo xs position destination) :=
  inferInstanceAs (Decidable (_ ∧ _))

/-- The second list is another way to write down the first: item by item the same instructions, with
the branches leading to the same positions. -/
structure Respelled (xs ys : List Item) : Prop where
  items : List.Forall₂ Respells xs ys
  branches : ∀ position < xs.length, ∀ destination < xs.length,
    (LeadsTo xs position destination ↔ LeadsTo ys position destination)

section operations
variable (byte pc qc : Nat) (operands : Bytes)

theorem aimless_of_meaning :
    ((Opcode.meaning byte).op pc operands).aimless =
      ((Opcode.meaning byte).op qc operands).aimless := by
  cases Opcode.meaning byte <;> rfl

theorem aimless_of_branch (h : ((Opcode.meaning byte).target? 0 []).isSome) (other : Bytes) :
    ((Opcode.meaning byte).op pc operands).aimless =
      ((Opcode.meaning byte).op qc other).aimless := by
  generalize Opcode.meaning byte = meaning at h ⊢
  cases meaning with
  | branchIf | branchCompare | jump => rfl
  | _ => cases h

theorem target?_of_meaning :
    ((Opcode.meaning byte).op pc operands).target? =
      ((Opcode.meaning byte).target? pc operands).map Int.toNat := by
  unfold Opcode.meaning
  split <;> rfl

end operations

theorem target?_of_op (pc : Nat) (x : Item) : (x.op pc).target? = (x.target? pc).map Int.toNat := by
  cases x with
  | plain opcode operands => exact target?_of_meaning opcode.byte.toNat pc operands
  | wideSlot opcode index =>
    simp only [op]
    split <;> rfl
  | wideIncrement | tableSwitch | lookupSwitch => rfl

theorem slot_cases {slot : UInt8} (h : slot < 4) : slot = 0 ∨ slot = 1 ∨ slot = 2 ∨ slot = 3 := by
  have hlt : slot.toNat < 4 := h
  simp only [← UInt8.toNat_inj]
  change slot.toNat = 0 ∨ slot.toNat = 1 ∨ slot.toNat = 2 ∨ slot.toNat = 3
  omega

/-- A slot of one byte, written with two. -/
theorem op_of_wide (pc : Nat) {opcode : Opcode} (slot : UInt8)
    (h : Opcode.widenable opcode.byte.toNat ∧ opcode.byte ≠ 0x84) :
    (plain opcode [slot]).op pc = (wideSlot opcode slot.toUInt16).op pc := by
  have hbyte : opcode.byte.toNat ≠ 0x84 := fun hbyte => h.2 (UInt8.toNat_inj.mp hbyte)
  have hwidenable := h.1
  have hslot : UInt16.ofNat (bigEndian [slot]) = slot.toUInt16 := by
    rw [← toUInt16_ofNat rfl]
    simp [bigEndian, place]
  simp only [op]
  generalize opcode.byte.toNat = byte at hbyte hwidenable ⊢
  simp only [Opcode.widenable, decide_eq_true_eq, List.mem_cons, List.not_mem_nil, or_false]
    at hwidenable
  rcases hwidenable with rfl | rfl | rfl | rfl | rfl | rfl | rfl | rfl | rfl | rfl | rfl | rfl
  all_goals first
    | exact absurd rfl hbyte
    | exact congrArg Op.load hslot
    | exact congrArg Op.store hslot
    | rfl

theorem Respells.aimless {x y : Item} (h : x.Respells y) (pc qc : Nat) :
    (x.op pc).aimless = (y.op qc).aimless := by
  induction h generalizing pc qc with
  | refl x =>
    cases x with
    | plain opcode operands => exact aimless_of_meaning _ pc qc operands
    | wideSlot | wideIncrement | tableSwitch | lookupSwitch => rfl
  | symm h ih => exact (ih qc pc).symm
  | trans h h' ih ih' => exact (ih pc pc).trans (ih' pc qc)
  | load hslot hopcode | store hslot hopcode =>
    rcases slot_cases hslot with rfl | rfl | rfl | rfl <;> simp only [op, hopcode] <;> rfl
  | wide slot hopcode =>
    rw [op_of_wide pc slot hopcode]
    rfl
  | push h =>
    change Op.push (.ofInt (signed _)) = Op.push (.ofInt (signed _))
    rw [h]
  | branch hopcode distance other => exact aimless_of_branch _ pc qc distance hopcode other
  | jump | tableSwitch | lookupSwitch => rfl

theorem offsetOf_succ (x : Item) (xs : List Item) (position : Nat) :
    offsetOf (x :: xs) (position + 1) = x.encode.length + offsetOf xs position := by
  simp only [offsetOf, List.take_succ_cons, assemble, List.flatMap_cons, List.length_append]

theorem listing_length (pc : Nat) (xs : List Item) : (listing pc xs).length = xs.length := by
  induction xs generalizing pc with
  | nil => rfl
  | cons x xs ih => rw [listing, List.length_cons, List.length_cons, ih]

theorem listing_getElem? (pc : Nat) (xs : List Item) (position : Nat) :
    (listing pc xs)[position]? = xs[position]?.map (·.instruction (pc + offsetOf xs position)) := by
  induction xs generalizing pc position with
  | nil => rfl
  | cons x xs ih =>
    cases position with
    | zero => rfl
    | succ position =>
      rw [listing, List.getElem?_cons_succ, List.getElem?_cons_succ, ih, offsetOf_succ,
        Nat.add_assoc]

/-- No branch leads before the beginning of the code. -/
theorem target_nonneg {size pc : Nat} {xs : List Item} (h : TargetsWithin size pc xs)
    {position : Nat} {x : Item} (hx : xs[position]? = some x) {t : Int}
    (ht : x.target? (pc + offsetOf xs position) = some t) : 0 ≤ t := by
  induction xs generalizing pc position with
  | nil => cases hx
  | cons y xs ih =>
    cases position with
    | zero =>
      cases hx
      exact (h.1 t ht).1
    | succ position =>
      rw [offsetOf_succ, ← Nat.add_assoc] at ht
      exact ih h.2 hx ht

section methods
variable {m n : Method} {xs ys : List Item} {size position : Nat}

/-- A method whose code is laid out by items has the instructions that are listed for these. -/
theorem listed_of_code {body : Body} (hbody : m.body = some body)
    (hcode : body.code = assemble xs) (hlaid : WellLaid 0 xs) :
    m.instructions.toList = listing 0 xs := by
  obtain ⟨items, hitems, -, hsame, hlisting⟩ := Code.items_of_decode body.instructions_eq
  obtain rfl : items = xs := assemble_inj hitems hlaid (hsame.trans hcode)
  rw [Method.instructions, hbody]
  exact hlisting.symm

theorem instruction_of_listing (hm : m.instructions.toList = listing 0 xs) (position : Nat) :
    m.instructions[position]? = xs[position]?.map (·.instruction (offsetOf xs position)) := by
  rw [← Array.getElem?_toList, hm, listing_getElem?, Nat.zero_add]

/-- A method finds the target of a branch at the position that the branch leads to. -/
theorem indexOf?_of_listing (hm : m.instructions.toList = listing 0 xs)
    (ht : TargetsWithin size 0 xs) {x : Item} (hx : xs[position]? = some x) {target : Nat}
    (htarget : (x.op (offsetOf xs position)).target? = some target) (destination : Nat) :
    m.indexOf? target = some destination ↔ LeadsTo xs position destination := by
  rw [target?_of_op, Option.map_eq_some_iff] at htarget
  obtain ⟨t, hxt, rfl⟩ := htarget
  have hnonneg : 0 ≤ t := target_nonneg ht hx (by rwa [Nat.zero_add])
  rw [m.indexOf?_eq_some_iff, instruction_of_listing hm]
  constructor
  · rintro ⟨i, hi, hpc⟩
    obtain ⟨z, hz, rfl⟩ := Option.map_eq_some_iff.mp hi
    change offsetOf xs destination = t.toNat at hpc
    refine ⟨(List.getElem?_eq_some_iff.mp hz).1, ?_⟩
    rw [hx, Option.bind_some, hxt, hpc, Int.toNat_of_nonneg hnonneg]
  · rintro ⟨hlt, hlead⟩
    rw [hx, Option.bind_some, hxt] at hlead
    obtain rfl := Option.some.inj hlead
    exact ⟨_, by rw [List.getElem?_eq_getElem hlt]; rfl, rfl⟩

theorem Respelled.op_corresponds (h : Respelled xs ys)
    (hm : m.instructions.toList = listing 0 xs) (hn : n.instructions.toList = listing 0 ys)
    {size' : Nat} (hx : TargetsWithin size 0 xs) (hy : TargetsWithin size' 0 ys) {i j : Instruction}
    (hi : m.instructions[position]? = some i) (hj : n.instructions[position]? = some j) :
    i.op.Corresponds m n j.op := by
  rw [instruction_of_listing hm, Option.map_eq_some_iff] at hi
  rw [instruction_of_listing hn, Option.map_eq_some_iff] at hj
  obtain ⟨x, hx', rfl⟩ := hi
  obtain ⟨y, hy', rfl⟩ := hj
  obtain ⟨hlt, hget⟩ := List.getElem?_eq_some_iff.mp hx'
  obtain ⟨hlt', hget'⟩ := List.getElem?_eq_some_iff.mp hy'
  have hitem : x.Respells y := hget ▸ hget' ▸ h.items.get hlt hlt'
  refine Op.corresponds_of_aimless (hitem.aimless _ _) fun target other htarget hother => ?_
  ext destination
  rw [indexOf?_of_listing hm hx hx' htarget, indexOf?_of_listing hn hy hy' hother]
  by_cases hdestination : destination < xs.length
  · exact h.branches position hlt destination hdestination
  · exact iff_of_false (fun hlead => hdestination hlead.1)
      (fun hlead => hdestination (h.items.length_eq ▸ hlead.1))

end methods

/-- The body whose code the items lay out. -/
def toBody (maxStack maxLocals : UInt16) (xs : List Item) (hx : WellLaid 0 xs)
    (ht : TargetsWithin (assemble xs).length 0 xs) : Body where
  maxStack := maxStack
  maxLocals := maxLocals
  code := assemble xs
  instructions := (listing 0 xs).toArray
  offsets := offsetTable (assemble xs).length (listing 0 xs).toArray
  instructions_eq := Code.decode_assemble hx ht
  offsets_eq := rfl

end Item

open Item

theorem Body.ofCode_assemble (maxStack maxLocals : UInt16) {xs : List Item} (hx : WellLaid 0 xs)
    (ht : TargetsWithin (assemble xs).length 0 xs) :
    ofCode maxStack maxLocals (assemble xs) = .ok (toBody maxStack maxLocals xs hx ht) := by
  have hcode := Code.decode_assemble hx ht
  unfold ofCode
  split
  case h_1 e hfound =>
    rw [hcode] at hfound
    cases hfound
  case h_2 found hfound =>
    rw [hcode] at hfound
    obtain rfl := Except.ok.inj hfound
    rfl

namespace Method
variable {name descriptor : String} {flags : UInt16} {body : Option Body}

theorem exists_ofBody {signature : Signature} (h : Signature.parse descriptor = .ok signature) :
    ∃ m, ofBody name descriptor flags body = .ok m := by
  unfold ofBody
  split
  case h_1 e hparse =>
    rw [h] at hparse
    cases hparse
  case h_2 => exact ⟨_, rfl⟩

theorem ofCode_assemble (name descriptor : String) (flags maxStack maxLocals : UInt16)
    {xs : List Item} (hx : WellLaid 0 xs) (ht : TargetsWithin (assemble xs).length 0 xs) :
    ofCode name descriptor flags maxStack maxLocals (assemble xs) =
      ofBody name descriptor flags (some (toBody maxStack maxLocals xs hx ht)) := by
  rw [ofCode, Body.ofCode_assemble maxStack maxLocals hx ht]
  rfl

/-- A method keeps its meaning when its code is written in another way, and it can still be loaded if
the branches that lead to no instruction stay within the code. -/
theorem corresponds_of_respelled {xs ys : List Item} (hx : WellLaid 0 xs) (hy : WellLaid 0 ys)
    (ht : TargetsWithin (assemble ys).length 0 ys) (h : Respelled xs ys)
    {maxStack maxLocals : UInt16} (flags' maxStack' : UInt16) {m : Method}
    (hm : ofCode name descriptor flags maxStack maxLocals (assemble xs) = .ok m) :
    ∃ n, ofCode name descriptor flags' maxStack' maxLocals (assemble ys) = .ok n ∧
      m.Corresponds n := by
  -- Code that can be decoded is laid out by one list of items only, with branches that stay within it.
  obtain ⟨xs', hlaid, hwithin, hsame, -⟩ := Code.items_of_decode (decode_of_ofCode hm)
  obtain rfl : xs = xs' := assemble_inj hx hlaid hsame.symm
  rw [ofCode_assemble _ _ _ _ _ hx hwithin] at hm
  obtain ⟨hname, hdescriptor, hbody⟩ := of_ofBody hm
  obtain ⟨n, hn⟩ : ∃ n, ofCode name descriptor flags' maxStack' maxLocals (assemble ys) = .ok n := by
    rw [ofCode_assemble _ _ _ _ _ hy ht]
    exact exists_ofBody (hdescriptor ▸ m.signature_eq)
  obtain ⟨hname', hdescriptor', hbody'⟩ := of_ofBody (ofCode_assemble _ _ _ _ _ hy ht ▸ hn)
  have hlisted : m.instructions.toList = listing 0 xs := by
    rw [Method.instructions, hbody]
    rfl
  have hlisted' : n.instructions.toList = listing 0 ys := by
    rw [Method.instructions, hbody']
    rfl
  refine ⟨n, hn, hname.trans hname'.symm, hdescriptor.trans hdescriptor'.symm, ?_, ?_, ?_, ?_⟩
  · rw [Method.maxLocals, Method.maxLocals, hbody, hbody']
    rfl
  · rw [hbody, hbody']
    rfl
  · rw [← Array.length_toList, ← Array.length_toList, hlisted, hlisted', listing_length,
      listing_length, h.items.length_eq]
  · intro position i j hi hj
    exact h.op_corresponds hlisted hlisted' hwithin ht hi hj

end Method
end ClassVM
