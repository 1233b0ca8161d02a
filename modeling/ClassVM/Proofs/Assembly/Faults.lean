import ClassVM.Proofs.Assembly.Grammar

namespace ClassVM
open Binary

/-- The offset that a fault of the code is said to be at. -/
def FormatError.pc? : FormatError → Option Nat
  | invalidOpcode _ pc | truncatedInstruction pc | branchOutOfRange pc _ => some pc
  | _ => none

namespace Code
open Item

/-- The bytes begin with one that is no opcode, or with `wide` and one that is no opcode that it can
widen. -/
def BadOpcode (bytes : Bytes) (byte : UInt8) : Prop :=
  (∃ more, bytes = byte :: more ∧ Opcode.count ≤ byte.toNat) ∨
    ∃ more, bytes = 0xc4 :: byte :: more ∧ ¬ Opcode.widenable byte.toNat

/-- The bytes begin an instruction at `pc`, and end within it. -/
def CutShort (pc : Nat) (bytes : Bytes) : Prop :=
  bytes ≠ [] ∧ ∃ (x : Item) (missing : Bytes),
    x.WellFormed pc ∧ x.encode = bytes ++ missing ∧ missing ≠ []

/-- The bytes begin with a whole instruction at `pc` that branches to `t`, where the code with its
`size` bytes is not. -/
def LeadsOut (size pc : Nat) (bytes : Bytes) (t : Int) : Prop :=
  ∃ (x : Item) (more : Bytes),
    x.WellFormed pc ∧ bytes = x.encode ++ more ∧ x.target? pc = some t ∧ ¬ (0 ≤ t ∧ t < size)

/-- What is wrong at offset `pc` of `size` bytes of code, from where on the code has these bytes. -/
inductive Faulty (size pc : Nat) (bytes : Bytes) : FormatError → Prop where
  | invalidOpcode {byte : UInt8} (h : BadOpcode bytes byte) :
    Faulty size pc bytes (.invalidOpcode byte pc)
  | truncatedInstruction (h : CutShort pc bytes) :
    Faulty size pc bytes (.truncatedInstruction pc)
  | branchOutOfRange {t : Int} (h : LeadsOut size pc bytes t) :
    Faulty size pc bytes (.branchOutOfRange pc t)

section exclusion
variable {size pc : Nat} {bytes more : Bytes} {byte other : UInt8} {x : Item}

theorem BadOpcode.append (h : BadOpcode bytes byte) (more : Bytes) :
    BadOpcode (bytes ++ more) byte := by
  rcases h with ⟨rest, rfl, hbyte⟩ | ⟨rest, rfl, hbyte⟩
  · exact .inl ⟨rest ++ more, rfl, hbyte⟩
  · exact .inr ⟨rest ++ more, rfl, hbyte⟩

theorem BadOpcode.unique (h : BadOpcode bytes byte) (h' : BadOpcode bytes other) :
    byte = other := by
  have hwide : ¬ Opcode.count ≤ (0xc4 : UInt8).toNat := by decide
  rcases h with ⟨rest, rfl, hbyte⟩ | ⟨rest, rfl, -⟩ <;>
    rcases h' with ⟨rest', heq, hother⟩ | ⟨rest', heq, -⟩ <;> cases heq
  · rfl
  · exact absurd hbyte hwide
  · exact absurd hother hwide
  · rfl

theorem lead_assigned (x : Item) : x.lead.toNat < Opcode.count := by
  cases x with
  | plain opcode => exact opcode.assigned
  | wideSlot | wideIncrement => exact (by decide : (0xc4 : UInt8).toNat < Opcode.count)
  | tableSwitch => exact (by decide : (0xaa : UInt8).toNat < Opcode.count)
  | lookupSwitch => exact (by decide : (0xab : UInt8).toNat < Opcode.count)

/-- A well-formed item begins with an opcode, and one that begins with `wide` has an opcode next that
can be widened. -/
theorem not_badOpcode (hx : x.WellFormed pc) : ¬ BadOpcode (x.encode ++ more) byte := by
  rintro (⟨rest, heq, hbyte⟩ | ⟨rest, heq, hbyte⟩)
  · obtain ⟨rfl, -⟩ := List.cons.inj heq
    exact absurd (lead_assigned x) (Nat.not_lt.mpr hbyte)
  · obtain ⟨hlead, hrest⟩ := List.cons.inj heq
    cases x with
    | plain opcode => exact hx.2.2.1 hlead
    | wideSlot opcode =>
      obtain ⟨rfl, -⟩ := List.cons.inj hrest
      exact hbyte hx.1
    | wideIncrement =>
      obtain ⟨rfl, -⟩ := List.cons.inj hrest
      exact hbyte (by decide)
    | tableSwitch => exact absurd hlead (by decide : (0xaa : UInt8) ≠ 0xc4)
    | lookupSwitch => exact absurd hlead (by decide : (0xab : UInt8) ≠ 0xc4)

/-- Bytes that end within an instruction do not begin with a whole one. -/
theorem not_cutShort (hx : x.WellFormed pc) : ¬ CutShort pc (x.encode ++ more) := by
  rintro ⟨-, y, missing, hy, heq, hmissing⟩
  have hsame : y.encode ++ [] = x.encode ++ (more ++ missing) := by
    rw [List.append_nil, heq, List.append_assoc]
  obtain ⟨-, hnil⟩ := encode_inj hy hx hsame
  exact hmissing (List.append_eq_nil_iff.mp hnil.symm).2

theorem CutShort.not_badOpcode (h : CutShort pc bytes) : ¬ BadOpcode bytes byte := by
  obtain ⟨-, x, missing, hx, heq, -⟩ := h
  intro hbad
  have hfront := hbad.append missing
  rw [← heq, ← List.append_nil x.encode] at hfront
  exact Code.not_badOpcode hx hfront

theorem LeadsOut.not_badOpcode {t : Int} (h : LeadsOut size pc bytes t) :
    ¬ BadOpcode bytes byte := by
  obtain ⟨x, more, hx, rfl, -⟩ := h
  exact Code.not_badOpcode hx

theorem LeadsOut.not_cutShort {t : Int} (h : LeadsOut size pc bytes t) : ¬ CutShort pc bytes := by
  obtain ⟨x, more, hx, rfl, -⟩ := h
  exact Code.not_cutShort hx

theorem LeadsOut.unique {t u : Int} (h : LeadsOut size pc bytes t)
    (h' : LeadsOut size pc bytes u) : t = u := by
  obtain ⟨x, more, hx, rfl, ht, -⟩ := h
  obtain ⟨y, more', hy, heq, hu, -⟩ := h'
  obtain ⟨rfl, -⟩ := encode_inj hx hy heq
  exact Option.some.inj (ht.symm.trans hu)

/-- There is one fault at most at an offset. -/
theorem Faulty.unique {e e' : FormatError} (h : Faulty size pc bytes e)
    (h' : Faulty size pc bytes e') : e = e' := by
  cases h with
  | invalidOpcode h =>
    cases h' with
    | invalidOpcode h' => rw [h.unique h']
    | truncatedInstruction h' => exact absurd h h'.not_badOpcode
    | branchOutOfRange h' => exact absurd h h'.not_badOpcode
  | truncatedInstruction h =>
    cases h' with
    | invalidOpcode h' => exact absurd h' h.not_badOpcode
    | truncatedInstruction => rfl
    | branchOutOfRange h' => exact absurd h h'.not_cutShort
  | branchOutOfRange h =>
    cases h' with
    | invalidOpcode h' => exact absurd h' h.not_badOpcode
    | truncatedInstruction h' => exact absurd h' h.not_cutShort
    | branchOutOfRange h' => rw [h.unique h']

theorem Faulty.pc?_eq {e : FormatError} (h : Faulty size pc bytes e) : e.pc? = some pc := by
  cases h <;> rfl

theorem Faulty.ne_nil {e : FormatError} (h : Faulty size pc bytes e) : bytes ≠ [] := by
  cases h with
  | invalidOpcode h => rcases h with ⟨more, rfl, -⟩ | ⟨more, rfl, -⟩ <;> exact List.cons_ne_nil _ _
  | truncatedInstruction h => exact h.1
  | branchOutOfRange h =>
    obtain ⟨x, more, -, rfl, -⟩ := h
    exact List.cons_ne_nil _ _

/-- An item is not faulty if it branches into the code. -/
theorem not_faulty (hx : x.WellFormed pc)
    (ht : ∀ t, x.target? pc = some t → 0 ≤ t ∧ t < size) {e : FormatError} :
    ¬ Faulty size pc (x.encode ++ more) e := by
  rintro (h | h | ⟨y, more', hy, heq, hu, hout⟩)
  · exact not_badOpcode hx h
  · exact not_cutShort hx h
  · obtain ⟨rfl, -⟩ := encode_inj hx hy heq
    exact hout (ht _ hu)

end exclusion

section reading
variable {size pc : Nat} {rest : Bytes} {e : FormatError}

theorem exists_long (bound : Nat) : ∃ more : Bytes, more.length = bound :=
  ⟨List.replicate bound 0, List.length_replicate⟩

theorem checked_ne_truncated (x : Item) (q : Nat) :
    checked size pc x ≠ .error (.truncatedInstruction q) := by
  unfold checked
  repeat' split
  all_goals simp

/-- If reading runs out of bytes, and there is an item at the front when others follow them, they end
within this item. -/
theorem cutShort_of_item {byte : UInt8} {more r : Bytes} {x : Item}
    (h : instruction size pc byte rest = .error (.truncatedInstruction pc)) (hx : x.WellFormed pc)
    (heq : byte :: (rest ++ more) = x.encode ++ r) : CutShort pc (byte :: rest) := by
  have hwhole : ∀ behind, byte :: rest ≠ x.encode ++ behind := by
    intro behind hfront
    obtain ⟨rfl, hrest⟩ : byte = x.lead ∧ rest = x.rest ++ behind := List.cons.inj hfront
    rw [hrest, instruction_of_item hx] at h
    exact checked_ne_truncated x pc h
  refine ⟨List.cons_ne_nil _ _, x, ?_⟩
  rcases List.append_eq_append_iff.mp (List.cons_append.trans heq) with
    ⟨missing, hitem, -⟩ | ⟨behind, hfront, -⟩
  · refine ⟨missing, hx, hitem, ?_⟩
    rintro rfl
    exact hwhole [] (by rw [List.append_nil, hitem, List.append_nil])
  · exact absurd hfront (hwhole behind)

theorem faulty_of_checked {x : Item} {more : Bytes} (hx : x.WellFormed pc)
    (h : checked size pc x = .error e) : Faulty size pc (x.encode ++ more) e := by
  unfold checked at h
  split at h
  next => cases h
  next t ht =>
    split at h
    next => cases h
    next hout =>
      cases h
      exact .branchOutOfRange ⟨x, more, hx, rfl, ht, hout⟩

theorem faulty_of_plain {opcode : Opcode}
    (hplain : opcode.byte ≠ 0xaa ∧ opcode.byte ≠ 0xab ∧ opcode.byte ≠ 0xc4)
    (h : instruction size pc opcode.byte rest = .error e) :
    Faulty size pc (opcode.byte :: rest) e := by
  have hread := h
  rw [instruction_eq size pc opcode.assigned, withOperands_plain size pc opcode _ hplain] at hread
  simp only [plainResult] at hread
  let width := Opcode.operandWidth opcode.byte.toNat
  have hitem : ∀ bytes : Bytes, width ≤ bytes.length →
      (plain opcode (bytes.take width)).WellFormed pc ∧
        opcode.byte :: bytes = (plain opcode (bytes.take width)).encode ++ bytes.drop width := by
    intro bytes hlen
    refine ⟨⟨hplain.1, hplain.2.1, hplain.2.2, List.length_take_of_le hlen⟩, ?_⟩
    rw [encode, lead, Item.rest, List.cons_append, List.take_append_drop]
  split at hread
  next hlen =>
    obtain ⟨hx, heq⟩ := hitem rest hlen
    rw [heq]
    exact faulty_of_checked hx hread
  next =>
    cases hread
    obtain ⟨more, hmore⟩ := exists_long width
    obtain ⟨hx, heq⟩ := hitem (rest ++ more) (by rw [List.length_append]; omega)
    exact .truncatedInstruction (cutShort_of_item h hx heq)

theorem count_of_widenable {byte : Nat} (h : Opcode.widenable byte) : byte < Opcode.count := by
  simp only [Opcode.widenable, decide_eq_true_eq, List.mem_cons, List.not_mem_nil, or_false] at h
  simp only [Opcode.count]
  omega

theorem wideInstruction_of_long (pc : Nat) {byte : UInt8}
    (hbyte : byte.toNat < Opcode.count ∧ Opcode.widenable byte.toNat) (hlen : 4 ≤ rest.length) :
    ∃ out, wideInstruction pc (byte :: rest) = .ok out := by
  have hlen' : 2 ≤ rest.length := by omega
  rw [wideInstruction_eq, dif_pos hbyte, if_pos hlen, if_pos hlen']
  by_cases hi : byte = 0x84
  · rw [if_pos hi]
    exact ⟨_, rfl⟩
  · rw [if_neg hi]
    exact ⟨_, rfl⟩

theorem faulty_of_wide (h : instruction size pc 0xc4 rest = .error e) :
    Faulty size pc (0xc4 :: rest) e := by
  have hread := h
  rw [instruction_eq size pc (by decide), withOperands_wide size pc rfl] at hread
  cases rest with
  | nil =>
    cases hread
    -- Any instruction that can be widened may follow.
    have hx : (wideSlot ⟨0x15, by decide⟩ 0).WellFormed pc := ⟨by decide, by decide⟩
    have heq : 0xc4 :: ([] ++ [0x15, 0, 0]) = (wideSlot ⟨0x15, by decide⟩ 0).encode ++ [] := rfl
    exact .truncatedInstruction (cutShort_of_item h hx heq)
  | cons byte rest =>
    by_cases hbyte : byte.toNat < Opcode.count ∧ Opcode.widenable byte.toNat
    · obtain ⟨more, hmore⟩ := exists_long 4
      obtain ⟨out, hout⟩ := wideInstruction_of_long pc hbyte
        (show 4 ≤ (rest ++ more).length by rw [List.length_append]; omega)
      obtain ⟨x, r, hx, heq⟩ := item_of_wide hout
      rw [wideInstruction_eq, dif_pos hbyte] at hread
      have he : e = .truncatedInstruction pc := by
        split at hread <;> split at hread <;> cases hread <;> rfl
      subst he
      exact .truncatedInstruction (cutShort_of_item h hx heq)
    · rw [wideInstruction_eq, dif_neg hbyte] at hread
      cases hread
      refine .invalidOpcode (.inr ⟨rest, rfl, ?_⟩)
      intro hwidenable
      exact hbyte ⟨count_of_widenable hwidenable, hwidenable⟩

theorem tableWidth_le (pc : Nat) (bs : Bytes) : tableWidth pc bs ≤ 15 + 4 * 4294967296 := by
  have hlow := (number (bs.drop (switchPadding pc + 4))).le_toInt
  have hhigh := (number (bs.drop (switchPadding pc + 8))).toInt_lt
  simp only [tableWidth]
  unfold switchPadding at *
  omega

theorem lookupWidth_le (pc : Nat) (bs : Bytes) : lookupWidth pc bs ≤ 11 + 8 * 2147483648 := by
  have hcount := (number (bs.drop (switchPadding pc + 4))).toInt_lt
  simp only [lookupWidth]
  unfold switchPadding at *
  omega

/-- As no switch has more than `bound` bytes, so many of any value would complete one that is cut off.
-/
theorem faulty_of_switch {opcode : Opcode} {width : Bytes → Nat} {bound : Nat}
    (hread : ∀ bs, withOperands size pc opcode bs =
      if width bs ≤ bs.length then .ok (⟨pc, opcode, .unsupported⟩, width bs)
      else .error (.truncatedInstruction pc))
    (hbound : ∀ bs, width bs ≤ bound) (h : instruction size pc opcode.byte rest = .error e) :
    Faulty size pc (opcode.byte :: rest) e := by
  have hinstruction := instruction_eq size pc opcode.assigned
  have he := h
  rw [hinstruction, hread] at he
  split at he
  next => cases he
  next =>
    cases he
    obtain ⟨more, hmore⟩ := exists_long bound
    have hlong : width (rest ++ more) ≤ (rest ++ more).length := by
      have hle := hbound (rest ++ more)
      rw [List.length_append]
      omega
    have hok := (hinstruction (rest ++ more)).trans ((hread (rest ++ more)).trans (if_pos hlong))
    obtain ⟨x, r, hx, heq⟩ := item_of_instruction hok
    exact .truncatedInstruction (cutShort_of_item h hx heq)

theorem faulty_of_instruction {byte : UInt8} (h : instruction size pc byte rest = .error e) :
    Faulty size pc (byte :: rest) e := by
  by_cases hlt : byte.toNat < Opcode.count
  · obtain ⟨opcode, rfl⟩ : ∃ opcode : Opcode, opcode.byte = byte := ⟨⟨byte, hlt⟩, rfl⟩
    by_cases ha : opcode.byte = 0xaa
    · exact faulty_of_switch (withOperands_tableSwitch size pc ha) (tableWidth_le pc) h
    · by_cases hb : opcode.byte = 0xab
      · exact faulty_of_switch (withOperands_lookupSwitch size pc hb) (lookupWidth_le pc) h
      · by_cases hc : opcode.byte = 0xc4
        · rw [hc] at h ⊢
          exact faulty_of_wide h
        · exact faulty_of_plain ⟨ha, hb, hc⟩ h
  · simp only [instruction, Opcode.ofByte?, dif_neg hlt] at h
    cases h
    exact .invalidOpcode (.inl ⟨rest, rfl, Nat.not_lt.mp hlt⟩)

/-- Reading an instruction fails if and only if there is a fault, which it gives. -/
theorem instruction_eq_error_iff (size pc : Nat) (byte : UInt8) (rest : Bytes) (e : FormatError) :
    instruction size pc byte rest = .error e ↔ Faulty size pc (byte :: rest) e := by
  refine ⟨faulty_of_instruction, fun hfault => ?_⟩
  cases hread : instruction size pc byte rest with
  | error found => rw [(faulty_of_instruction hread).unique hfault]
  | ok out =>
    obtain ⟨x, r, hx, hbytes⟩ := item_of_instruction hread
    obtain ⟨rfl, hrest⟩ : byte = x.lead ∧ rest = x.rest ++ r := List.cons.inj hbytes
    rw [hrest, instruction_of_item hx] at hread
    rw [hbytes] at hfault
    exact absurd hfault (not_faulty hx (of_checked hread).2)

end reading

/-- The first `pc` bytes of the code are whole instructions, and those that branch do so into the code.
-/
def SoundUpTo (code : Bytes) (pc : Nat) : Prop :=
  ∃ xs, WellLaid 0 xs ∧ TargetsWithin code.length 0 xs ∧ assemble xs = code.take pc

theorem decodeFrom_faulty {size pc : Nat} {bytes : Bytes} {e : FormatError}
    (h : Faulty size pc bytes e) (found : List Instruction) :
    decodeFrom size pc 0 bytes found = .error e := by
  cases bytes with
  | nil => exact absurd rfl h.ne_nil
  | cons byte rest => rw [decodeFrom, (instruction_eq_error_iff size pc byte rest e).mpr h]

theorem decode_of_faulty {xs : List Item} {rest : Bytes} {e : FormatError} (hx : WellLaid 0 xs)
    (ht : TargetsWithin (assemble xs ++ rest).length 0 xs)
    (h : Faulty (assemble xs ++ rest).length (assemble xs).length rest e) :
    decode (assemble xs ++ rest) = .error e := by
  rw [decode, decodeFrom_front hx ht, Nat.zero_add, decodeFrom_faulty h]

/-- Code cannot be decoded if and only if there is a fault behind some items, and decoding gives it. -/
theorem decode_eq_error_iff (code : Bytes) (e : FormatError) :
    decode code = .error e ↔ ∃ xs rest, WellLaid 0 xs ∧ TargetsWithin code.length 0 xs ∧
      assemble xs ++ rest = code ∧ Faulty code.length (assemble xs).length rest e := by
  constructor
  · intro h
    obtain ⟨xs, rest, hx, ht, hcode, hend⟩ := exists_front code.length 0 code
    rw [Nat.zero_add] at hend
    refine ⟨xs, rest, hx, ht, hcode, ?_⟩
    rcases hend with rfl | ⟨byte, more, found, rfl, hfound⟩
    · rw [List.append_nil] at hcode
      subst hcode
      rw [decode_assemble hx ht] at h
      cases h
    · have hfault := (instruction_eq_error_iff _ _ _ _ _).mp hfound
      subst hcode
      rw [decode_of_faulty hx ht hfault] at h
      cases h
      exact hfault
  · rintro ⟨xs, rest, hx, ht, rfl, hfault⟩
    exact decode_of_faulty hx ht hfault

theorem decode_of_faulty_at {code : Bytes} {pc : Nat} {e : FormatError} (hsound : SoundUpTo code pc)
    (h : Faulty code.length pc (code.drop pc) e) : decode code = .error e := by
  obtain ⟨xs, hx, ht, hfront⟩ := hsound
  have hlt : pc < code.length := by
    rw [← Nat.not_le]
    exact fun hle => h.ne_nil (List.drop_of_length_le hle)
  have hlen : (assemble xs).length = pc := by rw [hfront, List.length_take_of_le (Nat.le_of_lt hlt)]
  refine (decode_eq_error_iff code e).mpr ⟨xs, code.drop pc, hx, ht, ?_, ?_⟩
  · rw [hfront, List.take_append_drop]
  · rwa [hlen]

/-- Decoding fails at the one place where there is a fault behind whole instructions that branch into the
code, and names it and its kind. -/
theorem decode_names_first_fault (code : Bytes) :
    (∀ pc e, SoundUpTo code pc → Faulty code.length pc (code.drop pc) e → decode code = .error e) ∧
    ∀ e, decode code = .error e → ∃ pc < code.length, e.pc? = some pc ∧ SoundUpTo code pc ∧
      (∀ byte, e = .invalidOpcode byte pc ↔ BadOpcode (code.drop pc) byte) ∧
      (e = .truncatedInstruction pc ↔ CutShort pc (code.drop pc)) ∧
      (∀ t, e = .branchOutOfRange pc t ↔ LeadsOut code.length pc (code.drop pc) t) ∧
      ∀ other e', SoundUpTo code other → Faulty code.length other (code.drop other) e' →
        other = pc := by
  refine ⟨fun pc e => decode_of_faulty_at, fun e h => ?_⟩
  obtain ⟨xs, rest, hx, ht, hcode, hfault⟩ := (decode_eq_error_iff code e).mp h
  let pc := (assemble xs).length
  have hdrop : code.drop pc = rest := by rw [← hcode, List.drop_left]
  have hlt : pc < code.length := by
    have hrest := List.length_pos_iff.mpr hfault.ne_nil
    rw [← hcode, List.length_append]
    omega
  refine ⟨pc, hlt, hfault.pc?_eq, ⟨xs, hx, ht, by rw [← hcode, List.take_left]⟩, ?_⟩
  rw [hdrop]
  refine ⟨fun byte => ⟨?_, fun hbad => hfault.unique (.invalidOpcode hbad)⟩,
    ⟨?_, fun hcut => hfault.unique (.truncatedInstruction hcut)⟩,
    fun t => ⟨?_, fun hout => hfault.unique (.branchOutOfRange hout)⟩, ?_⟩
  · rintro rfl
    cases hfault with | invalidOpcode hbad => exact hbad
  · rintro rfl
    cases hfault with | truncatedInstruction hcut => exact hcut
  · rintro rfl
    cases hfault with | branchOutOfRange hout => exact hout
  · intro other e' hsound hother
    obtain rfl : e = e' := Except.error.inj (h.symm.trans (decode_of_faulty_at hsound hother))
    exact Option.some.inj (hother.pc?_eq.symm.trans hfault.pc?_eq)

/-- Behind a `nop`: a `wide` with an opcode that it cannot widen, a `tableswitch` with one of its two
entries, and a `goto_w` to the end of the code. -/
theorem decode_names_first_fault_behind_nop :
    decode [0x00, 0xc4, 0x57] = .error (.invalidOpcode 0x57 1) ∧
    CutShort 1 [0xaa, 0, 0, 0, 0, 0, 9, 0, 0, 0, 0, 0, 0, 0, 1, 0, 0, 0, 0] ∧
    LeadsOut 6 1 [0xc8, 0, 0, 0, 5] 6 := by
  have hnop : SoundUpTo [0x00, 0xc4, 0x57] 1 := ⟨[plain ⟨0x00, by decide⟩ []], by decide, by decide, rfl⟩
  have hbad : BadOpcode [0xc4, 0x57] 0x57 := .inr ⟨[], rfl, by decide⟩
  refine ⟨(decode_names_first_fault _).1 1 _ hnop (.invalidOpcode hbad), ?_, ?_⟩
  · obtain ⟨pc, -, hpc, -, -, hcut, -⟩ := (decode_names_first_fault
      [0x00, 0xaa, 0, 0, 0, 0, 0, 9, 0, 0, 0, 0, 0, 0, 0, 1, 0, 0, 0, 0]).2
      (.truncatedInstruction 1) rfl
    obtain rfl : 1 = pc := Option.some.inj hpc
    exact hcut.mp rfl
  · obtain ⟨pc, -, hpc, -, -, -, hout, -⟩ := (decode_names_first_fault
      [0x00, 0xc8, 0, 0, 0, 5]).2 (.branchOutOfRange 1 6) rfl
    obtain rfl : 1 = pc := Option.some.inj hpc
    exact (hout 6).mp rfl

end Code
end ClassVM
