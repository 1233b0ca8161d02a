import ClassVM.Proofs.Assembly.Grammar

namespace ClassVM.Code
open Item

/-- The instruction at offset `pc` and the offset after it; `none` at the end of the code. -/
def fetchAt (code : Bytes) (pc : Nat) : Option (Except FormatError (Instruction × Nat)) :=
  match code.drop pc with
  | [] => none
  | byte :: rest =>
    match instruction code.length pc byte rest with
    | .error e => some (.error e)
    | .ok (i, width) => some (.ok (i, pc + 1 + width))

theorem fetchAt_bound {code : Bytes} {pc next : Nat} {i : Instruction}
    (h : fetchAt code pc = some (.ok (i, next))) : pc < code.length ∧ pc < next := by
  unfold fetchAt at h
  split at h
  case h_1 => cases h
  case h_2 byte rest hdrop =>
    have hlen := congrArg List.length hdrop
    rw [List.length_drop, List.length_cons] at hlen
    split at h <;> cases h
    omega

/-- The offsets that are reached from `pc` on, instruction by instruction. -/
def walk (code : Bytes) (pc : Nat) : List Nat :=
  match _h : fetchAt code pc with
  | some (.ok (_, next)) => pc :: walk code next
  | _ => []
termination_by code.length - pc
decreasing_by
  have hb := fetchAt_bound _h
  omega

theorem walk_of_fetchAt {code : Bytes} {pc next : Nat} {i : Instruction}
    (h : fetchAt code pc = some (.ok (i, next))) : walk code pc = pc :: walk code next := by
  rw [walk]
  split
  case h_1 j next' hf =>
    rw [h] at hf
    cases hf
    rfl
  case h_2 hne => exact absurd h (hne i next)

theorem walk_end {code : Bytes} {pc : Nat} (h : fetchAt code pc = none) : walk code pc = [] := by
  rw [walk]
  split
  case h_1 i next hf =>
    rw [h] at hf
    cases hf
  case h_2 => rfl

/-- The walk from `pc` meets these instructions and then the end of the code. -/
def Trail (code : Bytes) : Nat → List Instruction → Prop
  | pc, [] => pc = code.length
  | pc, i :: is => i.pc = pc ∧ ∃ next, fetchAt code pc = some (.ok (i, next)) ∧ Trail code next is

theorem fetchAt_end {code : Bytes} {pc : Nat} (h : code.length ≤ pc) : fetchAt code pc = none := by
  unfold fetchAt
  rw [List.drop_of_length_le h]

/-- An item at its offset in the code. -/
theorem fetchAt_item {front back : Bytes} {x : Item} {size : Nat}
    (hsize : (front ++ (x.encode ++ back)).length = size) (hx : x.WellFormed front.length)
    (ht : ∀ t, x.target? front.length = some t → 0 ≤ t ∧ t < size) :
    fetchAt (front ++ (x.encode ++ back)) front.length =
      some (.ok (x.instruction front.length, front.length + x.encode.length)) := by
  unfold fetchAt
  rw [List.drop_left, hsize, encode, List.cons_append]
  simp only [instruction_of_item hx, checked_eq_ok ht, List.length_cons]
  rw [Nat.add_assoc, Nat.add_comm 1]

theorem trail_of_items {size : Nat} {xs : List Item} (front : Bytes)
    (hsize : (front ++ assemble xs).length = size) (hx : WellLaid front.length xs)
    (ht : TargetsWithin size front.length xs) :
    Trail (front ++ assemble xs) front.length (listing front.length xs) := by
  -- The items move over to `front` one by one, so the code as a whole stays the same.
  induction xs generalizing front with
  | nil =>
    rw [assemble, List.flatMap_nil, List.append_nil]
    rfl
  | cons x xs ih =>
    have hcat : front ++ assemble (x :: xs) = (front ++ x.encode) ++ assemble xs := by
      rw [assemble, List.flatMap_cons, ← assemble, List.append_assoc]
    have hfront : (front ++ x.encode).length = front.length + x.encode.length :=
      List.length_append
    rw [hcat] at hsize
    have hrest := ih (front ++ x.encode) hsize (hfront ▸ hx.2) (hfront ▸ ht.2)
    rw [hfront, ← hcat] at hrest
    rw [← hcat] at hsize
    exact ⟨rfl, _, fetchAt_item hsize hx.1 ht.1, hrest⟩

theorem trail_of_decode {code : Bytes} {is : List Instruction} (h : decode code = .ok is) :
    Trail code 0 is := by
  obtain ⟨xs, hx, ht, rfl, rfl⟩ := items_of_decode h
  exact trail_of_items [] rfl hx ht

/-- The offset of the instruction at a position, and the end of the code after the last one. -/
def offsetAt (code : Bytes) (is : List Instruction) (position : Nat) : Nat :=
  match is[position]? with
  | some i => i.pc
  | none => code.length

section trail
variable {code : Bytes} {pc : Nat} {is : List Instruction}

theorem Trail.offsetAt_zero (h : Trail code pc is) : offsetAt code is 0 = pc := by
  cases is with
  | nil => exact Eq.symm h
  | cons i is => exact h.1

/-- Decoding the bytes at the offset of a position gives the instruction at this position, and leads
to the offset of the next position. -/
theorem Trail.fetchAt_offsetAt (h : Trail code pc is) (position : Nat) :
    fetchAt code (offsetAt code is position) =
      match is[position]? with
      | some i => some (.ok (i, offsetAt code is (position + 1)))
      | none => none := by
  induction is generalizing pc position with
  | nil => exact fetchAt_end (Nat.le_refl _)
  | cons i is ih =>
    obtain ⟨hpc, next, hf, hrest⟩ := h
    cases position with
    | zero =>
      have hnext : offsetAt code (i :: is) 1 = next := hrest.offsetAt_zero
      change fetchAt code i.pc = some (.ok (i, offsetAt code (i :: is) 1))
      rw [hpc, hf, hnext]
    | succ position => exact ih hrest position

theorem Trail.walk_eq (h : Trail code pc is) : walk code pc = is.map (·.pc) := by
  induction is generalizing pc with
  | nil => exact walk_end (fetchAt_end (Nat.le_of_eq (Eq.symm h)))
  | cons i is ih =>
    obtain ⟨hpc, next, hf, hrest⟩ := h
    rw [walk_of_fetchAt hf, ih hrest, List.map_cons, hpc]

theorem Trail.bounds (h : Trail code pc is) : ∀ i ∈ is, pc ≤ i.pc ∧ i.pc < code.length := by
  induction is generalizing pc with
  | nil => simp
  | cons i is ih =>
    obtain ⟨hpc, next, hf, hrest⟩ := h
    obtain ⟨hlt, hnext⟩ := fetchAt_bound hf
    intro j hj
    rcases List.mem_cons.mp hj with rfl | hj
    · omega
    · have hb := ih hrest j hj
      omega

/-- Offsets grow from instruction to instruction. -/
theorem Trail.increasing (h : Trail code pc is) : is.Pairwise (·.pc < ·.pc) := by
  induction is generalizing pc with
  | nil => exact .nil
  | cons i is ih =>
    obtain ⟨hpc, next, hf, hrest⟩ := h
    refine .cons ?_ (ih hrest)
    intro j hj
    have hnext := (fetchAt_bound hf).2
    have hb := (hrest.bounds j hj).1
    omega

end trail

end ClassVM.Code
