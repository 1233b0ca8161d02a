import ClassVM.Code.Method
import ClassVM.Proofs.Code.Walk

namespace ClassVM

namespace Body

/-- One entry of the table is written for each instruction. -/
def enter (table : Array (Option Nat)) : Instruction × Nat → Array (Option Nat)
  | (i, position) => table.setIfInBounds i.pc (some position)

theorem enter_other {is : List Instruction} {offset : Nat} (h : ∀ i ∈ is, i.pc ≠ offset)
    (table : Array (Option Nat)) (start : Nat) :
    ((is.zipIdx start).foldl enter table)[offset]? = table[offset]? := by
  induction is generalizing table start with
  | nil => rfl
  | cons i is ih =>
    rw [List.zipIdx_cons, List.foldl_cons, ih (fun j hj => h j (List.mem_cons_of_mem i hj)), enter,
      Array.getElem?_setIfInBounds_ne (h i List.mem_cons_self)]

theorem enter_found {is : List Instruction} (h : is.Pairwise (·.pc < ·.pc)) {position : Nat}
    {i : Instruction} (hi : is[position]? = some i) (table : Array (Option Nat)) (start : Nat)
    (hsize : i.pc < table.size) :
    ((is.zipIdx start).foldl enter table)[i.pc]? = some (some (start + position)) := by
  -- No later instruction has the same offset, so the entry stays as it is written.
  induction is generalizing table start position with
  | nil => simp at hi
  | cons j is ih =>
    obtain ⟨hj, hrest⟩ := List.pairwise_cons.mp h
    rw [List.zipIdx_cons, List.foldl_cons]
    cases position with
    | zero =>
      obtain rfl : j = i := by simpa using hi
      have hother : ∀ k ∈ is, k.pc ≠ j.pc := fun k hk => Nat.ne_of_gt (hj k hk)
      rw [enter_other hother, enter, Array.getElem?_setIfInBounds_self_of_lt hsize, Nat.add_zero]
    | succ position =>
      have hi : is[position]? = some i := by simpa using hi
      rw [ih hrest hi _ _ (by simpa [enter] using hsize), Nat.add_assoc, Nat.add_comm 1]

theorem indexOf?_eq (body : Body) (offset : Nat) :
    body.indexOf? offset =
      (((body.instructions.toList.zipIdx 0).foldl enter
        (Array.replicate body.code.length none))[offset]?).join := by
  rw [indexOf?, body.offsets_eq]
  rfl

theorem indexOf?_of_instruction {body : Body} {position : Nat} {i : Instruction}
    (hi : body.instructions[position]? = some i) : body.indexOf? i.pc = some position := by
  have htrail := Code.trail_of_decode body.instructions_eq
  rw [← Array.getElem?_toList] at hi
  have hlt := (htrail.bounds i (List.mem_of_getElem? hi)).2
  have hsize : i.pc < (Array.replicate body.code.length (none : Option Nat)).size := by
    rw [Array.size_replicate]
    exact hlt
  rw [indexOf?_eq, enter_found htrail.increasing hi _ 0 hsize, Nat.zero_add]
  rfl

theorem indexOf?_eq_none {body : Body} {offset : Nat}
    (h : ∀ i ∈ body.instructions.toList, i.pc ≠ offset) : body.indexOf? offset = none := by
  rw [indexOf?_eq, enter_other h, Array.getElem?_replicate]
  split <;> rfl

theorem indexOf?_eq_some_iff (body : Body) (offset position : Nat) :
    body.indexOf? offset = some position ↔
      ∃ i, body.instructions[position]? = some i ∧ i.pc = offset := by
  constructor
  · intro h
    by_cases hex : ∃ i ∈ body.instructions.toList, i.pc = offset
    · obtain ⟨i, hi, rfl⟩ := hex
      obtain ⟨p, hp⟩ := List.getElem?_of_mem hi
      rw [Array.getElem?_toList] at hp
      rw [indexOf?_of_instruction hp] at h
      cases h
      exact ⟨i, hp, rfl⟩
    · have hnone : body.indexOf? offset = none := by
        apply indexOf?_eq_none
        intro i hi hpc
        exact hex ⟨i, hi, hpc⟩
      rw [hnone] at h
      cases h
  · rintro ⟨i, hi, rfl⟩
    exact indexOf?_of_instruction hi

theorem decode_of_ofCode {maxStack maxLocals : UInt16} {code : Bytes} {body : Body}
    (h : ofCode maxStack maxLocals code = .ok body) :
    Code.decode code = .ok body.instructions.toList := by
  unfold ofCode at h
  split at h
  case h_1 => cases h
  case h_2 found hfound =>
    cases h
    exact hfound

end Body

namespace Method

theorem of_ofBody {name descriptor : String} {flags : UInt16} {body : Option Body} {m : Method}
    (h : ofBody name descriptor flags body = .ok m) :
    m.name = name ∧ m.descriptor = descriptor ∧ m.body = body := by
  unfold ofBody at h
  split at h
  case h_1 => cases h
  case h_2 =>
    cases h
    exact ⟨rfl, rfl, rfl⟩

theorem decode_of_ofCode {name descriptor : String} {flags maxStack maxLocals : UInt16} {code : Bytes}
    {m : Method} (h : ofCode name descriptor flags maxStack maxLocals code = .ok m) :
    Code.decode code = .ok m.instructions.toList := by
  unfold ofCode at h
  cases hbody : Body.ofCode maxStack maxLocals code with
  | error e =>
    rw [hbody] at h
    cases h
  | ok body =>
    rw [hbody] at h
    obtain ⟨-, -, hm⟩ := of_ofBody h
    rw [instructions, hm]
    exact Body.decode_of_ofCode hbody

/-- The bytes of the code of a method. -/
def code (m : Method) : Bytes := (m.body.map Body.code).getD []

/-- The instructions of a method are what a walk over its code meets. -/
theorem trail (m : Method) : Code.Trail m.code 0 m.instructions.toList := by
  unfold code instructions
  cases m.body with
  | none => rfl
  | some body => exact Code.trail_of_decode body.instructions_eq

theorem indexOf?_eq_some_iff (m : Method) (offset position : Nat) :
    m.indexOf? offset = some position ↔
      ∃ i, m.instructions[position]? = some i ∧ i.pc = offset := by
  unfold indexOf? instructions
  cases m.body with
  | none => simp
  | some body => exact body.indexOf?_eq_some_iff offset position

/-- The instruction with the higher offset comes later. -/
theorem position_lt (m : Method) {p q : Nat} {i j : Instruction} (hi : m.instructions[p]? = some i)
    (hj : m.instructions[q]? = some j) (h : i.pc < j.pc) : p < q := by
  obtain ⟨hp, rfl⟩ := Array.getElem?_eq_some_iff.mp hi
  obtain ⟨hq, rfl⟩ := Array.getElem?_eq_some_iff.mp hj
  have hincreasing := List.pairwise_iff_getElem.mp m.trail.increasing
  rcases Nat.lt_trichotomy p q with hlt | rfl | hgt
  · exact hlt
  · exact absurd h (Nat.lt_irrefl _)
  · have hback := hincreasing q p hq hp hgt
    simp only [Array.getElem_toList] at hback
    omega

end Method
end ClassVM
