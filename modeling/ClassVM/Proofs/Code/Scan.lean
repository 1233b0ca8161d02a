import ClassVM.Machine.Frame
import ClassVM.Proofs.Code.OffsetTable
import ClassVM.Proofs.Programs.Echo

namespace ClassVM

namespace Method
variable (m : Method)

theorem indexOf?_eq_none_iff (offset : Nat) :
    m.indexOf? offset = none ↔ ∀ i ∈ m.instructions, i.pc ≠ offset := by
  rw [Option.eq_none_iff_forall_ne_some]
  constructor
  · intro h i hi hpc
    obtain ⟨position, hposition⟩ := Array.getElem?_of_mem hi
    exact h position ((m.indexOf?_eq_some_iff offset position).mpr ⟨i, hposition, hpc⟩)
  · intro h position hfound
    obtain ⟨i, hposition, hpc⟩ := (m.indexOf?_eq_some_iff offset position).mp hfound
    exact h i (Array.mem_of_getElem? hposition) hpc

theorem indexOf?_eq_findIdx? (offset : Nat) :
    m.indexOf? offset = m.instructions.findIdx? fun i => i.pc == offset := by
  cases hscan : m.instructions.findIdx? fun i => i.pc == offset with
  | none =>
    rw [Array.findIdx?_eq_none_iff] at hscan
    rw [indexOf?_eq_none_iff]
    intro i hi
    simpa using hscan i hi
  | some position =>
    obtain ⟨hlt, hpc, -⟩ := Array.findIdx?_eq_some_iff_getElem.mp hscan
    rw [indexOf?_eq_some_iff]
    exact ⟨m.instructions[position], Array.getElem?_eq_getElem hlt, beq_iff_eq.mp hpc⟩

/-- No two instructions start at one offset. -/
theorem position_unique {p q : Nat} {i j : Instruction} (hi : m.instructions[p]? = some i)
    (hj : m.instructions[q]? = some j) (h : i.pc = j.pc) : p = q := by
  have hp : m.indexOf? i.pc = some p := (m.indexOf?_eq_some_iff i.pc p).mpr ⟨i, hi, rfl⟩
  have hq : m.indexOf? i.pc = some q := (m.indexOf?_eq_some_iff i.pc q).mpr ⟨j, hj, h.symm⟩
  exact Option.some.inj (hp.symm.trans hq)

/-- The first instruction starts where the code starts. -/
theorem pc_of_first {i : Instruction} (h : m.instructions[0]? = some i) : i.pc = 0 := by
  have hfirst := m.trail.offsetAt_zero
  rw [Code.offsetAt, Array.getElem?_toList, h] at hfirst
  exact hfirst

end Method

namespace Frame

theorem seek_eq (offset : Nat) (f : Frame) :
    seek offset f =
      match f.method.indexOf? offset with
      | some position => (.ok (), { f with cursor := position })
      | none => (.error (.invalidBranchTarget offset), f) := by
  cases h : f.method.indexOf? offset <;> simp [seek, h]

/-- The instruction that the frame goes on with is the one at the offset. If there is none at the offset,
the frame stays as it is. -/
theorem seek_cases (offset : Nat) (f : Frame) :
    (∃ i ∈ f.method.instructions, i.pc = offset ∧ ∃ position,
      seek offset f = (.ok (), { f with cursor := position }) ∧
      next? { f with cursor := position } = some i) ∨
    ((∀ i ∈ f.method.instructions, i.pc ≠ offset) ∧
      seek offset f = (.error (.invalidBranchTarget offset), f)) := by
  have hseek := seek_eq offset f
  cases hfound : f.method.indexOf? offset with
  | some position =>
    obtain ⟨i, hi, hpc⟩ := (f.method.indexOf?_eq_some_iff offset position).mp hfound
    rw [hfound] at hseek
    exact .inl ⟨i, Array.mem_of_getElem? hi, hpc, position, hseek, hi⟩
  | none =>
    rw [hfound] at hseek
    exact .inr ⟨(f.method.indexOf?_eq_none_iff offset).mp hfound, hseek⟩

end Frame

/-- The offset table gives for every offset what a scan over the instructions finds, and a frame that is
sent to an offset goes on there or stays where it is. -/
theorem Method.table_agrees_with_scan {name descriptor : String} {flags maxStack maxLocals : UInt16}
    {code : Bytes} {m : Method}
    (h : ofCode name descriptor flags maxStack maxLocals code = .ok m) :
    Code.decode code = .ok m.instructions.toList ∧
    (∀ offset position, m.indexOf? offset = some position ↔
      ∃ i, m.instructions[position]? = some i ∧ i.pc = offset) ∧
    (∀ offset, m.indexOf? offset = none ↔ ∀ i ∈ m.instructions, i.pc ≠ offset) ∧
    (∀ offset, m.indexOf? offset = m.instructions.findIdx? fun i => i.pc == offset) ∧
    (∀ (p q : Nat) (i j : Instruction), m.instructions[p]? = some i → m.instructions[q]? = some j →
      i.pc = j.pc → p = q) ∧
    m.instructions.toList.Pairwise (·.pc < ·.pc) ∧
    (∀ i, m.instructions[0]? = some i → i.pc = 0) ∧
    ∀ (offset : Nat) (f : Frame), f.method = m →
      (∃ i ∈ m.instructions, i.pc = offset ∧ ∃ position,
        Frame.seek offset f = (.ok (), { f with cursor := position }) ∧
        Frame.next? { f with cursor := position } = some i) ∨
      ((∀ i ∈ m.instructions, i.pc ≠ offset) ∧
        Frame.seek offset f = (.error (.invalidBranchTarget offset), f)) := by
  refine ⟨decode_of_ofCode h, m.indexOf?_eq_some_iff, m.indexOf?_eq_none_iff, m.indexOf?_eq_findIdx?,
    ?_, m.trail.increasing, fun i hi => m.pc_of_first hi, ?_⟩
  · intro p q i j hi hj hpc
    exact m.position_unique hi hj hpc
  · intro offset f hf
    rw [← hf]
    exact f.seek_cases offset

theorem Method.table_agrees_with_scan_echo :
    let f := Frame.enter Echo.program Echo.main []
    ofCode "main" "()V" staticFlag 1 0 Echo.mainBody.code = .ok Echo.main ∧
    Echo.main.indexOf? 6 = some 2 ∧
    Echo.main.indexOf? 7 = none ∧
    (∃ i ∈ Echo.main.instructions, i.pc = 6 ∧ ∃ position,
      Frame.seek 6 f = (.ok (), { f with cursor := position }) ∧
      Frame.next? { f with cursor := position } = some i) ∧
    Frame.seek 7 f = (.error (.invalidBranchTarget 7), f) := by
  intro f
  have hcode : ofCode "main" "()V" staticFlag 1 0 Echo.mainBody.code = .ok Echo.main := rfl
  obtain ⟨-, hsome, hnone, -, -, -, -, hseek⟩ := table_agrees_with_scan hcode
  have hsix : Echo.main.indexOf? 6 = some 2 := (hsome 6 2).mpr ⟨_, rfl, rfl⟩
  have hseven : Echo.main.indexOf? 7 = none := (hnone 7).mpr (by decide)
  refine ⟨hcode, hsix, hseven, ?_, ?_⟩
  · rcases hseek 6 f rfl with hfound | ⟨hmissing, -⟩
    · exact hfound
    · rw [← hnone, hsix] at hmissing
      cases hmissing
  · rcases hseek 7 f rfl with ⟨i, hi, hpc, -⟩ | ⟨-, hstays⟩
    · exact absurd hpc ((hnone 7).mp hseven i hi)
    · exact hstays

end ClassVM
