import ClassVM.Proofs.Machine.Effect
import ClassVM.Proofs.Typing.Rules

namespace ClassVM

/-- The values of an invocation have a shape, and there are `room` local variables or more. -/
structure Workspace.HasShape (w : Workspace) (room : Nat) (s : Shape) : Prop where
  stack : w.stack.map Value.kind = s.operands
  slots : ∀ slot ∈ s.slots, ∃ n, w.locals[slot]? = some (some (.int n))
  room : room ≤ w.locals.size

theorem exists_of_kinds {stack : List Value} {k : ValueKind} {rest : List ValueKind}
    (h : stack.map Value.kind = k :: rest) :
    ∃ v below, stack = v :: below ∧ v.kind = k ∧ below.map Value.kind = rest := by
  cases stack with
  | nil => simp at h
  | cons v below =>
    simp only [List.map_cons, List.cons.injEq] at h
    exact ⟨v, below, rfl, h.1, h.2⟩

theorem exists_int {stack : List Value} {rest : List ValueKind}
    (h : stack.map Value.kind = .int :: rest) :
    ∃ n below, stack = .int n :: below ∧ below.map Value.kind = rest := by
  obtain ⟨v, below, rfl, hv, hbelow⟩ := exists_of_kinds h
  cases v with
  | int n => exact ⟨n, below, rfl, hbelow⟩
  | printStream => cases hv

theorem exists_stream {stack : List Value} {rest : List ValueKind}
    (h : stack.map Value.kind = .printStream :: rest) :
    ∃ below, stack = .printStream :: below ∧ below.map Value.kind = rest := by
  obtain ⟨v, below, rfl, hv, hbelow⟩ := exists_of_kinds h
  cases v with
  | int n => cases hv
  | printStream => exact ⟨below, rfl, hbelow⟩

namespace Workspace.HasShape
variable {stack stack' : List Value} {locals : Array (Option Value)} {room : Nat} {s t : Shape}

theorem withStack (h : HasShape ⟨stack, locals⟩ room s) {operands : List ValueKind}
    (hstack : stack'.map Value.kind = operands) :
    HasShape ⟨stack', locals⟩ room ⟨operands, s.slots⟩ :=
  ⟨hstack, h.slots, h.room⟩

theorem push (h : HasShape ⟨stack, locals⟩ room s) (v : Value) :
    HasShape ⟨v :: stack, locals⟩ room (s.push v.kind) :=
  ⟨congrArg (v.kind :: ·) h.stack, h.slots, h.room⟩

theorem admitted {T : Typing} {position : Nat} {w : Workspace} (h : w.HasShape room t)
    (ha : T.Admits position t) : w.HasShape room (T.shape position) :=
  ⟨ha.1 ▸ h.stack, fun slot hs => h.slots slot (ha.2 hs), h.room⟩

theorem set (h : HasShape ⟨stack, locals⟩ room s) {slot : Nat} (hlt : slot < locals.size)
    (n : Int32) (hslots : ∀ other ∈ t.slots, other = slot ∨ other ∈ s.slots)
    (hstack : stack'.map Value.kind = t.operands) :
    HasShape ⟨stack', locals.set slot (some (.int n))⟩ room t := by
  refine ⟨hstack, ?_, ?_⟩
  · intro other hother
    by_cases heq : slot = other
    · subst heq
      exact ⟨n, Array.getElem?_set_self hlt⟩
    · obtain ⟨k, hk⟩ := h.slots other ((hslots other hother).resolve_left (Ne.symm heq))
      exact ⟨k, by rw [Array.getElem?_set_ne hlt heq, hk]⟩
  · rw [Array.size_set]
    exact h.room

end Workspace.HasShape

section instructions
variable (loader : Loader) (typings : LoadedClass → Method → Typing)

/-- What the rules promise of an instruction at `position`. -/
def Promised (owner : LoadedClass) (method : Method) (position : Nat) :
    Except RunError Control × Workspace → Prop
  | (.error e, _) => e = .divisionByZero
  | (.ok .next, w) | (.ok (.print _), w) =>
    ∃ t, w.HasShape method.maxLocals.toNat t ∧ (typings owner method).Falls method position t
  | (.ok (.jump target), w) =>
    ∃ t, w.HasShape method.maxLocals.toNat t ∧ (typings owner method).Lands method target t
  | (.ok (.call ref), w) =>
    ∃ t, w.HasShape method.maxLocals.toNat t ∧ Calls loader typings owner method position t ref
  | (.ok (.leave value), _) => (typings owner method).result = value.map Value.kind

theorem execute_promised {owner : LoadedClass} {method : Method} {position : Nat} {i : Instruction}
    {w : Workspace} (h : Accepts loader typings owner method position i.op)
    (hw : w.HasShape method.maxLocals.toNat ((typings owner method).shape position)) :
    Promised loader typings owner method position (i.execute owner.pool w) := by
  obtain ⟨stack, locals⟩ := w
  -- The kinds that the rules ask for give the stack its form, and the effect is known on it.
  have hstack := hw.stack
  cases hop : i.op <;> rw [hop] at h
  case nop =>
    rw [Instruction.execute_nop hop]
    exact ⟨_, hw, h⟩
  case push value =>
    rw [Instruction.execute_push hop]
    exact ⟨_, hw.push (.int value), h⟩
  case loadConstant index =>
    obtain ⟨⟨value, hc⟩, h⟩ := h
    rw [Instruction.execute_loadConstant hop hc]
    exact ⟨_, hw.push (.int value), h⟩
  case load slot =>
    obtain ⟨hslot, h⟩ := h
    obtain ⟨n, hn⟩ := hw.slots _ hslot
    rw [Instruction.execute_load hop hn]
    exact ⟨_, hw.push (.int n), h⟩
  case store slot =>
    obtain ⟨hlt, rest, hs, h⟩ := h
    obtain ⟨n, below, rfl, hbelow⟩ := exists_int (hstack.trans hs)
    have hsize : slot.toNat < locals.size := Nat.lt_of_lt_of_le hlt hw.room
    rw [Instruction.execute_store hop hsize]
    exact ⟨_, hw.set hsize n (fun _ => List.mem_cons.mp) hbelow, h⟩
  case increment slot delta =>
    obtain ⟨hslot, h⟩ := h
    obtain ⟨n, hn⟩ := hw.slots _ hslot
    have hsize : slot.toNat < locals.size := (Array.getElem?_eq_some_iff.mp hn).1
    rw [Instruction.execute_increment hop hn hsize]
    exact ⟨_, hw.set hsize (n + delta) (fun _ => .inr) hstack, h⟩
  case arithmetic operator =>
    obtain ⟨rest, hs, h⟩ := h
    obtain ⟨right, others, rfl, hothers⟩ := exists_int (hstack.trans hs)
    obtain ⟨left, below, rfl, hbelow⟩ := exists_int hothers
    rw [Instruction.execute_arithmetic hop]
    cases hr : operator.apply left right with
    | ok value => exact ⟨_, (hw.withStack hbelow).push (.int value), h⟩
    | error e => exact (Operator.apply_eq_error_iff.mp hr).1
  case negate =>
    obtain ⟨rest, hs, h⟩ := h
    obtain ⟨n, below, rfl, hbelow⟩ := exists_int (hstack.trans hs)
    rw [Instruction.execute_negate hop]
    exact ⟨_, hw.withStack hstack, h⟩
  case pop =>
    obtain ⟨k, rest, hs, h⟩ := h
    obtain ⟨v, below, rfl, -, hbelow⟩ := exists_of_kinds (hstack.trans hs)
    rw [Instruction.execute_pop hop]
    exact ⟨_, hw.withStack hbelow, h⟩
  case duplicate =>
    obtain ⟨k, rest, hs, h⟩ := h
    obtain ⟨v, below, rfl, rfl, hbelow⟩ := exists_of_kinds (hstack.trans hs)
    rw [Instruction.execute_duplicate hop]
    exact ⟨_, hw.push v, h⟩
  case branchIf condition target =>
    obtain ⟨rest, hs, hfalls, hlands⟩ := h
    obtain ⟨n, below, rfl, hbelow⟩ := exists_int (hstack.trans hs)
    have hleft := hw.withStack hbelow
    rw [Instruction.execute_branchIf hop]
    split
    · exact ⟨_, hleft, hlands⟩
    · exact ⟨_, hleft, hfalls⟩
  case branchCompare condition target =>
    obtain ⟨rest, hs, hfalls, hlands⟩ := h
    obtain ⟨right, others, rfl, hothers⟩ := exists_int (hstack.trans hs)
    obtain ⟨left, below, rfl, hbelow⟩ := exists_int hothers
    have hleft := hw.withStack hbelow
    rw [Instruction.execute_branchCompare hop]
    split
    · exact ⟨_, hleft, hlands⟩
    · exact ⟨_, hleft, hfalls⟩
  case jump target =>
    rw [Instruction.execute_jump hop]
    exact ⟨_, hw, h⟩
  case getStatic index =>
    obtain ⟨ref, href, hfield, h⟩ := h
    rw [Instruction.execute_getStatic hop href hfield]
    exact ⟨_, hw.push .printStream, h⟩
  case invokeVirtual index =>
    obtain ⟨ref, call, rest, href, hcall, hs, h⟩ := h
    by_cases h0 : call.arity = 0
    · rw [if_pos h0] at hs
      obtain ⟨below, rfl, hbelow⟩ := exists_stream (hstack.trans hs)
      have hx := Instruction.execute_invokeVirtual hop href hcall 0 below locals
      rw [if_pos h0, List.singleton_append] at hx
      rw [hx]
      exact ⟨_, hw.withStack hbelow, h⟩
    · rw [if_neg h0] at hs
      obtain ⟨n, others, rfl, hothers⟩ := exists_int (hstack.trans hs)
      obtain ⟨below, rfl, hbelow⟩ := exists_stream hothers
      have hx := Instruction.execute_invokeVirtual hop href hcall n below locals
      rw [if_neg h0, List.cons_append, List.singleton_append] at hx
      rw [hx]
      exact ⟨_, hw.withStack hbelow, h⟩
  case invokeStatic index =>
    obtain ⟨ref, href, h⟩ := h
    rw [Instruction.execute_invokeStatic hop, href]
    exact ⟨_, hw, h⟩
  case returnValue =>
    obtain ⟨k, rest, hs, h⟩ := h
    obtain ⟨v, below, rfl, rfl, -⟩ := exists_of_kinds (hstack.trans hs)
    rw [Instruction.execute_returnValue hop]
    exact h
  case returnVoid =>
    rw [Instruction.execute_returnVoid hop]
    exact h
  case unsupported => exact h.elim

end instructions
end ClassVM
