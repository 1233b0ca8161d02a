import ClassVM.Machine.Execution

namespace ClassVM

/-- The offset that a branch names. -/
def Op.target? : Op → Option Nat
  | branchIf _ target | branchCompare _ target | jump target => some target
  | _ => none

theorem Operator.apply_eq_error_iff {operator : Operator} {left right : Int32} {e : RunError} :
    operator.apply left right = .error e ↔
      e = .divisionByZero ∧ right = 0 ∧ (operator = .div ∨ operator = .rem) := by
  cases operator with
  | add | sub | mul => simp [apply]
  | div | rem =>
    rw [apply]
    split
    next h => simp [h, eq_comm]
    next h => simp [h]

namespace Exec

theorem get_apply {σ : Type} (s : σ) : (get : Exec σ σ) s = (.ok s, s) := rfl

theorem ofExcept_apply {σ α : Type} (r : Except RunError α) (s : σ) :
    (ofExcept r : Exec σ α) s = (r, s) := rfl

theorem mapError_ok {ε α : Type} (a : α) (f : ε → RunError) :
    (Except.ok a : Except ε α).mapError f = .ok a := rfl

theorem bind_eq_ok {σ α β : Type} {x : Exec σ α} {f : α → Exec σ β} {s s' : σ} {b : β}
    (h : (x >>= f) s = (.ok b, s')) : ∃ a t, x s = (.ok a, t) ∧ f a t = (.ok b, s') := by
  rw [bind_apply] at h
  split at h
  next a t hx => exact ⟨a, t, hx, h⟩
  next e t hx => cases h

/-- Whether it succeeds or fails, the effect takes every state to one that is related to it. -/
def Relates {σ α : Type} (R : σ → σ → Prop) (x : Exec σ α) : Prop := ∀ s, R s (x s).2

theorem Relates.bind {σ α β : Type} {R : σ → σ → Prop} {x : Exec σ α} {f : α → Exec σ β}
    (hx : Relates R x) (htrans : ∀ s t u, R s t → R t u → R s u) (hf : ∀ a, Relates R (f a)) :
    Relates R (x >>= f) := by
  intro s
  have hfirst := hx s
  rw [bind_apply]
  rcases hs : x s with ⟨e | a, t⟩
  · rwa [hs] at hfirst
  · rw [hs] at hfirst
    exact htrans s t _ hfirst (hf a t)

end Exec

namespace Workspace
variable {stack : List Value} {locals : Array (Option Value)}

theorem popInt_int (n : Int32) : popInt ⟨.int n :: stack, locals⟩ = (.ok n, ⟨stack, locals⟩) := rfl

theorem load_of_int {index : Nat} {n : Int32} (h : locals[index]? = some (some (.int n))) :
    Workspace.load ⟨stack, locals⟩ index = .ok n := by
  simp [Workspace.load, h, Value.asInt]

theorem pop_eq_ok {w w' : Workspace} {v : Value} (h : pop w = (.ok v, w')) :
    w.stack = v :: w'.stack := by
  obtain ⟨_ | ⟨top, stack⟩, locals⟩ := w <;> cases h
  rfl

theorem popInt_eq_ok {w w' : Workspace} {n : Int32} (h : popInt w = (.ok n, w')) :
    w.stack = .int n :: w'.stack := by
  obtain ⟨v, t, hv, h⟩ := Exec.bind_eq_ok h
  cases v <;> cases h
  exact pop_eq_ok hv

/-- What a printing method has taken off the stack when it comes to print. -/
theorem printed_eq_ok {ref : MemberRef} {w w' : Workspace} {text : String}
    (h : printed ref w = (.ok text, w')) :
    ∃ call n, PrintCall.ofRef? ref = some call ∧ text = call.text n ∧
      w.stack = (if call.arity = 0 then [] else [.int n]) ++ .printStream :: w'.stack := by
  unfold printed at h
  cases hcall : PrintCall.ofRef? ref with
  | none =>
    rw [hcall] at h
    cases h
  | some call =>
    simp only [hcall] at h
    split at h
    next h0 =>
      obtain ⟨n, s, hn, h⟩ := Exec.bind_eq_ok h
      obtain ⟨receiver, t, hreceiver, h⟩ := Exec.bind_eq_ok h
      cases hn
      cases receiver <;> cases h
      exact ⟨call, 0, rfl, rfl, by simpa [h0] using pop_eq_ok hreceiver⟩
    next h0 =>
      obtain ⟨n, s, hn, h⟩ := Exec.bind_eq_ok h
      obtain ⟨receiver, t, hreceiver, h⟩ := Exec.bind_eq_ok h
      cases receiver <;> cases h
      exact ⟨call, n, rfl, rfl, by simp [h0, popInt_eq_ok hn, pop_eq_ok hreceiver]⟩

end Workspace

namespace Instruction
open Exec Workspace

section effects
variable {pool : ConstantPool} {i : Instruction}
variable {stack : List Value} {locals : Array (Option Value)}

theorem execute_nop (h : i.op = .nop) :
    i.execute pool ⟨stack, locals⟩ = (.ok .next, ⟨stack, locals⟩) := by
  simp only [execute, h, pure_apply]

theorem execute_push {value : Int32} (h : i.op = .push value) :
    i.execute pool ⟨stack, locals⟩ = (.ok .next, ⟨.int value :: stack, locals⟩) := by
  simp only [execute, h, bind_apply, Workspace.push, pure_apply]

theorem execute_loadConstant {index : UInt16} {value : Int32} (h : i.op = .loadConstant index)
    (hc : pool.constant? index = some (.integer value)) :
    i.execute pool ⟨stack, locals⟩ = (.ok .next, ⟨.int value :: stack, locals⟩) := by
  simp only [execute, h, ConstantPool.loadable, hc, bind_apply, ofExcept_apply, Workspace.push,
    pure_apply]

theorem execute_load {slot : UInt16} {n : Int32} (h : i.op = .load slot)
    (hs : locals[slot.toNat]? = some (some (.int n))) :
    i.execute pool ⟨stack, locals⟩ = (.ok .next, ⟨.int n :: stack, locals⟩) := by
  simp only [execute, h, bind_apply, get_apply, ofExcept_apply, load_of_int hs, Workspace.push,
    pure_apply]

theorem execute_store {slot : UInt16} {n : Int32} (h : i.op = .store slot)
    (hs : slot.toNat < locals.size) :
    i.execute pool ⟨.int n :: stack, locals⟩ =
      (.ok .next, ⟨stack, locals.set slot.toNat (some (.int n))⟩) := by
  simp only [execute, h, bind_apply, popInt_int, Workspace.store, hs, dite_true, pure_apply]

theorem execute_increment {slot : UInt16} {n delta : Int32} (h : i.op = .increment slot delta)
    (hs : locals[slot.toNat]? = some (some (.int n))) (hlt : slot.toNat < locals.size) :
    i.execute pool ⟨stack, locals⟩ =
      (.ok .next, ⟨stack, locals.set slot.toNat (some (.int (n + delta)))⟩) := by
  simp only [execute, h, bind_apply, get_apply, ofExcept_apply, load_of_int hs, Workspace.store,
    hlt, dite_true, pure_apply]

theorem execute_arithmetic {operator : Operator} {left right : Int32}
    (h : i.op = .arithmetic operator) :
    i.execute pool ⟨.int right :: .int left :: stack, locals⟩ =
      match operator.apply left right with
      | .ok value => (.ok .next, ⟨.int value :: stack, locals⟩)
      | .error e => (.error e, ⟨stack, locals⟩) := by
  simp only [execute, h, bind_apply, popInt_int, ofExcept_apply]
  cases operator.apply left right <;> rfl

theorem execute_negate {n : Int32} (h : i.op = .negate) :
    i.execute pool ⟨.int n :: stack, locals⟩ = (.ok .next, ⟨.int (-n) :: stack, locals⟩) := by
  simp only [execute, h, bind_apply, popInt_int, Workspace.push, pure_apply]

theorem execute_pop {v : Value} (h : i.op = .pop) :
    i.execute pool ⟨v :: stack, locals⟩ = (.ok .next, ⟨stack, locals⟩) := by
  simp only [execute, h, bind_apply, Workspace.pop, pure_apply]

theorem execute_duplicate {v : Value} (h : i.op = .duplicate) :
    i.execute pool ⟨v :: stack, locals⟩ = (.ok .next, ⟨v :: v :: stack, locals⟩) := by
  simp only [execute, h, bind_apply, get_apply, ofExcept_apply, Workspace.peek, Workspace.push,
    pure_apply]

theorem execute_branchIf {condition : Condition} {target : Nat} {n : Int32}
    (h : i.op = .branchIf condition target) :
    i.execute pool ⟨.int n :: stack, locals⟩ =
      (.ok (if condition.holds n 0 then .jump target else .next), ⟨stack, locals⟩) := by
  simp only [execute, h, bind_apply, popInt_int, pure_apply]

theorem execute_branchCompare {condition : Condition} {target : Nat} {left right : Int32}
    (h : i.op = .branchCompare condition target) :
    i.execute pool ⟨.int right :: .int left :: stack, locals⟩ =
      (.ok (if condition.holds left right then .jump target else .next), ⟨stack, locals⟩) := by
  simp only [execute, h, bind_apply, popInt_int, pure_apply]

theorem execute_jump {target : Nat} (h : i.op = .jump target) :
    i.execute pool ⟨stack, locals⟩ = (.ok (.jump target), ⟨stack, locals⟩) := by
  simp only [execute, h, pure_apply]

theorem execute_getStatic {index : UInt16} {ref : MemberRef} {v : Value}
    (h : i.op = .getStatic index) (href : pool.fieldRef index = .ok ref)
    (hv : Library.staticField? ref = some v) :
    i.execute pool ⟨stack, locals⟩ = (.ok .next, ⟨v :: stack, locals⟩) := by
  simp only [execute, h, href, mapError_ok, bind_apply, ofExcept_apply, hv, Workspace.push,
    pure_apply]

theorem execute_invokeVirtual {index : UInt16} {ref : MemberRef} {call : PrintCall}
    (h : i.op = .invokeVirtual index) (href : pool.methodRef index = .ok ref)
    (hcall : PrintCall.ofRef? ref = some call) (n : Int32) (stack : List Value)
    (locals : Array (Option Value)) :
    i.execute pool
        ⟨(if call.arity = 0 then [.printStream] else [.int n, .printStream]) ++ stack, locals⟩ =
      (.ok (.print (call.text (if call.arity = 0 then 0 else n))), ⟨stack, locals⟩) := by
  simp only [execute, h, href, mapError_ok, bind_apply, ofExcept_apply, printed, hcall]
  by_cases h0 : call.arity = 0
  · simp only [h0, if_true, pure_apply]
    rfl
  · simp only [h0, if_false]
    rfl

theorem execute_invokeStatic {index : UInt16} (h : i.op = .invokeStatic index) (w : Workspace) :
    i.execute pool w =
      match pool.methodRef index with
      | .ok ref => (.ok (.call ref), w)
      | .error e => (.error (.unresolved e), w) := by
  simp only [execute, h, bind_apply, ofExcept_apply]
  cases pool.methodRef index <;> rfl

theorem execute_returnValue {v : Value} (h : i.op = .returnValue) :
    i.execute pool ⟨v :: stack, locals⟩ = (.ok (.leave (some v)), ⟨stack, locals⟩) := by
  simp only [execute, h, bind_apply, Workspace.pop, pure_apply]

theorem execute_returnVoid (h : i.op = .returnVoid) (w : Workspace) :
    i.execute pool w = (.ok (.leave none), w) := by
  simp only [execute, h, pure_apply]

end effects

/-- What an instruction that succeeds asks for, by its operation. -/
theorem control_of_execute {pool : ConstantPool} {i : Instruction} {w w' : Workspace}
    {control : Control} (h : i.execute pool w = (.ok control, w')) :
    match i.op with
    | .jump target => control = .jump target
    | .branchIf _ target | .branchCompare _ target => control = .jump target ∨ control = .next
    | .invokeVirtual _ => ∃ text, control = .print text
    | .invokeStatic index => ∃ ref, pool.methodRef index = .ok ref ∧ control = .call ref ∧ w' = w
    | .returnValue =>
      ∃ v, control = .leave (some v) ∧ w.stack = v :: w'.stack ∧ w'.locals = w.locals
    | .returnVoid => control = .leave none ∧ w' = w
    | .unsupported => False
    | _ => control = .next := by
  have next_of_pure : ∀ {s}, (pure .next : Exec Workspace Control) s = (.ok control, w') →
      control = .next := by
    rintro s ⟨⟩
    rfl
  cases hop : i.op <;> simp only [execute, hop] at h ⊢
  case nop => exact next_of_pure h
  case push | loadConstant | load | store | increment | arithmetic | negate | pop | duplicate =>
    -- Whatever comes before, the last thing that these do is to ask for the next instruction.
    repeat obtain ⟨_, _, _, h⟩ := bind_eq_ok h
    exact next_of_pure h
  case branchIf condition target =>
    obtain ⟨n, t, _, h⟩ := bind_eq_ok h
    cases h
    by_cases hc : condition.holds n 0 <;> simp [hc]
  case branchCompare condition target =>
    obtain ⟨right, s, _, h⟩ := bind_eq_ok h
    obtain ⟨left, t, _, h⟩ := bind_eq_ok h
    cases h
    by_cases hc : condition.holds left right <;> simp [hc]
  case jump target =>
    cases h
    rfl
  case getStatic index =>
    obtain ⟨ref, t, _, h⟩ := bind_eq_ok h
    cases hv : Library.staticField? ref with
    | some v =>
      rw [hv] at h
      obtain ⟨_, _, _, h⟩ := bind_eq_ok h
      exact next_of_pure h
    | none =>
      rw [hv] at h
      cases h
  case invokeVirtual index =>
    obtain ⟨ref, s, _, h⟩ := bind_eq_ok h
    obtain ⟨text, t, _, h⟩ := bind_eq_ok h
    cases h
    exact ⟨text, rfl⟩
  case invokeStatic index =>
    obtain ⟨ref, s, href, h⟩ := bind_eq_ok h
    cases h
    cases hm : pool.methodRef index with
    | error e =>
      rw [hm] at href
      cases href
    | ok found =>
      rw [hm] at href
      cases href
      exact ⟨ref, rfl, rfl, rfl⟩
  case returnValue =>
    obtain ⟨v, s, hv, h⟩ := bind_eq_ok h
    cases h
    obtain ⟨stack, locals⟩ := w
    cases stack <;> cases hv
    exact ⟨v, rfl, rfl, rfl⟩
  case returnVoid =>
    cases h
    exact ⟨rfl, rfl⟩
  case unsupported => cases h

/-- Only `invokestatic` asks for a call. -/
theorem op_of_call {pool : ConstantPool} {i : Instruction} {w w' : Workspace} {ref : MemberRef}
    (h : i.execute pool w = (.ok (.call ref), w')) :
    ∃ index, i.op = .invokeStatic index ∧ pool.methodRef index = .ok ref ∧ w' = w := by
  have hc := control_of_execute h
  cases hop : i.op <;> rw [hop] at hc
  case invokeStatic index =>
    obtain ⟨ref', href, hcall, hw⟩ := hc
    cases hcall
    exact ⟨index, rfl, href, hw⟩
  case branchIf | branchCompare => rcases hc with hc | hc <;> cases hc
  case invokeVirtual | returnValue =>
    obtain ⟨_, hc⟩ := hc
    simp at hc
  case returnVoid => cases hc.1
  all_goals cases hc

/-- Only `invokevirtual` prints: it calls a method of the library, with an int on the stack if the method
has an argument, and the stream below it. -/
theorem op_of_print {pool : ConstantPool} {i : Instruction} {w w' : Workspace} {text : String}
    (h : i.execute pool w = (.ok (.print text), w')) :
    ∃ index ref call n, i.op = .invokeVirtual index ∧ pool.methodRef index = .ok ref ∧
      PrintCall.ofRef? ref = some call ∧ text = call.text n ∧
      w.stack = (if call.arity = 0 then [] else [.int n]) ++ .printStream :: w'.stack := by
  have hop : ∃ index, i.op = .invokeVirtual index := by
    have hc := control_of_execute h
    cases hop : i.op <;> rw [hop] at hc
    case invokeVirtual index => exact ⟨index, rfl⟩
    case branchIf | branchCompare => rcases hc with hc | hc <;> cases hc
    case invokeStatic | returnValue =>
      obtain ⟨_, hc⟩ := hc
      simp at hc
    case returnVoid => cases hc.1
    all_goals cases hc
  obtain ⟨index, hop⟩ := hop
  simp only [execute, hop] at h
  obtain ⟨ref, s, href, h⟩ := bind_eq_ok h
  obtain ⟨found, t, hprinted, h⟩ := bind_eq_ok h
  cases h
  cases hm : pool.methodRef index with
  | error e =>
    rw [hm] at href
    cases href
  | ok resolved =>
    rw [hm] at href
    cases href
    obtain ⟨call, n, hcall, htext, hstack⟩ := printed_eq_ok hprinted
    exact ⟨index, ref, call, n, hop, hm, hcall, htext, hstack⟩

/-- Only the two returns leave a frame. -/
theorem op_of_leave {pool : ConstantPool} {i : Instruction} {w w' : Workspace}
    {value : Option Value} (h : i.execute pool w = (.ok (.leave value), w')) :
    (i.op = .returnVoid ∧ value = none) ∨
      ∃ v, i.op = .returnValue ∧ value = some v ∧ w.stack = v :: w'.stack := by
  have hc := control_of_execute h
  cases hop : i.op <;> rw [hop] at hc
  case returnValue =>
    obtain ⟨v, hleave, hstack, -⟩ := hc
    cases hleave
    exact .inr ⟨v, rfl, rfl, hstack⟩
  case returnVoid =>
    cases hc.1
    exact .inl ⟨rfl, rfl⟩
  case branchIf | branchCompare => rcases hc with hc | hc <;> cases hc
  case invokeVirtual | invokeStatic =>
    obtain ⟨_, hc⟩ := hc
    simp at hc
  all_goals cases hc

/-- Only branches jump, and only to their targets. -/
theorem target?_of_jump {pool : ConstantPool} {i : Instruction} {w w' : Workspace} {target : Nat}
    (h : i.execute pool w = (.ok (.jump target), w')) : i.op.target? = some target := by
  have hc := control_of_execute h
  cases hop : i.op <;> rw [hop] at hc
  case jump =>
    cases hc
    rfl
  case branchIf | branchCompare =>
    rcases hc with hc | hc <;> cases hc
    rfl
  case invokeVirtual | invokeStatic | returnValue =>
    obtain ⟨_, hc⟩ := hc
    simp at hc
  case returnVoid => cases hc.1
  all_goals cases hc

end Instruction
end ClassVM
