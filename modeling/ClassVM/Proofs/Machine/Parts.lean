import ClassVM.Proofs.Machine.Effect

namespace ClassVM

section faults
variable {α : Type}

/-- The answer is not that there is no frame. -/
def NotFrameless (r : Except RunError α) : Prop := r ≠ .error .emptyCallStack

/-- The answer is not about the call stack: neither that there is no frame nor that there is no room
for one more. -/
structure OffStack (r : Except RunError α) : Prop where
  frameless : NotFrameless r
  overflow : ∀ limit, r ≠ .error (.stackOverflow limit)

@[simp] theorem offStack_ok (a : α) : OffStack (.ok a : Except RunError α) :=
  ⟨nofun, fun _ => nofun⟩

@[simp] theorem offStack_error_iff {e : RunError} :
    OffStack (.error e : Except RunError α) ↔
      e ≠ .emptyCallStack ∧ ∀ limit, e ≠ .stackOverflow limit :=
  ⟨fun h => ⟨fun he => h.frameless (congrArg _ he), fun limit he => h.overflow limit (congrArg _ he)⟩,
    fun h => ⟨fun he => h.1 (Except.error.inj he), fun limit he => h.2 limit (Except.error.inj he)⟩⟩

theorem offStack_asInt (v : Value) : OffStack v.asInt := by
  cases v <;> simp [Value.asInt]

theorem offStack_load (w : Workspace) (index : Nat) : OffStack (w.load index) := by
  unfold Workspace.load
  split
  · exact offStack_asInt _
  · simp
  · simp

theorem offStack_peek (w : Workspace) : OffStack w.peek := by
  unfold Workspace.peek
  split <;> simp

theorem offStack_apply (operator : Operator) (left right : Int32) :
    OffStack (operator.apply left right) := by
  cases operator <;> simp only [Operator.apply] <;> try split
  all_goals simp

theorem offStack_loadable (pool : ConstantPool) (index : UInt16) :
    OffStack (pool.loadable index) := by
  unfold ConstantPool.loadable
  split <;> simp

theorem offStack_unresolved (r : Except PoolError α) :
    OffStack (r.mapError RunError.unresolved) := by
  cases r with
  | error e => exact offStack_error_iff.mpr ⟨nofun, nofun⟩
  | ok a => exact offStack_ok a

end faults

namespace Workspace
variable {Holds : (α : Type) → Exec Workspace α → Prop}

/-- `Holds` is true of what only looks at a workspace or takes values off its stack. -/
structure HoldsOfTaking (Holds : (α : Type) → Exec Workspace α → Prop) : Prop where
  pure : ∀ {α : Type} (a : α), Holds α (pure a)
  answer : ∀ {α : Type} {r : Except RunError α}, OffStack r → Holds α (Exec.ofExcept r)
  get : Holds Workspace get
  pop : Holds Value pop
  bind : ∀ {α β : Type} {x : Exec Workspace α} {f : α → Exec Workspace β}, Holds α x →
    (∀ a, Holds β (f a)) → Holds β (x >>= f)

/-- `Holds` is true of all parts of instructions. -/
structure HoldsOfParts (Holds : (α : Type) → Exec Workspace α → Prop) : Prop extends
    HoldsOfTaking Holds where
  push : ∀ v, Holds Unit (push v)
  store : ∀ index v, Holds Unit (store index v)

theorem HoldsOfTaking.throw (h : HoldsOfTaking Holds) {α : Type} {e : RunError}
    (he : OffStack (.error e : Except RunError α)) : Holds α (throw e) :=
  h.answer he

theorem HoldsOfTaking.popInt (h : HoldsOfTaking Holds) : Holds Int32 popInt :=
  h.bind h.pop fun v => h.answer (offStack_asInt v)

theorem HoldsOfTaking.printed (h : HoldsOfTaking Holds) (ref : MemberRef) :
    Holds String (printed ref) := by
  have hreceiver : ∀ f : Value → Exec Workspace String, Holds String (f .printStream) →
      (∀ n, Holds String (f (.int n))) → Holds String (Workspace.pop >>= f) := by
    intro f hstream hint
    apply h.bind h.pop
    rintro (n | _)
    · exact hint n
    · exact hstream
  unfold Workspace.printed
  cases PrintCall.ofRef? ref with
  | none => exact h.throw (by simp)
  | some call =>
    simp only
    split
    · exact h.bind (h.pure 0) fun _ => hreceiver _ (h.pure _) fun _ => h.throw (by simp)
    · exact h.bind h.popInt fun _ => hreceiver _ (h.pure _) fun _ => h.throw (by simp)

theorem HoldsOfParts.execute (h : HoldsOfParts Holds) (pool : ConstantPool) (i : Instruction) :
    Holds Control (i.execute pool) := by
  have next : Holds Control (Pure.pure Control.next) := h.pure _
  unfold Instruction.execute
  cases i.op with
  | nop | jump | returnVoid => exact h.pure _
  | unsupported => exact h.throw (by simp)
  | push value => exact h.bind (h.push _) fun _ => next
  | loadConstant index =>
    exact h.bind (h.answer (offStack_loadable pool index)) fun _ =>
      h.bind (h.push _) fun _ => next
  | load slot =>
    exact h.bind h.get fun w => h.bind (h.answer (offStack_load w _)) fun _ =>
      h.bind (h.push _) fun _ => next
  | store slot => exact h.bind h.popInt fun _ => h.bind (h.store _ _) fun _ => next
  | increment slot delta =>
    exact h.bind h.get fun w => h.bind (h.answer (offStack_load w _)) fun _ =>
      h.bind (h.store _ _) fun _ => next
  | arithmetic operator =>
    exact h.bind h.popInt fun right => h.bind h.popInt fun left =>
      h.bind (h.answer (offStack_apply operator left right)) fun _ =>
        h.bind (h.push _) fun _ => next
  | negate => exact h.bind h.popInt fun _ => h.bind (h.push _) fun _ => next
  | pop => exact h.bind h.pop fun _ => next
  | duplicate =>
    exact h.bind h.get fun w => h.bind (h.answer (offStack_peek w)) fun _ =>
      h.bind (h.push _) fun _ => next
  | branchIf condition target => exact h.bind h.popInt fun _ => h.pure _
  | branchCompare condition target =>
    exact h.bind h.popInt fun _ => h.bind h.popInt fun _ => h.pure _
  | getStatic index =>
    apply h.bind (h.answer (offStack_unresolved _))
    intro ref
    cases Library.staticField? ref with
    | some v => exact h.bind (h.push v) fun _ => next
    | none => exact h.throw (by simp)
  | invokeVirtual index =>
    exact h.bind (h.answer (offStack_unresolved _)) fun ref =>
      h.bind (h.printed ref) fun _ => h.pure _
  | invokeStatic index => exact h.bind (h.answer (offStack_unresolved _)) fun _ => h.pure _
  | returnValue => exact h.bind h.pop fun _ => h.pure _

end Workspace

open Exec in
theorem Instruction.execute_offStack (pool : ConstantPool) (i : Instruction) (w : Workspace) :
    OffStack (i.execute pool w).1 := by
  have hparts : Workspace.HoldsOfParts fun _ x => ∀ w, OffStack (x w).1 := by
    constructor
    case push => exact fun v w => by simp [Workspace.push]
    case store =>
      rintro index v ⟨stack, locals⟩
      by_cases h : index < locals.size <;> simp [Workspace.store, h]
    case toHoldsOfTaking =>
      constructor
      case pure => exact fun a w => offStack_ok a
      case answer => exact fun h _ => h
      case get => exact fun w => offStack_ok w
      case pop => rintro ⟨_ | ⟨v, stack⟩, locals⟩ <;> simp [Workspace.pop]
      case bind =>
        intro _ _ x f hx hf w
        have hfirst := hx w
        rw [bind_apply]
        rcases hw : x w with ⟨e | a, left⟩
        · rw [hw, offStack_error_iff] at hfirst
          exact offStack_error_iff.mpr hfirst
        · exact hf a left
  exact hparts.execute pool i w

end ClassVM
