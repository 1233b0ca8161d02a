import ClassVM.Proofs.Assembly.Respelling
import ClassVM.Proofs.Calls.Arguments
import ClassVM.Proofs.Machine.Run

namespace ClassVM

/-- The frame at another place in its method, with another stack. -/
def Frame.positioned (f : Frame) (cursor : Nat) (stack : List Value) : Frame :=
  { f with workspace := ⟨stack, f.workspace.locals⟩, cursor := cursor }

/-- The instruction at a position of the method has this operation. -/
def Method.Has (method : Method) (position : Nat) (op : Op) : Prop :=
  ∃ i, method.instructions[position]? = some i ∧ i.op = op

theorem Method.has_of_listing {method : Method} {xs : List Item} {position : Nat} {x : Item} {op : Op}
    (hlisted : method.instructions.toList = Item.listing 0 xs) (hx : xs[position]? = some x)
    (hop : ∀ pc, x.op pc = op) : method.Has position op := by
  refine ⟨x.instruction (Item.offsetOf xs position), ?_, hop _⟩
  rw [Item.instruction_of_listing hlisted, hx]
  rfl

theorem Frame.invokes_of_has {f : Frame} {index : UInt16} {ref : MemberRef}
    (h : f.method.Has f.cursor (.invokeStatic index))
    (href : f.owner.pool.methodRef index = .ok ref) : f.Invokes ref := by
  obtain ⟨i, hi, hop⟩ := h
  exact ⟨i, index, hi, hop, href⟩

namespace Machine

/-- The machine with other frames and another log. -/
def reframed (m : Machine) (frames : List Frame) (log : Log) : Machine :=
  { m with log := log }.withFrames frames

/-- So many steps lead from these frames to those. -/
def Leads (loader : Loader) (m : Machine) (steps : Nat) (frames after : List Frame) : Prop :=
  ∀ log, ∃ log', (m.reframed frames log).run loader steps = (none, m.reframed after log')

/-- From these frames a run fails within so many steps, and has not printed by then. -/
def Fails (loader : Loader) (m : Machine) (steps : Nat) (frames : List Frame) (e : RunError) : Prop :=
  ∀ log, ∃ last, last.console = m.console ∧
    ∀ fuel ≥ steps, (m.reframed frames log).run loader fuel = (some (.error e), last)

variable {loader : Loader} {m : Machine} {frames between after : List Frame}

theorem Leads.trans {j k : Nat} (h : Leads loader m j frames between)
    (h' : Leads loader m k between after) : Leads loader m (j + k) frames after := by
  intro log
  obtain ⟨middle, hrun⟩ := h log
  obtain ⟨last, hrest⟩ := h' middle
  exact ⟨last, (run_add hrun k).trans hrest⟩

theorem Leads.fails {j k : Nat} {e : RunError} (h : Leads loader m j frames between)
    (h' : Fails loader m k between e) : Fails loader m (j + k) frames e := by
  intro log
  obtain ⟨middle, hrun⟩ := h log
  obtain ⟨last, hconsole, hrest⟩ := h' middle
  refine ⟨last, hconsole, fun fuel hfuel => ?_⟩
  obtain ⟨more, rfl⟩ := Nat.exists_eq_add_of_le (Nat.le_trans (Nat.le_add_right j k) hfuel)
  rw [run_add hrun more]
  exact hrest more (by omega)

theorem Fails.mono {j k : Nat} {e : RunError} (h : Fails loader m j frames e) (hle : j ≤ k) :
    Fails loader m k frames e := by
  intro log
  obtain ⟨last, hconsole, hrun⟩ := h log
  exact ⟨last, hconsole, fun fuel hfuel => hrun fuel (Nat.le_trans hle hfuel)⟩

theorem leads_of_step
    (h : ∀ log, ∃ log', (m.reframed frames log).step loader = (some (.ok ()), m.reframed after log')) :
    Leads loader m 1 frames after := by
  intro log
  obtain ⟨log', hstep⟩ := h log
  exact ⟨log', run_succ_of_step hstep 0⟩

section instructions
variable {f : Frame} {below : List Frame} {i : Instruction} {cursor : Nat} {stack stack' : List Value}

/-- An instruction does its work on the values, and then comes what it asks for. -/
theorem step_positioned {control : Control} {w : Workspace} {result : Except RunError Unit}
    {m' : Machine} (hi : f.method.instructions[cursor]? = some i)
    (hexecute : i.execute f.owner.pool ⟨stack, f.workspace.locals⟩ = (.ok control, w))
    (hperform : ∀ log, ∃ log', perform loader control
      (m.reframed ({ f with workspace := w, cursor := cursor + 1 } :: below) log) =
        (result, m'.reframed after log')) (log : Log) :
    ∃ log', (m.reframed (f.positioned cursor stack :: below) log).step loader =
      (some result, m'.reframed after log') := by
  have hexecute' : i.execute (f.positioned cursor stack).owner.pool
      (f.positioned cursor stack).workspace = (.ok control, w) := hexecute
  obtain ⟨log', hlast⟩ := hperform (log.record (.executing f.owner.name f.method.name i))
  refine ⟨log', ?_⟩
  rw [step_eq (f := f.positioned cursor stack) rfl hi, hexecute']
  exact congrArg (fun out => (some out.1, out.2)) hlast

theorem leads_next (hi : f.method.instructions[cursor]? = some i)
    (hexecute : i.execute f.owner.pool ⟨stack, f.workspace.locals⟩ =
      (.ok .next, ⟨stack', f.workspace.locals⟩)) :
    Leads loader m 1 (f.positioned cursor stack :: below)
      (f.positioned (cursor + 1) stack' :: below) :=
  leads_of_step (step_positioned hi hexecute fun log => ⟨log, rfl⟩)

theorem leads_push {value : Int32} (h : f.method.Has cursor (.push value)) :
    Leads loader m 1 (f.positioned cursor stack :: below)
      (f.positioned (cursor + 1) (.int value :: stack) :: below) := by
  obtain ⟨i, hi, hop⟩ := h
  exact leads_next hi (Instruction.execute_push hop)

theorem leads_load {slot : UInt16} {n : Int32} (h : f.method.Has cursor (.load slot))
    (hslot : f.workspace.locals[slot.toNat]? = some (some (.int n))) :
    Leads loader m 1 (f.positioned cursor stack :: below)
      (f.positioned (cursor + 1) (.int n :: stack) :: below) := by
  obtain ⟨i, hi, hop⟩ := h
  exact leads_next hi (Instruction.execute_load hop hslot)

theorem leads_arithmetic {operator : Operator} {left right value : Int32}
    (h : f.method.Has cursor (.arithmetic operator)) (hvalue : operator.apply left right = .ok value) :
    Leads loader m 1 (f.positioned cursor (.int right :: .int left :: stack) :: below)
      (f.positioned (cursor + 1) (.int value :: stack) :: below) := by
  obtain ⟨i, hi, hop⟩ := h
  refine leads_next hi ?_
  rw [Instruction.execute_arithmetic hop, hvalue]

theorem leads_getStatic {index : UInt16} {ref : MemberRef} {v : Value}
    (h : f.method.Has cursor (.getStatic index)) (href : f.owner.pool.fieldRef index = .ok ref)
    (hv : Library.staticField? ref = some v) :
    Leads loader m 1 (f.positioned cursor stack :: below)
      (f.positioned (cursor + 1) (v :: stack) :: below) := by
  obtain ⟨i, hi, hop⟩ := h
  exact leads_next hi (Instruction.execute_getStatic hop href hv)

/-- A branch whose condition does not hold is passed. -/
theorem leads_branch_passed {condition : Condition} {target : Nat} {n : Int32}
    (h : f.method.Has cursor (.branchIf condition target)) (hn : condition.holds n 0 = false) :
    Leads loader m 1 (f.positioned cursor (.int n :: stack) :: below)
      (f.positioned (cursor + 1) stack :: below) := by
  obtain ⟨i, hi, hop⟩ := h
  refine leads_next hi ?_
  rw [Instruction.execute_branchIf hop, hn, if_neg Bool.false_ne_true]

theorem leads_branch_taken {condition : Condition} {target position : Nat} {n : Int32}
    (h : f.method.Has cursor (.branchIf condition target)) (hn : condition.holds n 0 = true)
    (hposition : f.method.indexOf? target = some position) :
    Leads loader m 1 (f.positioned cursor (.int n :: stack) :: below)
      (f.positioned position stack :: below) := by
  obtain ⟨i, hi, hop⟩ := h
  have hexecute : i.execute f.owner.pool ⟨.int n :: stack, f.workspace.locals⟩ =
      (.ok (.jump target), ⟨stack, f.workspace.locals⟩) := by
    rw [Instruction.execute_branchIf hop, if_pos hn]
  refine leads_of_step (step_positioned hi hexecute fun log => ⟨log, ?_⟩)
  have hjump := perform_jump loader { m with log := log } (f.positioned (cursor + 1) stack) below
    target
  have hfound : (f.positioned (cursor + 1) stack).method.indexOf? target = some position := hposition
  rw [hfound] at hjump
  exact hjump

theorem leads_leave {value : Option Value} {w : Workspace}
    (hi : f.method.instructions[cursor]? = some i)
    (hexecute : i.execute f.owner.pool ⟨stack, f.workspace.locals⟩ = (.ok (.leave value), w)) :
    Leads loader m 1 (f.positioned cursor stack :: below) (resume below value) :=
  leads_of_step (step_positioned hi hexecute fun log =>
    ⟨_, perform_leave loader { m with log := log } _ below value⟩)

theorem leads_returnValue {v : Value} {caller : Frame} (h : f.method.Has cursor .returnValue) :
    Leads loader m 1 (f.positioned cursor (v :: stack) :: caller :: below)
      (caller.given v :: below) := by
  obtain ⟨i, hi, hop⟩ := h
  exact leads_leave hi (Instruction.execute_returnValue hop)

theorem leads_returnVoid (h : f.method.Has cursor .returnVoid) :
    Leads loader m 1 (f.positioned cursor stack :: below) below := by
  obtain ⟨i, hi, hop⟩ := h
  exact leads_leave hi (Instruction.execute_returnVoid hop _)

/-- The call of a printing method with an argument. What it comes to is up to the console. -/
theorem step_print {index : UInt16} {ref : MemberRef} {call : PrintCall}
    (h : f.method.Has cursor (.invokeVirtual index)) (href : f.owner.pool.methodRef index = .ok ref)
    (hcall : PrintCall.ofRef? ref = some call) (harity : call.arity ≠ 0) (n : Int32)
    (loader : Loader) (log : Log) :
    ∃ log', (m.reframed (f.positioned cursor (.int n :: .printStream :: stack) :: below) log).step
        loader =
      (some (Console.write (call.text n) m.console).1,
        reframed { m with console := (Console.write (call.text n) m.console).2 }
          (f.positioned (cursor + 1) stack :: below) log') := by
  obtain ⟨i, hi, hop⟩ := h
  have hexecute := Instruction.execute_invokeVirtual hop href hcall n stack f.workspace.locals
  simp only [if_neg harity] at hexecute
  exact step_positioned hi hexecute (fun log => ⟨log, rfl⟩) log

end instructions

section calls
variable {f : Frame} {below : List Frame} {ref : MemberRef} {owner : LoadedClass} {method : Method}

/-- A class that is loaded already is only looked up. -/
theorem loaded_reframed (hknown : m.store.find? ref.className = some owner) (loader : Loader)
    (log log' : Log) : { ((m.reframed frames log).loaded loader ref.className).withFrames after with
      log := log' } = m.reframed after log' := by
  have hstore : (m.store.load loader ref.className).store = m.store :=
    congrArg Loading.store (ClassStore.load_known hknown loader)
  change { m.reframed after log' with store := (m.store.load loader ref.className).store } = _
  rw [hstore]
  rfl

variable (hinvokes : f.Invokes ref) (hknown : m.store.find? ref.className = some owner)
  (hfound : owner.findMethod? ref.name ref.descriptor = some method) (hcode : method.body.isSome)
  (hn : method.parameterCount ≤ f.workspace.stack.length)
include hinvokes hknown hfound hcode

theorem atCall_reframed (loader : Loader) (below : List Frame) (log : Log) :
    (m.reframed (f :: below) log).AtCall loader f below ref owner method where
  frames_eq := rfl
  invokes := hinvokes
  load := congrArg Loading.result (ClassStore.load_known hknown loader)
  found := hfound
  hasCode := hcode

include hn

theorem leads_call (hdepth : below.length + 1 < m.calls.maxDepth) :
    Leads loader m 1 (f :: below) (.enter owner method (f.arguments method.parameterCount) ::
      f.advance.withoutArguments method.parameterCount :: below) := by
  apply leads_of_step
  intro log
  have hcall := atCall_reframed hinvokes hknown hfound hcode loader below log
  obtain ⟨log', hstep⟩ := hcall.enters hn hdepth
  rw [loaded_reframed hknown] at hstep
  exact ⟨log', hstep⟩

theorem fails_call (hdepth : m.calls.maxDepth ≤ below.length + 1) :
    Fails loader m 1 (f :: below) (.stackOverflow m.calls.maxDepth) := by
  intro log
  have hcall := atCall_reframed hinvokes hknown hfound hcode loader below log
  obtain ⟨log', hstep⟩ := hcall.overflows hn hdepth
  rw [loaded_reframed hknown] at hstep
  exact ⟨m.reframed _ log', rfl, fun fuel hfuel => run_of_failing_step rfl hstep hfuel⟩

end calls
end Machine
end ClassVM
