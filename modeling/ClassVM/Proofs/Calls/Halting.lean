import ClassVM.Proofs.Code.OffsetTable
import ClassVM.Proofs.Machine.Executed
import ClassVM.Proofs.Machine.Output
import ClassVM.Proofs.Machine.Parts
import ClassVM.Proofs.Machine.Reachable
import ClassVM.Proofs.Programs.FactorialTyping

namespace ClassVM

/-- The instruction after this one does not follow it in a run, unless it is jumped to. -/
def Op.Closes : Op → Prop
  | .jump _ | .returnValue | .returnVoid | .unsupported => True
  | _ => False

/-- The method has code, and its last instruction is a jump or a return, or one that is not executed. -/
def Method.Closed (m : Method) : Prop := ∃ i, m.instructions.back? = some i ∧ i.op.Closes

/-- In a program with this main class, the main method and all methods that can be called are closed. -/
structure Loader.Closed (loader : Loader) (mainClass : String) : Prop where
  main : ∀ request owner method,
    (loader.find request (ClassName.internal mainClass)).answer = .ok (some owner) →
    owner.method? "main" = some method → method.Closed
  invocable : ∀ owner method, Invocable loader mainClass owner method → method.Closed

namespace Method.Closed
variable {m : Method}

theorem pos (h : m.Closed) : 0 < m.instructions.size := by
  obtain ⟨i, hback, -⟩ := h
  rw [Array.back?_eq_getElem?] at hback
  have hlt := (Array.getElem?_eq_some_iff.mp hback).1
  omega

theorem body_isSome (h : m.Closed) : m.body.isSome := by
  have hpos := h.pos
  cases hbody : m.body with
  | some body => rfl
  | none => simp [Method.instructions, hbody] at hpos

/-- Behind an instruction that does not close the method there is another one. -/
theorem succ_lt (h : m.Closed) {position : Nat} {i : Instruction}
    (hi : m.instructions[position]? = some i) (hop : ¬ i.op.Closes) :
    position + 1 < m.instructions.size := by
  obtain ⟨last, hback, hcloses⟩ := h
  rw [Array.back?_eq_getElem?] at hback
  have hlt := (Array.getElem?_eq_some_iff.mp hi).1
  rcases Nat.lt_or_ge (position + 1) m.instructions.size with hnext | hend
  · exact hnext
  · have hposition : m.instructions.size - 1 = position := by omega
    rw [hposition, hi] at hback
    cases hback
    exact absurd hcloses hop

end Method.Closed

namespace Instruction
open Exec Workspace

theorem execute_notFrameless (pool : ConstantPool) (i : Instruction) (w : Workspace) :
    NotFrameless (i.execute pool w).1 :=
  (i.execute_offStack pool w).frameless

/-- What neither jumps nor returns does not close a method. -/
theorem not_closes {pool : ConstantPool} {i : Instruction} {w w' : Workspace} {control : Control}
    (h : i.execute pool w = (.ok control, w')) (hjump : ∀ target, control ≠ .jump target)
    (hleave : ∀ value, control ≠ .leave value) : ¬ i.op.Closes := by
  have hc := control_of_execute h
  intro hcloses
  cases hop : i.op <;> rw [hop] at hc hcloses
  case jump => exact hjump _ hc
  case returnValue =>
    obtain ⟨v, hvalue, -⟩ := hc
    exact hleave _ hvalue
  case returnVoid => exact hleave _ hc.1
  case unsupported => exact hc
  all_goals exact hcloses

end Instruction

theorem ClassStore.load_notFrameless (loader : Loader) (name : String) (store : ClassStore) :
    NotFrameless (store.load loader name).result := by
  have hload := store.load_loads loader name
  generalize store.load loader name = loading at hload
  cases hload <;> simp [NotFrameless]

namespace Machine
variable {loader : Loader} {m : Machine}

theorem perform_notFrameless (loader : Loader) (m : Machine) (f : Frame) (below : List Frame)
    (control : Control) :
    NotFrameless (perform loader control (m.withFrames (f :: below))).1 := by
  cases control with
  | next => simp [NotFrameless, perform, Exec.pure_apply]
  | print text =>
    intro hframeless
    obtain ⟨fault, hfault⟩ := output_of_write hframeless
    cases hfault
  | jump target =>
    rw [perform_jump]
    cases f.method.indexOf? target <;> simp [NotFrameless]
  | leave value =>
    rw [perform_leave]
    simp [NotFrameless]
  | call ref =>
    have hload := m.store.load_notFrameless loader ref.className
    rw [perform_call]
    simp only
    cases hresult : (m.store.load loader ref.className).result with
    | error e =>
      rw [hresult] at hload
      simpa [NotFrameless] using hload
    | ok owner =>
      simp only
      -- All that is left are errors of other kinds.
      repeat' split
      all_goals simp [NotFrameless]

theorem step_notFrameless (loader : Loader) (m : Machine) :
    (m.step loader).1 ≠ some (.error .emptyCallStack) := by
  rcases halted_or_next loader m with hnone | ⟨f, below, i, hf, hi⟩
  · rw [hnone]
    simp
  · have hexecute := i.execute_notFrameless f.owner.pool f.workspace
    rw [step_eq hf hi]
    rcases hx : i.execute f.owner.pool f.workspace with ⟨e | control, w⟩
    · rw [hx] at hexecute
      simpa [NotFrameless] using hexecute
    · intro hframeless
      exact perform_notFrameless loader _ _ below control (Option.some.inj hframeless)

/-- The frame runs a method that can be called, and has not come to its end. -/
def Inside (loader : Loader) (mainClass : String) (f : Frame) : Prop :=
  Invocable loader mainClass f.owner f.method ∧ f.cursor < f.method.instructions.size

/-- In a closed program no step takes a frame past its last instruction, be it the frame that goes on or
one that waits for a call. -/
theorem inside_of_step {mainClass : String} {m' : Machine} (hprogram : loader.Closed mainClass)
    (hstore : m.store.From loader) (hinside : ∀ f ∈ m.calls.frames, Inside loader mainClass f)
    (h : m.step loader = (some (.ok ()), m')) :
    ∀ f ∈ m'.calls.frames, Inside loader mainClass f := by
  rcases halted_or_next loader m with hnone | ⟨f, below, i, hf, hi⟩
  · rw [hnone] at h
    cases h
  rw [hf] at hinside
  obtain ⟨⟨hinvocable, hlt⟩, hbelow⟩ := List.forall_mem_cons.mp hinside
  rw [step_eq hf hi] at h
  rcases hx : i.execute f.owner.pool f.workspace with ⟨e | control, w⟩
  · simp [hx] at h
  simp only [hx, Prod.mk.injEq, Option.some.injEq] at h
  obtain ⟨hok, rfl⟩ := h
  have hnext : (∀ target, control ≠ .jump target) → (∀ value, control ≠ .leave value) →
      f.cursor + 1 < f.method.instructions.size := fun hjump hleave =>
    (hprogram.invocable _ _ hinvocable).succ_lt hi (Instruction.not_closes hx hjump hleave)
  cases control with
  | next =>
    exact List.forall_mem_cons.mpr ⟨⟨hinvocable, hnext (by simp) (by simp)⟩, hbelow⟩
  | print text =>
    exact List.forall_mem_cons.mpr ⟨⟨hinvocable, hnext (by simp) (by simp)⟩, hbelow⟩
  | jump target =>
    rw [perform_jump] at hok ⊢
    cases hp : f.method.indexOf? target with
    | none => simp [hp] at hok
    | some position =>
      obtain ⟨j, hj, -⟩ := (f.method.indexOf?_eq_some_iff target position).mp hp
      exact List.forall_mem_cons.mpr
        ⟨⟨hinvocable, (Array.getElem?_eq_some_iff.mp hj).1⟩, hbelow⟩
  | leave value =>
    rw [perform_leave]
    exact forall_resume (fun _ _ hinside => hinside) hbelow value
  | call ref =>
    have hwaits := hnext (by simp) (by simp)
    obtain ⟨index, hop, href, rfl⟩ := Instruction.op_of_call hx
    generalize hcall : perform loader (.call ref) _ = out at hok ⊢
    rcases perform_call_cases loader (m.logged _) f.advance below ref with
      ⟨owner, method, log, hload, hmethod, hbody, -, -, hcalled⟩ | ⟨e, n, log, -, hfailed⟩
    · obtain rfl := hcalled.symm.trans hcall
      obtain ⟨request, hanswer⟩ := hstore.answer_of_load hload
      have hcallee := Invocable.call hinvocable (Array.mem_of_getElem? hi) hop href hanswer hmethod
        hbody
      exact List.forall_mem_cons.mpr ⟨⟨hcallee, (hprogram.invocable _ _ hcallee).pos⟩,
        List.forall_mem_cons.mpr ⟨⟨hinvocable, hwaits⟩, hbelow⟩⟩
    · obtain rfl := hfailed.symm.trans hcall
      cases hok

theorem inside_of_boot {booted : Machine} (hprogram : loader.Closed m.mainClass)
    (hstore : m.store.From loader) (hboot : boot loader m = (.ok (), booted)) :
    ∀ f ∈ booted.calls.frames, Inside loader m.mainClass f := by
  obtain ⟨owner, method, hload, hmain, -, rfl⟩ := of_boot_ok hboot
  obtain ⟨request, hanswer⟩ := hstore.answer_of_load hload
  have hclosed := hprogram.main request owner method hanswer hmain
  intro f hf
  cases List.mem_singleton.mp hf
  exact ⟨.main hanswer hmain hclosed.body_isSome, hclosed.pos⟩

theorem frames_of_runs {mainClass : String} {done : List Executed}
    {result : Option (Except RunError Unit)} {ended : Machine} (hprogram : loader.Closed mainClass)
    (hruns : Runs loader m done result ended) (hserved : m.ServedBy loader)
    (hinside : ∀ f ∈ m.calls.frames, Inside loader mainClass f) (hok : result = some (.ok ())) :
    ended.calls.frames = [] := by
  induction hruns with
  | going => cases hok
  | failed => cases hok
  | @halted m hm =>
    rw [fetch?_eq_none_iff] at hm
    cases hf : m.calls.frames with
    | nil => rfl
    | cons f below =>
      have hnone := hm f (by simp [hf])
      have hlt := (hinside f (by simp [hf])).2
      rw [Frame.next?, Array.getElem?_eq_getElem hlt] at hnone
      cases hnone
  | step hf hi hstep hrest ih =>
    exact ih (hserved.step hstep) (inside_of_step hprogram hserved.store hinside hstep) hok

theorem halted_of_run {fuel : Nat} {ended : Machine}
    (h : m.run loader fuel = (some (.ok ()), ended)) : ended.fetch? = none := by
  have hends := @run_induction loader (fun _ => True)
    (fun out => out.1 = some (.ok ()) → out.2.fetch? = none) (by simp) (fun _ _ hm _ => hm)
    (by simp) (fun _ _ _ _ => trivial) fuel m trivial
  rw [h] at hends
  exact hends rfl

theorem run_notFrameless (loader : Loader) (fuel : Nat) (m : Machine) :
    (m.run loader fuel).1 ≠ some (.error .emptyCallStack) := by
  intro h
  have hrun : m.run loader fuel = (some (.error .emptyCallStack), (m.run loader fuel).2) :=
    Prod.ext h rfl
  obtain ⟨steps, failing, -, -, hfails⟩ := run_error hrun
  exact step_notFrameless loader failing (congrArg Prod.fst hfails)

theorem frames_of_start {fuel : Nat} {ended : Machine} (hprogram : loader.Closed m.mainClass)
    (hstore : m.store.From loader) (h : m.start loader fuel = (some (.ok ()), ended)) :
    ended.calls.frames = [] := by
  have hstarts := start_starts loader fuel m
  rw [h] at hstarts
  generalize hout : (some (Except.ok ()), ended) = out at hstarts
  generalize m.executedByStart loader fuel = done at hstarts
  cases hstarts with
  | unbooted | going => cases hout
  | @ended booted last _ result hboot hruns =>
    rw [finish_eq] at hout
    obtain ⟨hresult, rfl⟩ := Prod.mk.inj hout
    have hok : result = .ok () := by
      split at hresult
      · cases hresult
      · exact (Option.some.inj hresult).symm
    have hframes := frames_of_runs hprogram hruns (servedBy_of_boot hstore hboot)
      (inside_of_boot hprogram hstore hboot) (congrArg some hok)
    exact hframes

/-- A run that succeeds has come to where there is no next instruction and stays there; when a start of a
program with closed methods succeeds, all calls have returned. -/
theorem halts_as_specified (loader : Loader) (m : Machine) (fuel : Nat) :
    (∀ ended, m.run loader fuel = (some (.ok ()), ended) →
      (ended.calls.frames = [] ∨ ∃ f below, ended.calls.frames = f :: below ∧
        f.method.instructions.size ≤ f.cursor) ∧
      ∀ later, ended.run loader (later + 1) = (some (.ok ()), ended)) ∧
    (m.run loader fuel).1 ≠ some (.error .emptyCallStack) ∧
    ∀ ended, Reachable loader m → loader.Closed m.mainClass →
      m.start loader fuel = (some (.ok ()), ended) → ended.calls.frames = [] := by
  refine ⟨?_, run_notFrameless loader fuel m, ?_⟩
  · intro ended h
    have hhalted := halted_of_run h
    refine ⟨?_, fun later => ?_⟩
    · rw [fetch?_eq_none_iff] at hhalted
      cases hf : ended.calls.frames with
      | nil => exact .inl rfl
      | cons f below =>
        have hnone : f.next? = none := hhalted f (by simp [hf])
        exact .inr ⟨f, below, rfl, Array.getElem?_eq_none_iff.mp hnone⟩
    · exact run_halted hhalted later
  · intro ended hreachable hprogram h
    exact frames_of_start hprogram hreachable.store_from h

/-- Both methods of the factorial program are closed, and its start succeeds. -/
theorem halts_as_specified_factorial :
    let m := Machine.new "Factorial" defaultDepth .unlimited (.empty .quiet)
    (Factorial.loader 2).Closed m.mainClass ∧
    (m.start (Factorial.loader 2) 60).1 = some (.ok ()) ∧
    (m.start (Factorial.loader 2) 60).2.calls.frames = [] := by
  intro m
  have hmethods : ∀ method, method = Factorial.main ∨ method = Factorial.factorial →
      method.Closed := by
    rintro method (rfl | rfl)
    · exact ⟨⟨11, .ofByte 0xb1, .returnVoid⟩, rfl, trivial⟩
    · exact ⟨⟨16, .ofByte 0xac, .returnValue⟩, rfl, trivial⟩
  have hclosed : (Factorial.loader 2).Closed m.mainClass := by
    constructor
    · intro request owner method found named
      obtain rfl := Factorial.program_of_find found
      cases named
      exact hmethods _ (.inl rfl)
    · intro owner method hinvocable
      exact hmethods method (Factorial.of_invocable hinvocable).2
  have hresult : (m.start (Factorial.loader 2) 60).1 = some (.ok ()) := by decide +kernel
  have hhalts := halts_as_specified (Factorial.loader 2) m 60
  exact ⟨hclosed, hresult, hhalts.2.2 _ (.new _ _ _ _) hclosed (Prod.ext hresult rfl)⟩

end Machine
end ClassVM
