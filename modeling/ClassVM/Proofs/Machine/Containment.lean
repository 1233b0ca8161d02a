import ClassVM.Proofs.Loading.Store
import ClassVM.Proofs.Machine.Output
import ClassVM.Proofs.Machine.Parts
import ClassVM.Proofs.Programs.Factorial
import ClassVM.Proofs.Programs.Native

namespace ClassVM

namespace Workspace
open Exec

/-- What is left of a workspace when some values have been taken off its stack. -/
def Popped (w left : Workspace) : Prop :=
  ∃ n ≤ w.stack.length, left = ⟨w.stack.drop n, w.locals⟩

theorem Popped.refl (w : Workspace) : w.Popped w := ⟨0, Nat.zero_le _, rfl⟩

theorem Popped.trans {w left rest : Workspace} (hleft : w.Popped left) (hrest : left.Popped rest) :
    w.Popped rest := by
  obtain ⟨n, hn, rfl⟩ := hleft
  obtain ⟨k, hk, rfl⟩ := hrest
  have hlength : (w.stack.drop n).length = w.stack.length - n := List.length_drop
  have hboth : (w.stack.drop n).drop k = w.stack.drop (n + k) := List.drop_drop
  refine ⟨n + k, ?_, ?_⟩
  · simp only [hlength] at hk
    omega
  · simp only [hboth]

/-- The effect does nothing but take values off the stack, also when it fails. -/
def OnlyPops {α : Type} (x : Exec Workspace α) : Prop := Relates Popped x

/-- The effect does so unless it succeeds and the run is to go on with the next instruction. -/
def PopsOrGoesOn (x : Exec Workspace Control) : Prop :=
  ∀ w, (x w).1 = .ok .next ∨ w.Popped (x w).2

section
variable {α β : Type}

theorem onlyPops_pure (a : α) : OnlyPops (pure a) := fun w => .refl w

theorem onlyPops_throw (e : RunError) : OnlyPops (throw e : Exec Workspace α) := fun w => .refl w

theorem onlyPops_ofExcept (r : Except RunError α) : OnlyPops (Exec.ofExcept r) := fun w => .refl w

theorem onlyPops_get : OnlyPops get := fun w => .refl w

theorem OnlyPops.bind {x : Exec Workspace α} {f : α → Exec Workspace β} (hx : OnlyPops x)
    (hf : ∀ a, OnlyPops (f a)) : OnlyPops (x >>= f) :=
  Relates.bind hx (fun _ _ _ => Popped.trans) hf

theorem onlyPops_pop : OnlyPops pop := by
  rintro ⟨_ | ⟨v, stack⟩, locals⟩
  · exact .refl _
  · exact ⟨1, by simp, rfl⟩

theorem onlyPops_popInt : OnlyPops popInt :=
  onlyPops_pop.bind fun _ => onlyPops_ofExcept _

theorem onlyPops_printed (ref : MemberRef) : OnlyPops (printed ref) :=
  have htaking : HoldsOfTaking @OnlyPops :=
    ⟨onlyPops_pure, fun _ => onlyPops_ofExcept _, onlyPops_get, onlyPops_pop, .bind⟩
  htaking.printed ref

theorem OnlyPops.popsOrGoesOn {x : Exec Workspace Control} (hx : OnlyPops x) : PopsOrGoesOn x :=
  fun w => .inr (hx w)

theorem OnlyPops.bind_popsOrGoesOn {x : Exec Workspace α} {f : α → Exec Workspace Control}
    (hx : OnlyPops x) (hf : ∀ a, PopsOrGoesOn (f a)) : PopsOrGoesOn (x >>= f) := by
  intro w
  have hpopped := hx w
  rw [bind_apply]
  rcases hw : x w with ⟨e | a, left⟩
  · rw [hw] at hpopped
    exact .inr hpopped
  · rw [hw] at hpopped
    rcases hf a left with hnext | hrest
    · exact .inl hnext
    · exact .inr (hpopped.trans hrest)

theorem popsOrGoesOn_push (v : Value) :
    PopsOrGoesOn (do
      push v
      return .next) := fun _ => .inl rfl

/-- Storing fails only where there is no such variable, and then nothing is stored. -/
theorem popsOrGoesOn_store (index : Nat) (v : Value) :
    PopsOrGoesOn (do
      store index v
      return .next) := by
  rintro ⟨stack, locals⟩
  by_cases h : index < locals.size
  · left
    simp only [bind_apply, store, h, dite_true, pure_apply]
  · right
    simp only [bind_apply, store, h, dite_false]
    exact .refl _

end
end Workspace

open Workspace in
/-- An instruction that fails, or that asks for more than the next instruction, has so far only taken
values off the stack. -/
theorem Instruction.execute_popsOrGoesOn (pool : ConstantPool) (i : Instruction) :
    PopsOrGoesOn (i.execute pool) := by
  unfold Instruction.execute
  cases i.op with
  | nop | jump | returnVoid => exact (onlyPops_pure _).popsOrGoesOn
  | unsupported => exact (onlyPops_throw _).popsOrGoesOn
  | push value => exact popsOrGoesOn_push _
  | loadConstant index =>
    exact (onlyPops_ofExcept _).bind_popsOrGoesOn fun _ => popsOrGoesOn_push _
  | load slot =>
    exact onlyPops_get.bind_popsOrGoesOn fun _ =>
      (onlyPops_ofExcept _).bind_popsOrGoesOn fun _ => popsOrGoesOn_push _
  | store slot => exact onlyPops_popInt.bind_popsOrGoesOn fun _ => popsOrGoesOn_store _ _
  | increment slot delta =>
    exact onlyPops_get.bind_popsOrGoesOn fun _ =>
      (onlyPops_ofExcept _).bind_popsOrGoesOn fun _ => popsOrGoesOn_store _ _
  | arithmetic operator =>
    exact onlyPops_popInt.bind_popsOrGoesOn fun _ => onlyPops_popInt.bind_popsOrGoesOn fun _ =>
      (onlyPops_ofExcept _).bind_popsOrGoesOn fun _ => popsOrGoesOn_push _
  | negate => exact onlyPops_popInt.bind_popsOrGoesOn fun _ => popsOrGoesOn_push _
  | pop => exact (onlyPops_pop.bind fun _ => onlyPops_pure _).popsOrGoesOn
  | duplicate =>
    exact onlyPops_get.bind_popsOrGoesOn fun _ =>
      (onlyPops_ofExcept _).bind_popsOrGoesOn fun _ => popsOrGoesOn_push _
  | branchIf condition target =>
    exact (onlyPops_popInt.bind fun _ => onlyPops_pure _).popsOrGoesOn
  | branchCompare condition target =>
    exact (onlyPops_popInt.bind fun _ => onlyPops_popInt.bind fun _ =>
      onlyPops_pure _).popsOrGoesOn
  | getStatic index =>
    apply (onlyPops_ofExcept _).bind_popsOrGoesOn
    intro ref
    cases Library.staticField? ref with
    | some v => exact popsOrGoesOn_push v
    | none => exact (onlyPops_throw _).popsOrGoesOn
  | invokeVirtual index =>
    exact ((onlyPops_ofExcept _).bind fun ref => (onlyPops_printed ref).bind fun _ =>
      onlyPops_pure _).popsOrGoesOn
  | invokeStatic index => exact ((onlyPops_ofExcept _).bind fun _ => onlyPops_pure _).popsOrGoesOn
  | returnValue => exact (onlyPops_pop.bind fun _ => onlyPops_pure _).popsOrGoesOn

namespace Machine
open Instruction

/-- Machine `after` is what is left of machine `m` when instruction `i` of its innermost frame `f` has
failed with error `e`. -/
structure Contained (m : Machine) (f : Frame) (below : List Frame) (i : Instruction) (e : RunError)
    (after : Machine) : Prop where
  mainClass : after.mainClass = m.mainClass
  maxDepth : after.calls.maxDepth = m.calls.maxDepth
  depth : after.calls.depth = m.calls.depth
  /-- The frame is behind the instruction, with some values less perhaps; it and those below it are
  the same otherwise. -/
  frames : ∃ n ≤ f.workspace.stack.length, after.calls.frames =
    { f with
      workspace := ⟨f.workspace.stack.drop n, f.workspace.locals⟩
      cursor := f.cursor + 1 } :: below
  /-- No class has been loaded, or the owner of the method that was to be called. -/
  store : after.store.loaded = m.store.loaded ∨
    ∃ index ref c, i.op = .invokeStatic index ∧ f.owner.pool.methodRef index = .ok ref ∧
      m.store.find? ref.className = none ∧
      after.store.loaded = m.store.loaded ++ [(ClassName.internal ref.className, c)]
  /-- Nothing has been printed, or the beginning of the text that was to be printed. -/
  console : after.console = m.console ∨ e.category = .output ∧
    ∃ text k, (i.execute f.owner.pool f.workspace).1 = .ok (.print text) ∧
      after.console =
        { m.console with written := m.console.written ++ text.toUTF8.data.take k }

variable {loader : Loader} {m : Machine} {f : Frame} {below : List Frame} {i : Instruction}
variable {e : RunError}

/-- What stayed among the frames is contained if it has only taken values off the stack. -/
theorem Contained.of_popped {w : Workspace} (hf : m.calls.frames = f :: below)
    (hw : f.workspace.Popped w) (log : Log) :
    Contained m f below i e { m.withFrames ({ f with workspace := w, cursor := f.cursor + 1 } :: below)
      with log := log } := by
  obtain ⟨n, hn, rfl⟩ := hw
  have hdepth : m.calls.depth = (f :: below).length := hf ▸ m.calls.depth_eq
  exact ⟨rfl, rfl, hdepth.symm, ⟨n, hn, rfl⟩, .inl rfl, .inl rfl⟩

theorem contained_of_step {after : Machine} (hf : m.calls.frames = f :: below)
    (hi : f.next? = some i) (h : m.step loader = (some (.error e), after)) :
    Contained m f below i e after := by
  have hpops := execute_popsOrGoesOn f.owner.pool i f.workspace
  have hdepth : (f :: below).length = m.calls.depth := hf ▸ m.calls.depth_eq.symm
  rw [step_eq hf hi] at h
  rcases hx : i.execute f.owner.pool f.workspace with ⟨cause | control, w⟩
  · simp only [hx, Prod.mk.injEq, Option.some.injEq, Except.error.injEq] at h
    obtain ⟨rfl, rfl⟩ := h
    rw [hx] at hpops
    rcases hpops with hnext | hpopped
    · cases hnext
    · exact .of_popped hf hpopped _
  simp only [hx] at h
  rw [hx] at hpops
  obtain ⟨herror, hafter⟩ := Prod.mk.inj h
  have hperform : perform loader control _ = (.error e, after) :=
    Prod.ext (Option.some.inj herror) hafter
  cases control with
  | next => cases hperform
  | leave value =>
    rw [perform_leave] at hperform
    cases hperform
  | jump target =>
    have hpopped : f.workspace.Popped w := hpops.resolve_left (by simp)
    rw [perform_jump] at hperform
    cases hp : f.method.indexOf? target with
    | none =>
      simp only [hp] at hperform
      cases hperform
      exact .of_popped hf hpopped _
    | some position =>
      simp only [hp] at hperform
      cases hperform
  | print text =>
    obtain ⟨n, hn, rfl⟩ : f.workspace.Popped w := hpops.resolve_left (by simp)
    obtain ⟨herror, rfl⟩ := Prod.mk.inj hperform
    have hwrite : Console.write text m.console = (.error e, (Console.write text m.console).2) :=
      Prod.ext herror rfl
    obtain ⟨rfl, k, hcut⟩ := cut_of_write hwrite
    exact ⟨rfl, rfl, hdepth, ⟨n, hn, rfl⟩, .inl rfl, .inr ⟨rfl, text, k, by rw [hx], hcut⟩⟩
  | call ref =>
    obtain ⟨index, hop, href, rfl⟩ := op_of_call hx
    rcases perform_call_cases loader (m.logged _) f.advance below ref with
      ⟨owner, method, log, -, -, -, -, -, hcalled⟩ | ⟨cause, n, log, hn, hfailed⟩
    · cases hcalled.symm.trans hperform
    cases hfailed.symm.trans hperform
    refine ⟨rfl, rfl, hdepth, ⟨n, hn, rfl⟩, ?_, .inl rfl⟩
    rcases m.store.loaded_of_load loader ref.className with hsame | ⟨c, -, hnew, hadded⟩
    · exact .inl hsame
    · exact .inr ⟨index, ref, c, hop, href, hnew, hadded⟩

theorem exists_contained {after : Machine} (h : m.step loader = (some (.error e), after)) :
    ∃ f below i, m.calls.frames = f :: below ∧ f.next? = some i ∧ Contained m f below i e after := by
  rcases halted_or_next loader m with hnone | ⟨f, below, i, hf, hi⟩
  · rw [hnone] at h
    cases h
  · exact ⟨f, below, i, hf, hi, contained_of_step hf hi h⟩

/-- A step that fails changes nothing but the stack and the cursor of the innermost frame, one loaded
class, and the part of a text that has been printed. -/
theorem errors_contained (loader : Loader) (m : Machine) :
    (∀ e after, m.step loader = (some (.error e), after) →
      ∃ f below i, m.calls.frames = f :: below ∧ f.next? = some i ∧
        Contained m f below i e after) ∧
    ∀ fuel e after, m.run loader fuel = (some (.error e), after) →
      ∃ steps failing, steps < fuel ∧ m.run loader steps = (none, failing) ∧
        ∃ f below i, failing.calls.frames = f :: below ∧ f.next? = some i ∧
          Contained failing f below i e after := by
  refine ⟨fun e after => exists_contained, ?_⟩
  intro fuel e after h
  obtain ⟨steps, failing, hlt, hrun, hfails⟩ := run_error h
  exact ⟨steps, failing, hlt, hrun, exists_contained hfails⟩

/-- The main method of `Factorial`, about to make its call. The console has room for two of three
digits. -/
def cramped : Machine := { Factorial.calling 5 with console := ⟨#[], some 2, false, 0⟩ }

/-- The same method with no room for the frame of the call, and no class loaded. -/
def limited : Machine :=
  (Machine.new "Factorial" 1 .unlimited (.empty .quiet)).withFrames [Factorial.caller 5]

/-- A method about to call one without code, before any class has been loaded. -/
def unloaded : Machine :=
  (Native.machine "Caller").withFrames [.enter Native.caller Native.calling []]

/-- Two digits have been printed, an argument has been taken, and classes have been loaded. -/
theorem errors_contained_halfway :
    let cut := cramped.run (Factorial.loader 5) 60
    let deep := limited.step (Factorial.loader 5)
    let refused := unloaded.step Native.loader
    cut.1 = some (.error (.output .full)) ∧ cut.2.console.written = #[0x31, 0x32] ∧
    deep.1 = some (.error (.stackOverflow 1)) ∧
    deep.2.calls.frames.map (·.workspace.stack) = [[.printStream]] ∧
    deep.2.store.loaded.map Prod.fst = ["Factorial"] ∧
    refused.1 = some (.error (.unsupportedMethod Native.ref)) ∧
    refused.2.store.loaded.map Prod.fst = ["Caller"] ∧
    (∃ steps failing, cramped.run (Factorial.loader 5) steps = (none, failing) ∧
      ∃ f below i, Contained failing f below i (.output .full) cut.2) ∧
    (∃ f below i, Contained limited f below i (.stackOverflow 1) deep.2) ∧
    ∃ f below i, Contained unloaded f below i (.unsupportedMethod Native.ref) refused.2 := by
  intro cut deep refused
  have hcut : cut.1 = some (.error (.output .full)) := by decide +kernel
  have hdeep : deep.1 = some (.error (.stackOverflow 1)) := by decide +kernel
  have hrefused : refused.1 = some (.error (.unsupportedMethod Native.ref)) := by decide +kernel
  obtain ⟨steps, failing, -, hrun, f, below, i, -, -, hfailing⟩ :=
    (errors_contained (Factorial.loader 5) cramped).2 60 _ cut.2 (Prod.ext hcut rfl)
  obtain ⟨g, rest, j, -, -, hlimited⟩ :=
    (errors_contained (Factorial.loader 5) limited).1 _ deep.2 (Prod.ext hdeep rfl)
  obtain ⟨h, others, k, -, -, hunloaded⟩ :=
    (errors_contained Native.loader unloaded).1 _ refused.2 (Prod.ext hrefused rfl)
  exact ⟨hcut, by decide +kernel, hdeep, by decide +kernel, by decide +kernel, hrefused,
    by decide +kernel, ⟨steps, failing, hrun, f, below, i, hfailing⟩, ⟨g, rest, j, hlimited⟩,
    ⟨h, others, k, hunloaded⟩⟩

end Machine
end ClassVM
