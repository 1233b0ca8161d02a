import ClassVM.Proofs.Code.Layout
import ClassVM.Proofs.Machine.Run

namespace ClassVM

/-- Both are answers, and related, or both are errors. -/
inductive ExceptRel {ε α β : Type} (E : ε → ε → Prop) (R : α → β → Prop) :
    Except ε α → Except ε β → Prop where
  | ok {a : α} {b : β} (h : R a b) : ExceptRel E R (.ok a) (.ok b)
  | error {e e' : ε} (h : E e e') : ExceptRel E R (.error e) (.error e')

theorem ExceptRel.cases {ε α β : Type} {E : ε → ε → Prop} {R : α → β → Prop} {p : Except ε α}
    {q : Except ε β} (h : ExceptRel E R p q) :
    (∃ e e', p = .error e ∧ q = .error e' ∧ E e e') ∨ ∃ a b, p = .ok a ∧ q = .ok b ∧ R a b := by
  cases h with
  | error he => exact .inl ⟨_, _, rfl, rfl, he⟩
  | ok hab => exact .inr ⟨_, _, rfl, rfl, hab⟩

/-- The errors are the same, but may name other places in the code. -/
inductive RunError.SameButPlace : RunError → RunError → Prop where
  | same (e : RunError) : SameButPlace e e
  | unsupportedOpcode (opcode opcode' : Opcode) (pc pc' : Nat) :
    SameButPlace (.unsupportedOpcode opcode pc) (.unsupportedOpcode opcode' pc')
  | invalidBranchTarget (offset offset' : Nat) :
    SameButPlace (.invalidBranchTarget offset) (.invalidBranchTarget offset')

/-- The loaders have corresponding classes, and fail alike. -/
def Loader.Corresponds (loader other : Loader) : Prop :=
  ∀ request name, ExceptRel Eq (Option.Rel LoadedClass.Corresponds)
    (loader.find request name).answer (other.find request name).answer

theorem Loader.corresponds_ofClasses {classes others : List (String × LoadedClass)}
    (h : ∀ name, Option.Rel LoadedClass.Corresponds (classes.lookup name) (others.lookup name)) :
    (ofClasses classes).Corresponds (ofClasses others) :=
  fun _ name => .ok (h name)

/-- The stores have loaded corresponding classes under the same names, in the same order. -/
structure ClassStore.Corresponds (store other : ClassStore) : Prop where
  loaded : List.Forall₂ (fun p q => p.1 = q.1 ∧ p.2.Corresponds q.2) store.loaded other.loaded
  requests : store.requests = other.requests

/-- The frames are at the same position of corresponding methods, with the same values. -/
structure Frame.Corresponds (f g : Frame) : Prop where
  owner : f.owner.Corresponds g.owner
  method : f.method.Corresponds g.method
  workspace : f.workspace = g.workspace
  cursor : f.cursor = g.cursor

/-- Only the code of the classes may differ, and the logs. -/
structure Machine.Corresponds (m n : Machine) : Prop where
  mainClass : m.mainClass = n.mainClass
  store : m.store.Corresponds n.store
  maxDepth : m.calls.maxDepth = n.calls.maxDepth
  frames : List.Forall₂ Frame.Corresponds m.calls.frames n.calls.frames
  console : m.console = n.console

/-- The results are the same but for places in the code, and the machines correspond. -/
structure Machine.InStep (p q : Except RunError Unit × Machine) : Prop where
  result : ExceptRel RunError.SameButPlace Eq p.1 q.1
  machine : p.2.Corresponds q.2

/-- So they are at the end of a run, unless both runs still go on. -/
structure Machine.Lockstep (p q : Option (Except RunError Unit) × Machine) : Prop where
  result : Option.Rel (ExceptRel RunError.SameButPlace Eq) p.1 q.1
  machine : p.2.Corresponds q.2

/-- Both methods are to go on at the same position. -/
inductive Control.Corresponds (m n : Method) : Control → Control → Prop where
  | same {control : Control} (h : ∀ target, control ≠ .jump target) : Corresponds m n control control
  | jump {target other : Nat} (h : m.indexOf? target = n.indexOf? other) :
    Corresponds m n (.jump target) (.jump other)

theorem Control.Corresponds.branch {m n : Method} (taken : Bool) {target other : Nat}
    (h : m.indexOf? target = n.indexOf? other) :
    Control.Corresponds m n (if taken then .jump target else .next)
      (if taken then .jump other else .next) := by
  cases taken with
  | true => exact .jump h
  | false => exact .same (by simp)

namespace Instruction
open Exec
variable {m n : Method} {i j : Instruction}

theorem execute_congr (hop : i.op = j.op) (hsupported : i.op ≠ .unsupported) (pool : ConstantPool) :
    i.execute pool = j.execute pool := by
  unfold execute
  rw [← hop]
  cases hi : i.op <;> first | rfl | exact absurd hi hsupported

/-- Instructions that behave alike correspond if they do not jump. -/
theorem corresponds_of_eq {pool : ConstantPool} {w : Workspace}
    (h : i.execute pool w = j.execute pool w) (hop : i.op.target? = none) :
    ExceptRel RunError.SameButPlace (Control.Corresponds m n) (i.execute pool w).1
        (j.execute pool w).1 ∧ (i.execute pool w).2 = (j.execute pool w).2 := by
  rw [← h]
  refine ⟨?_, rfl⟩
  rcases hx : i.execute pool w with ⟨e | control, left⟩
  · exact .error (.same e)
  · refine .ok (.same fun target hjump => ?_)
    rw [hjump] at hx
    rw [target?_of_jump hx] at hop
    cases hop

/-- The places in the code matter only to branches, and to the error for what is not executed. -/
theorem execute_corresponds (h : i.op.Corresponds m n j.op) (pool : ConstantPool) (w : Workspace) :
    ExceptRel RunError.SameButPlace (Control.Corresponds m n) (i.execute pool w).1
        (j.execute pool w).1 ∧ (i.execute pool w).2 = (j.execute pool w).2 := by
  generalize hi : i.op = op at h
  generalize hj : j.op = op' at h
  cases h with
  | same hop =>
    by_cases hsupported : op = .unsupported
    · simp only [execute, hi, hj, hsupported, throw_apply]
      exact ⟨.error (.unsupportedOpcode _ _ _ _), trivial⟩
    · have hsame := execute_congr (hi.trans hj.symm) (hi ▸ hsupported) pool
      exact corresponds_of_eq (congrFun hsame w) (hi ▸ hop)
  | branchIf condition htarget =>
    simp only [execute, hi, hj, bind_apply]
    rcases Workspace.popInt w with ⟨e | value, left⟩
    · exact ⟨.error (.same e), rfl⟩
    · exact ⟨.ok (.branch _ htarget), rfl⟩
  | branchCompare condition htarget =>
    simp only [execute, hi, hj, bind_apply]
    rcases Workspace.popInt w with ⟨e | right, rest⟩
    · exact ⟨.error (.same e), rfl⟩
    · simp only
      rcases Workspace.popInt rest with ⟨e | left, last⟩
      · exact ⟨.error (.same e), rfl⟩
      · exact ⟨.ok (.branch _ htarget), rfl⟩
  | jump htarget =>
    simp only [execute, hi, hj, pure_apply]
    exact ⟨.ok (.jump htarget), trivial⟩

end Instruction

theorem ClassStore.load_corresponds {loader other : Loader} (hloader : loader.Corresponds other)
    {store store' : ClassStore} (h : store.Corresponds store') (name : String) :
    ExceptRel RunError.SameButPlace LoadedClass.Corresponds (store.load loader name).result
        (store'.load other name).result ∧
      (store.load loader name).store.Corresponds (store'.load other name).store := by
  have hlookup := lookup_rel h.loaded (ClassName.internal name)
  have hanswer := hloader store.requests (ClassName.internal name)
  unfold load
  simp only [← h.requests]
  rcases rel_cases hlookup with ⟨hknown, hknown'⟩ | ⟨found, found', hknown, hknown', hclass⟩
  · simp only [hknown, hknown']
    rcases hanswer.cases with ⟨e, e', he, he', rfl⟩ | ⟨found, found', hfound, hfound', hfinds⟩
    · simp only [he, he']
      exact ⟨.error (.same _), h.loaded, rfl⟩
    · simp only [hfound, hfound']
      cases hfinds with
      | none => exact ⟨.error (.same _), h.loaded, rfl⟩
      | some hclass => exact ⟨.ok hclass, List.rel_append h.loaded (.cons ⟨rfl, hclass⟩ .nil), rfl⟩
  · simp only [hknown, hknown']
    exact ⟨.ok hclass, h⟩

namespace Frame.Corresponds
variable {f g : Frame}

theorem next? (h : f.Corresponds g) :
    Option.Rel (fun i j => i.op.Corresponds f.method g.method j.op) f.next? g.next? := by
  rw [Frame.next?, Frame.next?, h.cursor]
  exact h.method.instruction g.cursor

theorem given (h : f.Corresponds g) (v : Value) : (f.given v).Corresponds (g.given v) :=
  ⟨h.owner, h.method, by simp only [Frame.given, h.workspace], h.cursor⟩

theorem withoutArguments (h : f.Corresponds g) (count : Nat) :
    (f.withoutArguments count).Corresponds (g.withoutArguments count) :=
  ⟨h.owner, h.method, by simp only [Frame.withoutArguments, h.workspace], h.cursor⟩

theorem enter {c d : LoadedClass} {m n : Method} (hclass : c.Corresponds d) (h : m.Corresponds n)
    (arguments : List Value) :
    (Frame.enter c m arguments).Corresponds (Frame.enter d n arguments) :=
  ⟨hclass, h, by simp only [Frame.enter, h.maxLocals], rfl⟩

end Frame.Corresponds

namespace Machine
variable {loader other : Loader} {m n : Machine} {f g : Frame} {below below' : List Frame}

theorem Corresponds.withFrames (h : m.Corresponds n) {frames frames' : List Frame}
    (hframes : List.Forall₂ Frame.Corresponds frames frames') :
    (m.withFrames frames).Corresponds (n.withFrames frames') :=
  ⟨h.mainClass, h.store, h.maxDepth, hframes, h.console⟩

theorem Corresponds.logged (h : m.Corresponds n) (e e' : Event) :
    (m.logged e).Corresponds (n.logged e') :=
  ⟨h.mainClass, h.store, h.maxDepth, h.frames, h.console⟩

theorem Corresponds.loaded (hloader : loader.Corresponds other) (h : m.Corresponds n)
    (name : String) : (m.loaded loader name).Corresponds (n.loaded other name) :=
  ⟨h.mainClass, (ClassStore.load_corresponds hloader h.store name).2, h.maxDepth, h.frames,
    h.console⟩

theorem inStep_error (h : m.Corresponds n) (e : RunError) : InStep (.error e, m) (.error e, n) :=
  ⟨.error (.same e), h⟩

theorem resume_corresponds (h : List.Forall₂ Frame.Corresponds below below') (value : Option Value) :
    List.Forall₂ Frame.Corresponds (resume below value) (resume below' value) := by
  cases value with
  | none => exact h
  | some v =>
    cases h with
    | nil => exact .nil
    | cons hfirst hrest => exact .cons (hfirst.given v) hrest

theorem push_inStep (h : m.Corresponds n) {frames frames' : List Frame}
    (hframes : List.Forall₂ Frame.Corresponds frames frames') (hf : f.Corresponds g) :
    InStep (onCalls (CallStack.push f) (m.withFrames frames))
      (onCalls (CallStack.push g) (n.withFrames frames')) := by
  rw [onCalls_push, onCalls_push, ← hframes.length_eq, ← h.maxDepth]
  split
  · exact ⟨.ok rfl, h.withFrames (.cons hf hframes)⟩
  · exact inStep_error (h.withFrames hframes) _

theorem call_inStep (hloader : loader.Corresponds other) (h : m.Corresponds n)
    (hf : f.Corresponds g) (hbelow : List.Forall₂ Frame.Corresponds below below') (ref : MemberRef) :
    InStep (perform loader (.call ref) (m.withFrames (f :: below)))
      (perform other (.call ref) (n.withFrames (g :: below'))) := by
  have hasked := (h.loaded hloader ref.className).withFrames
    (List.Forall₂.cons hf hbelow)
  have hresult := (ClassStore.load_corresponds hloader h.store ref.className).1
  rw [perform_call, perform_call]
  rcases hresult.cases with ⟨e, e', hm, hn, he⟩ | ⟨owner, owner', hm, hn, hclass⟩
  · simp only [hm, hn]
    exact ⟨.error he, hasked⟩
  simp only [hm, hn]
  rcases rel_cases (hclass.findMethod? ref.name ref.descriptor) with
    ⟨hm, hn⟩ | ⟨method, method', hm, hn, hmethod⟩
  · simp only [hm, hn]
    exact inStep_error hasked _
  simp only [hm, hn]
  rcases hmethod.bodies with ⟨hm, hn⟩ | ⟨body, body', hm, hn⟩
  · simp only [hm, hn]
    exact inStep_error hasked _
  have harguments : g.arguments = f.arguments := by
    funext k
    simp only [Frame.arguments, hf.workspace]
  simp only [hm, hn, ← hmethod.parameterCount, ← hf.workspace, harguments]
  split
  · have hinvoked := (h.loaded hloader ref.className).logged
      (.invoking ref (f.arguments method.parameterCount))
      (.invoking ref (f.arguments method.parameterCount))
    have hpush := push_inStep hinvoked (.cons (hf.withoutArguments method.parameterCount) hbelow)
      (.enter hclass hmethod (f.arguments method.parameterCount))
    rw [onCalls_push, onCalls_push] at hpush
    exact hpush
  · exact inStep_error hasked _

theorem perform_inStep (hloader : loader.Corresponds other) (h : m.Corresponds n)
    (hf : f.Corresponds g) (hbelow : List.Forall₂ Frame.Corresponds below below')
    {control control' : Control} (hcontrol : control.Corresponds f.method g.method control') :
    InStep (perform loader control (m.withFrames (f :: below)))
      (perform other control' (n.withFrames (g :: below'))) := by
  have hframes : List.Forall₂ Frame.Corresponds (f :: below) (g :: below') := .cons hf hbelow
  cases hcontrol with
  | @jump target target' hposition =>
    rw [perform_jump, perform_jump, ← hposition]
    cases f.method.indexOf? target with
    | none => exact ⟨.error (.invalidBranchTarget _ _), h.withFrames hframes⟩
    | some position =>
      exact ⟨.ok rfl, h.withFrames (.cons ⟨hf.owner, hf.method, hf.workspace, rfl⟩ hbelow)⟩
  | same hjump =>
    cases control with
    | next => exact ⟨.ok rfl, h.withFrames hframes⟩
    | jump target => exact absurd rfl (hjump target)
    | print text =>
      have hwithout := h.withFrames hframes
      rw [perform_print, perform_print, withFrames_console, withFrames_console, ← h.console]
      refine ⟨?_, hwithout.mainClass, hwithout.store, hwithout.maxDepth, hwithout.frames, rfl⟩
      rcases (Console.write text m.console).1 with e | _
      · exact .error (.same e)
      · exact .ok rfl
    | leave value =>
      rw [perform_leave, perform_leave]
      exact ⟨.ok rfl, (h.logged _ _).withFrames (resume_corresponds hbelow value)⟩
    | call ref => exact call_inStep hloader h hf hbelow ref

theorem InStep.toLockstep {p q : Except RunError Unit × Machine} (h : InStep p q) :
    Lockstep (some p.1, p.2) (some q.1, q.2) :=
  ⟨.some h.result, h.machine⟩

theorem step_lockstep (hloader : loader.Corresponds other) (h : m.Corresponds n) :
    Lockstep (m.step loader) (n.step other) := by
  have hframes := h.frames
  cases hm : m.calls.frames with
  | nil =>
    rw [hm] at hframes
    have hn := List.forall₂_nil_left_iff.mp hframes
    rw [step_halted (by simp [fetch?_eq_none_iff, hm]), step_halted (by simp [fetch?_eq_none_iff, hn])]
    exact ⟨.none, h⟩
  | cons f below =>
    rw [hm] at hframes
    obtain ⟨g, below', hf, hbelow, hn⟩ := List.forall₂_cons_left_iff.mp hframes
    rcases rel_cases hf.next? with ⟨hi, hj⟩ | ⟨i, j, hi, hj, hop⟩
    · rw [step_halted (by simp [fetch?_eq_none_iff, hm, hi]),
        step_halted (by simp [fetch?_eq_none_iff, hn, hj])]
      exact ⟨.none, h⟩
    · rw [step_eq hm hi, step_eq hn hj]
      have hlogged := h.logged (.executing f.owner.name f.method.name i)
        (.executing g.owner.name g.method.name j)
      obtain ⟨hresult, hleft⟩ := Instruction.execute_corresponds hop f.owner.pool f.workspace
      rw [← hf.owner.pool, ← hf.workspace]
      rcases hx : i.execute f.owner.pool f.workspace with ⟨r, w⟩
      rcases hy : j.execute f.owner.pool f.workspace with ⟨r', w'⟩
      rw [hx, hy] at hresult hleft
      obtain rfl : w = w' := hleft
      have hmoved : Frame.Corresponds { f with workspace := w, cursor := f.cursor + 1 }
          { g with workspace := w, cursor := g.cursor + 1 } :=
        ⟨hf.owner, hf.method, rfl, congrArg (· + 1) hf.cursor⟩
      cases hresult with
      | error he => exact ⟨.some (.error he), hlogged.withFrames (.cons hmoved hbelow)⟩
      | ok hcontrol => exact (perform_inStep hloader hlogged hmoved hbelow hcontrol).toLockstep

theorem run_lockstep (hloader : loader.Corresponds other) (fuel : Nat) (h : m.Corresponds n) :
    Lockstep (m.run loader fuel) (n.run other fuel) := by
  induction fuel generalizing m n with
  | zero => exact ⟨.none, h⟩
  | succ fuel ih =>
    have hstep := step_lockstep hloader h
    rw [run, run]
    rcases hm : m.step loader with ⟨r, m'⟩
    rcases hn : n.step other with ⟨r', n'⟩
    rw [hm, hn] at hstep
    obtain ⟨hresult, hmachine⟩ := hstep
    cases hresult with
    | none => exact ⟨.some (.ok rfl), hmachine⟩
    | some hrel =>
      cases hrel with
      | ok h => exact ih hmachine
      | error he => exact ⟨.some (.error he), hmachine⟩

theorem boot_inStep (hloader : loader.Corresponds other)
    (h : (m.withFrames []).Corresponds (n.withFrames [])) :
    InStep (boot loader m) (boot other n) := by
  have hname : m.mainClass = n.mainClass := h.mainClass
  have hloaded := h.loaded hloader m.mainClass
  have hresult := (ClassStore.load_corresponds hloader h.store m.mainClass).1
  simp only [withFrames_store] at hresult
  rw [boot_eq, boot_eq, ← hname]
  rcases hresult.cases with ⟨e, e', hm, hn, he⟩ | ⟨owner, owner', hm, hn, hclass⟩
  · simp only [hm, hn]
    exact ⟨.error he, hloaded⟩
  simp only [hm, hn]
  rcases rel_cases (hclass.method? "main") with ⟨hm, hn⟩ | ⟨method, method', hm, hn, hmain⟩
  · simp only [hm, hn]
    exact ⟨hclass.name ▸ .error (.same _), hloaded⟩
  simp only [hm, hn]
  have hpush := push_inStep (hloaded.logged (.starting owner.name) (.starting owner'.name)) .nil
    (.enter hclass hmain [])
  rw [onCalls_push, onCalls_push] at hpush
  exact hpush

theorem finish_inStep (h : m.Corresponds n) {result result' : Except RunError Unit}
    (hresult : ExceptRel RunError.SameButPlace Eq result result') :
    InStep (finish result m) (finish result' n) := by
  rw [finish_eq, finish_eq, ← h.console]
  refine ⟨?_, h.mainClass, h.store, h.maxDepth, h.frames, rfl⟩
  split
  · exact .error (.same _)
  · exact hresult

theorem start_lockstep (hloader : loader.Corresponds other) (fuel : Nat)
    (h : (m.withFrames []).Corresponds (n.withFrames [])) :
    Lockstep (m.start loader fuel) (n.start other fuel) := by
  have hboot := boot_inStep hloader h
  rw [start, start]
  rcases hm : boot loader m with ⟨r, m'⟩
  rcases hn : boot other n with ⟨r', n'⟩
  rw [hm, hn] at hboot
  obtain ⟨hresult, hmachine⟩ := hboot
  cases hresult with
  | error he => exact ⟨.some (.error he), hmachine⟩
  | ok h =>
    have hrun := run_lockstep hloader fuel hmachine
    simp only
    rcases hm : m'.run loader fuel with ⟨r, m''⟩
    rcases hn : n'.run other fuel with ⟨r', n''⟩
    rw [hm, hn] at hrun
    obtain ⟨hended, hmachine⟩ := hrun
    cases hended with
    | none => exact ⟨.none, hmachine⟩
    | some hrel => exact (finish_inStep hmachine hrel).toLockstep

end Machine
end ClassVM
