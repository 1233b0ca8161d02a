import ClassVM.Machine.Run
import ClassVM.Proofs.Machine.Effect

namespace ClassVM

namespace Frame

/-- What a call of a method with `n` parameters takes off the stack, the deepest first. -/
def arguments (f : Frame) (n : Nat) : List Value := (f.workspace.stack.take n).reverse

theorem arguments_length {f : Frame} {n : Nat} (h : n ≤ f.workspace.stack.length) :
    (f.arguments n).length = n := by
  rw [arguments, List.length_reverse, List.length_take_of_le h]

/-- The caller while it waits for such a call. -/
def withoutArguments (f : Frame) (n : Nat) : Frame :=
  { f with workspace := { f.workspace with stack := f.workspace.stack.drop n } }

def given (f : Frame) (v : Value) : Frame :=
  { f with workspace := { f.workspace with stack := v :: f.workspace.stack } }

end Frame

namespace Machine
open Instruction

def withFrames (m : Machine) (frames : List Frame) : Machine :=
  { m with calls := ⟨m.calls.maxDepth, frames, frames.length, rfl⟩ }

def logged (m : Machine) (e : Event) : Machine := { m with log := m.log.record e }

def loaded (m : Machine) (loader : Loader) (name : String) : Machine :=
  { m with
    store := (m.store.load loader name).store
    log := m.log.recordAll (m.store.load loader name).events }

section fields
variable (m : Machine) (frames : List Frame)

@[simp] theorem withFrames_frames : (m.withFrames frames).calls.frames = frames := rfl

@[simp] theorem withFrames_maxDepth : (m.withFrames frames).calls.maxDepth = m.calls.maxDepth := rfl

@[simp] theorem withFrames_depth : (m.withFrames frames).calls.depth = frames.length := rfl

@[simp] theorem withFrames_store : (m.withFrames frames).store = m.store := rfl

@[simp] theorem withFrames_console : (m.withFrames frames).console = m.console := rfl

@[simp] theorem withFrames_log : (m.withFrames frames).log = m.log := rfl

@[simp] theorem withFrames_mainClass : (m.withFrames frames).mainClass = m.mainClass := rfl

@[simp] theorem withFrames_withFrames (others : List Frame) :
    (m.withFrames frames).withFrames others = m.withFrames others := rfl

theorem withFrames_of_eq {m : Machine} {frames : List Frame} (h : m.calls.frames = frames) :
    m.withFrames frames = m := by
  obtain ⟨mainClass, store, ⟨maxDepth, fs, depth, depth_eq⟩, console, log⟩ := m
  simp only at h
  subst h depth_eq
  rfl

end fields

theorem onWorkspace_withFrames {α : Type} (x : Exec Workspace α) (m : Machine) (f : Frame)
    (below : List Frame) :
    onWorkspace x (m.withFrames (f :: below)) =
      ((x f.workspace).1, m.withFrames ({ f with workspace := (x f.workspace).2 } :: below)) := rfl

theorem onCalls_push (g : Frame) (m : Machine) (frames : List Frame) :
    onCalls (CallStack.push g) (m.withFrames frames) =
      if frames.length < m.calls.maxDepth then (.ok (), m.withFrames (g :: frames))
      else (.error (.stackOverflow m.calls.maxDepth), m.withFrames frames) := by
  by_cases hd : frames.length < m.calls.maxDepth <;>
    simp [onCalls, CallStack.push, withFrames, hd]

theorem onConsole_eq {α : Type} (x : Exec Console α) (m : Machine) :
    onConsole x m = ((x m.console).1, { m with console := (x m.console).2 }) := rfl

theorem step_eq {loader : Loader} {m : Machine} {f : Frame} {below : List Frame} {i : Instruction}
    (hf : m.calls.frames = f :: below) (hi : f.next? = some i) :
    m.step loader =
      let out := i.execute f.owner.pool f.workspace
      let after := (m.logged (.executing f.owner.name f.method.name i)).withFrames
        ({ f with workspace := out.2, cursor := f.cursor + 1 } :: below)
      match out.1 with
      | .error e => (some (.error e), after)
      | .ok control =>
        (some (perform loader control after).1, (perform loader control after).2) := by
  rw [← withFrames_of_eq hf]
  have hfetch : (m.withFrames (f :: below)).fetch? =
      some (f.owner.pool, i,
        (m.logged (.executing f.owner.name f.method.name i)).withFrames (f.advance :: below)) := by
    simp [withFrames, fetch?, hi, logged]
  simp only [step, hfetch, Exec.bind_apply, onWorkspace_withFrames]
  have hw : f.advance.workspace = f.workspace := rfl
  rw [hw]
  rcases i.execute f.owner.pool f.workspace with ⟨_ | control, w⟩ <;> rfl

theorem step_halted {loader : Loader} {m : Machine} (h : m.fetch? = none) :
    m.step loader = (none, m) := by
  simp [step, h]

theorem halted_of_step {loader : Loader} {m m' : Machine} (h : m.step loader = (none, m')) :
    m.fetch? = none ∧ m' = m := by
  cases hm : m.fetch? with
  | none =>
    rw [step_halted hm] at h
    cases h
    exact ⟨rfl, rfl⟩
  | some out =>
    simp only [step, hm] at h
    split at h
    cases h

theorem fetch?_eq_none_iff (m : Machine) :
    m.fetch? = none ↔ ∀ f ∈ m.calls.frames.head?, f.next? = none := by
  obtain ⟨mainClass, store, ⟨maxDepth, frames, depth, depth_eq⟩, console, log⟩ := m
  cases frames with
  | nil => simp [fetch?]
  | cons f below => cases h : f.next? <;> simp [fetch?, h]

/-- A step does nothing, or there is an instruction for it. -/
theorem halted_or_next (loader : Loader) (m : Machine) :
    m.step loader = (none, m) ∨
      ∃ f below i, m.calls.frames = f :: below ∧ f.next? = some i := by
  cases hf : m.calls.frames with
  | nil => exact .inl (step_halted (by simp [fetch?_eq_none_iff, hf]))
  | cons f below =>
    cases hi : f.next? with
    | none => exact .inl (step_halted (by simp [fetch?_eq_none_iff, hf, hi]))
    | some i => exact .inr ⟨f, below, i, rfl, hi⟩

section perform
variable (loader : Loader) (m : Machine) (f : Frame) (below : List Frame)

theorem perform_jump (target : Nat) :
    perform loader (.jump target) (m.withFrames (f :: below)) =
      match f.method.indexOf? target with
      | some position => (.ok (), m.withFrames ({ f with cursor := position } :: below))
      | none => (.error (.invalidBranchTarget target), m.withFrames (f :: below)) := by
  cases h : f.method.indexOf? target <;>
    simp [perform, onCalls, CallStack.onTop, withFrames, Frame.seek, h]

theorem perform_print (text : String) :
    perform loader (.print text) m =
      ((Console.write text m.console).1,
        { m with console := (Console.write text m.console).2 }) := rfl

/-- The frames after the innermost one has gone, with the value it leaves for its caller. -/
def resume (frames : List Frame) : Option Value → List Frame
  | none => frames
  | some v => frames.modifyHead (·.given v)

theorem resume_length (frames : List Frame) (value : Option Value) :
    (resume frames value).length = frames.length := by
  cases value <;> simp [resume]

/-- What does not depend on the stack of a frame is kept when the frame gets a value. -/
theorem forall_resume {Holds : Frame → Prop} (hgiven : ∀ f v, Holds f → Holds (f.given v))
    {frames : List Frame} (h : ∀ f ∈ frames, Holds f) (value : Option Value) :
    ∀ f ∈ resume frames value, Holds f := by
  cases value with
  | none => exact h
  | some v =>
    cases frames with
    | nil => exact h
    | cons f below =>
      obtain ⟨hfirst, hbelow⟩ := List.forall_mem_cons.mp h
      exact List.forall_mem_cons.mpr ⟨hgiven f v hfirst, hbelow⟩

theorem perform_leave (value : Option Value) :
    perform loader (.leave value) (m.withFrames (f :: below)) =
      (.ok (), (m.logged (.leaving f.owner.name f.method.name below.length)).withFrames
        (resume below value)) := by
  cases value <;> cases below <;> rfl

theorem perform_call (ref : MemberRef) :
    perform loader (.call ref) (m.withFrames (f :: below)) =
      let asked := m.loaded loader ref.className
      match (m.store.load loader ref.className).result with
      | .error e => (.error e, asked.withFrames (f :: below))
      | .ok owner =>
        match owner.findMethod? ref.name ref.descriptor with
        | none =>
          (.error (.noSuchMethod ref.className ref.name ref.descriptor),
            asked.withFrames (f :: below))
        | some method =>
          match method.body with
          | none => (.error (.unsupportedMethod ref), asked.withFrames (f :: below))
          | some _ =>
            let n := method.parameterCount
            let waiting := f.withoutArguments n :: below
            let invoked := asked.logged (.invoking ref (f.arguments n))
            if n ≤ f.workspace.stack.length then
              if waiting.length < m.calls.maxDepth then
                (.ok (), invoked.withFrames (.enter owner method (f.arguments n) :: waiting))
              else (.error (.stackOverflow m.calls.maxDepth), invoked.withFrames waiting)
            else (.error .stackUnderflow, asked.withFrames (f :: below)) := by
  have hload : loadClass loader ref.className (m.withFrames (f :: below)) =
      ((m.store.load loader ref.className).result,
        (m.loaded loader ref.className).withFrames (f :: below)) := rfl
  simp only [perform, call, Exec.bind_apply, hload]
  cases (m.store.load loader ref.className).result with
  | error e => rfl
  | ok owner =>
    simp only
    cases owner.findMethod? ref.name ref.descriptor with
    | none => rfl
    | some method =>
      simp only
      cases method.body with
      | none => rfl
      | some body =>
        simp only [Exec.bind_apply, onWorkspace_withFrames, Workspace.popArguments]
        let n := method.parameterCount
        let waiting := f.withoutArguments n :: below
        let invoked := (m.loaded loader ref.className).logged (.invoking ref (f.arguments n))
        by_cases hn : method.parameterCount ≤ f.workspace.stack.length
        · rw [if_pos hn, if_pos hn]
          exact onCalls_push _ (invoked.withFrames waiting) waiting
        · rw [if_neg hn, if_neg hn]

/-- What a call comes to. One that succeeds has found a method with a body, its arguments, and room for
its frame. One that fails has asked for the class, and at the limit it has taken the arguments. -/
theorem perform_call_cases (ref : MemberRef) :
    (∃ owner method log, (m.store.load loader ref.className).result = .ok owner ∧
      owner.findMethod? ref.name ref.descriptor = some method ∧ method.body.isSome ∧
      method.parameterCount ≤ f.workspace.stack.length ∧ below.length + 1 < m.calls.maxDepth ∧
      perform loader (.call ref) (m.withFrames (f :: below)) =
        (.ok (), { m.withFrames (.enter owner method (f.arguments method.parameterCount) ::
            f.withoutArguments method.parameterCount :: below) with
          log := log, store := (m.store.load loader ref.className).store })) ∨
    ∃ e n log, n ≤ f.workspace.stack.length ∧
      perform loader (.call ref) (m.withFrames (f :: below)) =
        (.error e, { m.withFrames (f.withoutArguments n :: below) with
          log := log, store := (m.store.load loader ref.className).store }) := by
  rw [perform_call]
  cases hload : (m.store.load loader ref.className).result with
  | error e => exact .inr ⟨e, 0, _, Nat.zero_le _, rfl⟩
  | ok owner =>
    simp only
    cases hmethod : owner.findMethod? ref.name ref.descriptor with
    | none => exact .inr ⟨_, 0, _, Nat.zero_le _, rfl⟩
    | some method =>
      simp only
      cases hbody : method.body with
      | none => exact .inr ⟨_, 0, _, Nat.zero_le _, rfl⟩
      | some body =>
        simp only
        by_cases hn : method.parameterCount ≤ f.workspace.stack.length
        · rw [if_pos hn]
          by_cases hdepth : (f.withoutArguments method.parameterCount :: below).length <
              m.calls.maxDepth
          · rw [if_pos hdepth]
            exact .inl ⟨owner, method, _, rfl, hmethod, by simp [hbody], hn, hdepth, rfl⟩
          · rw [if_neg hdepth]
            exact .inr ⟨_, method.parameterCount, _, hn, rfl⟩
        · rw [if_neg hn]
          exact .inr ⟨_, 0, _, Nat.zero_le _, rfl⟩

end perform

theorem boot_eq (loader : Loader) (m : Machine) :
    boot loader m =
      let asked := (m.loaded loader m.mainClass).withFrames []
      match (m.store.load loader m.mainClass).result with
      | .error e => (.error e, asked)
      | .ok owner =>
        match owner.method? "main" with
        | none => (.error (.noSuchMethod owner.name "main" ""), asked)
        | some method =>
          if 0 < m.calls.maxDepth then
            (.ok (), (asked.logged (.starting owner.name)).withFrames [.enter owner method []])
          else (.error (.stackOverflow m.calls.maxDepth), asked.logged (.starting owner.name)) := by
  have hclear : (modify fun m => { m with calls := m.calls.clear } : Exec Machine PUnit) m =
      (.ok (), m.withFrames []) := rfl
  have hload : loadClass loader m.mainClass (m.withFrames []) =
      ((m.store.load loader m.mainClass).result, (m.loaded loader m.mainClass).withFrames []) := rfl
  have hget : (get : Exec Machine Machine) (m.withFrames []) =
      (.ok (m.withFrames []), m.withFrames []) := rfl
  simp only [boot, Exec.bind_apply, hclear, hget, withFrames_mainClass, hload]
  cases (m.store.load loader m.mainClass).result with
  | error e => rfl
  | ok owner =>
    simp only
    cases owner.method? "main" with
    | none => rfl
    | some method =>
      exact onCalls_push (.enter owner method [])
        ((m.loaded loader m.mainClass).logged (.starting owner.name)) []

/-- A machine that has been brought to its first instruction is in the main method, which has been
found in the main class. -/
theorem of_boot_ok {loader : Loader} {m booted : Machine} (h : boot loader m = (.ok (), booted)) :
    ∃ owner method, (m.store.load loader m.mainClass).result = .ok owner ∧
      owner.method? "main" = some method ∧ 0 < m.calls.maxDepth ∧
      booted = ((m.loaded loader m.mainClass).logged (.starting owner.name)).withFrames
        [.enter owner method []] := by
  rw [boot_eq] at h
  cases hload : (m.store.load loader m.mainClass).result with
  | error e =>
    rw [hload] at h
    cases h
  | ok owner =>
    simp only [hload] at h
    cases hmain : owner.method? "main" with
    | none =>
      rw [hmain] at h
      cases h
    | some method =>
      simp only [hmain] at h
      split at h
      next hdepth =>
        cases h
        exact ⟨owner, method, rfl, hmain, hdepth, rfl⟩
      next => cases h

/-- Starting asks for the main class, and does not print. -/
theorem after_boot (loader : Loader) (m : Machine) : ∃ frames log, (boot loader m).2 =
    { m.withFrames frames with log := log, store := (m.store.load loader m.mainClass).store } := by
  rw [boot_eq]
  simp only
  -- Wherever starting stops, the store is as loading left it.
  repeat' split
  all_goals exact ⟨_, _, rfl⟩

/-- Which parts of a machine a step has touched. What it did to the frames and the log is not told. -/
inductive Touched (loader : Loader) (m : Machine) :
    Option (Except RunError Unit) × Machine → Prop where
  /-- There was nothing to execute. -/
  | halted : Touched loader m (none, m)
  /-- It stayed among the frames. -/
  | frames (result : Except RunError Unit) (frames : List Frame) (log : Log) :
    Touched loader m (some result, { m.withFrames frames with log := log })
  /-- It printed, and ended as the printing did. -/
  | console (text : String) (frames : List Frame) (log : Log) :
    Touched loader m (some (Console.write text m.console).1,
      { m.withFrames frames with log := log, console := (Console.write text m.console).2 })
  /-- It asked for a class. -/
  | store (name : String) (result : Except RunError Unit) (frames : List Frame) (log : Log) :
    Touched loader m (some result,
      { m.withFrames frames with log := log, store := (m.store.load loader name).store })

theorem touched_of_step (loader : Loader) (m : Machine) : Touched loader m (m.step loader) := by
  rcases halted_or_next loader m with hnone | ⟨f, below, i, hf, hi⟩
  · rw [hnone]
    exact .halted
  rw [step_eq hf hi]
  rcases i.execute f.owner.pool f.workspace with ⟨e | control, w⟩
  · exact .frames _ _ _
  simp only
  cases control with
  | next => exact .frames _ _ _
  | print text => exact .console text _ _
  | jump target =>
    rw [perform_jump]
    cases f.method.indexOf? target <;> exact .frames _ _ _
  | leave value =>
    rw [perform_leave]
    exact .frames _ _ _
  | call ref =>
    rw [perform_call]
    simp only
    -- Wherever the call stops, the class has been asked for and nothing else has happened outside.
    repeat' split
    all_goals exact .store ref.className _ _ _

/-- What a successful step with instruction `i` of frame `f` can make of the frames `f :: below`. -/
inductive FrameStep (loader : Loader) (store : ClassStore) (f : Frame) (i : Instruction)
    (below : List Frame) : List Frame → Prop where
  /-- The invocation goes on. -/
  | stay (w : Workspace) (cursor : Nat) (hop : ∀ index, i.op ≠ .invokeStatic index) :
    FrameStep loader store f i below ({ f with workspace := w, cursor := cursor } :: below)
  /-- It calls a method and waits behind the call. -/
  | call (index : UInt16) (ref : MemberRef) (owner : LoadedClass) (method : Method)
    (hop : i.op = .invokeStatic index) (href : f.owner.pool.methodRef index = .ok ref)
    (hload : (store.load loader ref.className).result = .ok owner)
    (hmethod : owner.findMethod? ref.name ref.descriptor = some method)
    (hbody : method.body.isSome) (hn : method.parameterCount ≤ f.workspace.stack.length) :
    FrameStep loader store f i below
      (.enter owner method (f.arguments method.parameterCount) ::
        f.advance.withoutArguments method.parameterCount :: below)
  /-- It ends without a value. -/
  | returnVoid (hop : i.op = .returnVoid) : FrameStep loader store f i below below
  /-- It ends and hands the top of its stack over. -/
  | returnValue (v : Value) (rest : List Value) (hop : i.op = .returnValue)
    (hstack : f.workspace.stack = v :: rest) :
    FrameStep loader store f i below (resume below (some v))

theorem frameStep_of_step {loader : Loader} {m m' : Machine} {f : Frame} {below : List Frame}
    (hf : m.calls.frames = f :: below) (h : m.step loader = (some (.ok ()), m')) :
    ∃ i, f.next? = some i ∧ FrameStep loader m.store f i below m'.calls.frames := by
  cases hi : f.next? with
  | none =>
    have hfetch : m.fetch? = none := by simp [fetch?_eq_none_iff, hf, hi]
    simp [step_halted hfetch] at h
  | some i =>
    refine ⟨i, rfl, ?_⟩
    rw [step_eq hf hi] at h
    rcases hx : i.execute f.owner.pool f.workspace with ⟨_ | control, w⟩
    · simp [hx] at h
    simp only [hx, Prod.mk.injEq, Option.some.injEq] at h
    obtain ⟨hok, rfl⟩ := h
    have hstay : (∀ ref, control ≠ .call ref) → ∀ index, i.op ≠ .invokeStatic index := by
      intro hne index hop
      have hc := control_of_execute hx
      rw [hop] at hc
      obtain ⟨ref, _, hcall, _⟩ := hc
      exact hne ref hcall
    cases control with
    | next => exact .stay _ _ (hstay (by simp))
    | print text => exact .stay _ _ (hstay (by simp))
    | jump target =>
      rw [perform_jump] at hok ⊢
      cases hp : f.method.indexOf? target with
      | none => simp [hp] at hok
      | some position => exact .stay _ _ (hstay (by simp))
    | call ref =>
      obtain ⟨index, hop, href, rfl⟩ := op_of_call hx
      generalize hcall : perform loader (.call ref) _ = out at hok ⊢
      rcases perform_call_cases loader (m.logged _) f.advance below ref with
        ⟨owner, method, log, hload, hmethod, hbody, hn, -, hcalled⟩ | ⟨e, n, log, -, hfailed⟩
      · obtain rfl := hcalled.symm.trans hcall
        exact .call index ref owner method hop href hload hmethod hbody hn
      · obtain rfl := hfailed.symm.trans hcall
        cases hok
    | leave value =>
      rw [perform_leave]
      rcases op_of_leave hx with ⟨hop, rfl⟩ | ⟨v, hop, rfl, hstack⟩
      · exact .returnVoid hop
      · exact .returnValue v _ hop hstack

end Machine
end ClassVM
