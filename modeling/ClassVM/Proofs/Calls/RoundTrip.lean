import ClassVM.Proofs.Machine.Run
import ClassVM.Proofs.Programs.Factorial

namespace ClassVM.Machine

/-- The invocation that `callee` started directly above the frames `rest` is still under way; frames
of calls of its own may lie above it. -/
def Under (callee : Frame) (rest : List Frame) (m : Machine) : Prop :=
  ∃ above g, m.calls.frames = above ++ g :: rest ∧ g.owner = callee.owner ∧ g.method = callee.method

/-- The frames that an invocation leaves behind when `g`, which is its frame, executes a return
above `rest`. -/
inductive Returned (g : Frame) (rest : List Frame) : List Frame → Prop where
  | void (i : Instruction) (hi : g.next? = some i) (hop : i.op = .returnVoid) : Returned g rest rest
  | value (i : Instruction) (v : Value) (stack : List Value) (hi : g.next? = some i)
    (hop : i.op = .returnValue) (hstack : g.workspace.stack = v :: stack) :
    Returned g rest (resume rest (some v))

variable {loader : Loader} {callee : Frame} {rest : List Frame}

theorem Under.depth_ne {m : Machine} (h : Under callee rest m) : m.calls.depth ≠ rest.length := by
  obtain ⟨above, g, hframes, _⟩ := h
  rw [m.calls.depth_eq, hframes]
  simp only [List.length_append, List.length_cons]
  omega

theorem Returned.length_eq {g : Frame} {frames : List Frame} (h : Returned g rest frames) :
    frames.length = rest.length := by
  cases h with
  | void => rfl
  | value => exact resume_length rest _

/-- One step keeps an invocation under way, or it is the return that ends it. -/
theorem Under.step {m m' : Machine} (h : Under callee rest m)
    (hs : m.step loader = (some (.ok ()), m')) :
    Under callee rest m' ∨
      ∃ g, m.calls.frames = g :: rest ∧ g.owner = callee.owner ∧ g.method = callee.method ∧
        Returned g rest m'.calls.frames := by
  obtain ⟨above, g, hframes, howner, hmethod⟩ := h
  cases above with
  | nil =>
    obtain ⟨i, hi, hstep⟩ := frameStep_of_step hframes hs
    generalize hm' : m'.calls.frames = frames at hstep
    cases hstep with
    | stay w cursor => exact .inl ⟨[], _, hm', howner, hmethod⟩
    | call => exact .inl ⟨[_], _, hm', howner, hmethod⟩
    | returnVoid hop => exact .inr ⟨g, hframes, howner, hmethod, .void i hi hop⟩
    | returnValue v stack hop hstack =>
      exact .inr ⟨g, hframes, howner, hmethod, .value i v stack hi hop hstack⟩
  | cons top above =>
    obtain ⟨i, _, hstep⟩ := frameStep_of_step hframes hs
    generalize hm' : m'.calls.frames = frames at hstep
    cases hstep with
    | stay w cursor => exact .inl ⟨_ :: above, g, hm', howner, hmethod⟩
    | call => exact .inl ⟨_ :: _ :: above, g, hm', howner, hmethod⟩
    | returnVoid => exact .inl ⟨above, g, hm', howner, hmethod⟩
    | returnValue v =>
      -- The value goes to the caller of `top`, which is the invocation itself or a call above it.
      cases above with
      | nil => exact .inl ⟨[], g.given v, hm', howner, hmethod⟩
      | cons caller above => exact .inl ⟨caller.given v :: above, g, hm', howner, hmethod⟩

/-- The first time that a run has as few frames as below an invocation, it has just made the return
that ended the invocation. -/
theorem Under.run {k : Nat} {m m' : Machine} (h : Under callee rest m)
    (hrun : m.run loader k = (none, m')) (hback : m'.calls.depth = rest.length)
    (hfirst : ∀ j < k, (m.run loader j).2.calls.depth ≠ rest.length) :
    ∃ j last g, k = j + 1 ∧ m.run loader j = (none, last) ∧ last.calls.frames = g :: rest ∧
      g.owner = callee.owner ∧ g.method = callee.method ∧ Returned g rest m'.calls.frames := by
  induction k generalizing m with
  | zero =>
    cases hrun
    exact absurd hback h.depth_ne
  | succ k ih =>
    obtain ⟨next, hs, hrest⟩ := run_succ_eq_none.mp hrun
    rcases h.step hs with hnext | ⟨g, hframes, howner, hmethod, hreturn⟩
    · have hlater : ∀ j < k, (next.run loader j).2.calls.depth ≠ rest.length := by
        intro j hj
        rw [← run_succ_of_step hs]
        exact hfirst (j + 1) (by omega)
      obtain ⟨j, last, g, rfl, hlast, hg⟩ := ih hnext hrest hlater
      exact ⟨j + 1, last, g, rfl, by rw [run_succ_of_step hs, hlast], hg⟩
    · have hdepth : next.calls.depth = rest.length := by
        rw [next.calls.depth_eq, hreturn.length_eq]
      -- The invocation ends with this step, so the run ends with it as well.
      cases k with
      | zero =>
        cases hrest
        exact ⟨0, m, g, rfl, rfl, hframes, howner, hmethod, hreturn⟩
      | succ k =>
        refine absurd ?_ (hfirst 1 (by omega))
        rw [run_succ_of_step hs, Machine.run]
        exact hdepth

/-- A successful `invokestatic` starts a callee above the frame that executed it. -/
theorem call_enters {m m' : Machine} {f : Frame} {below : List Frame} {i : Instruction}
    {index : UInt16} (hf : m.calls.frames = f :: below) (hi : f.next? = some i)
    (hop : i.op = .invokeStatic index) (hs : m.step loader = (some (.ok ()), m')) :
    ∃ callee, callee.method.parameterCount ≤ f.workspace.stack.length ∧
      m'.calls.frames =
        callee :: f.advance.withoutArguments callee.method.parameterCount :: below := by
  obtain ⟨j, hj, hstep⟩ := frameStep_of_step hf hs
  obtain rfl : i = j := Option.some.inj (hi.symm.trans hj)
  generalize m'.calls.frames = frames at hstep ⊢
  cases hstep with
  | stay w cursor hne => exact absurd hop (hne index)
  | call index ref owner method _ _ _ _ _ hn => exact ⟨_, hn, rfl⟩
  | returnVoid hop' => simp [hop] at hop'
  | returnValue v stack hop' => simp [hop] at hop'

/-- When the caller is the innermost frame again, at `m₂`, it is as it was at `m`, but for the arguments and
the value that the callee's `ireturn` popped. -/
theorem call_round_trip {m m₁ m₂ : Machine} {f : Frame} {below : List Frame} {i : Instruction}
    {index : UInt16} {k : Nat} (hf : m.calls.frames = f :: below) (hi : f.next? = some i)
    (hop : i.op = .invokeStatic index) (hcall : m.step loader = (some (.ok ()), m₁))
    (hrun : m₁.run loader k = (none, m₂)) (hback : m₂.calls.depth = m.calls.depth)
    (hfirst : ∀ j < k, (m₁.run loader j).2.calls.depth ≠ m.calls.depth) :
    ∃ callee waiting, m₁.calls.frames = callee :: waiting :: below ∧
      callee.method.parameterCount ≤ f.workspace.stack.length ∧
      let kept := f.workspace.stack.drop callee.method.parameterCount
      ∃ j last g r, k = j + 1 ∧ m₁.run loader j = (none, last) ∧
        last.calls.frames = g :: waiting :: below ∧
        g.owner = callee.owner ∧ g.method = callee.method ∧ g.next? = some r ∧
        ((r.op = .returnVoid ∧
            m₂.calls.frames =
              { f with cursor := f.cursor + 1, workspace := ⟨kept, f.workspace.locals⟩ } :: below) ∨
          ∃ v stack, r.op = .returnValue ∧ g.workspace.stack = v :: stack ∧
            m₂.calls.frames =
              { f with cursor := f.cursor + 1, workspace := ⟨v :: kept, f.workspace.locals⟩ } ::
                below) := by
  obtain ⟨callee, hn, hm₁⟩ := call_enters hf hi hop hcall
  let waiting := f.advance.withoutArguments callee.method.parameterCount
  have hdepth : m.calls.depth = (waiting :: below).length := by
    rw [m.calls.depth_eq, hf]
    rfl
  rw [hdepth] at hback hfirst
  have hunder : Under callee (waiting :: below) m₁ := ⟨[], callee, hm₁, rfl, rfl⟩
  obtain ⟨j, last, g, hk, hlast, hframes, howner, hmethod, hreturn⟩ := hunder.run hrun hback hfirst
  refine ⟨callee, waiting, hm₁, hn, j, last, g, ?_⟩
  generalize hm₂ : m₂.calls.frames = frames at hreturn
  cases hreturn with
  | void r hr hvoid => exact ⟨r, hk, hlast, hframes, howner, hmethod, hr, .inl ⟨hvoid, rfl⟩⟩
  | value r v stack hr hvalue hstack =>
    exact ⟨r, hk, hlast, hframes, howner, hmethod, hr, .inr ⟨v, stack, hvalue, hstack, rfl⟩⟩

open Factorial in
/-- The call of `factorial(2)`, with the recursive call in it. -/
theorem call_round_trip_factorial :
    (calling 2).step (Factorial.loader 2) = (some (.ok ()), called 2 0) ∧
      (called 2 0).run (Factorial.loader 2) 17 = (none, called 2 17) ∧
      (called 2 17).calls.depth = 1 ∧
      (∀ j < 17, ((called 2 0).run (Factorial.loader 2) j).2.calls.depth ≠ 1) ∧
      ∃ callee waiting, (called 2 0).calls.frames = [callee, waiting] ∧
        let kept := [.int 2, .printStream].drop callee.method.parameterCount
        ∃ j last g r, 17 = j + 1 ∧ (called 2 0).run (Factorial.loader 2) j = (none, last) ∧
          last.calls.frames = [g, waiting] ∧ g.method = callee.method ∧ g.next? = some r ∧
          ((r.op = .returnVoid ∧
              (called 2 17).calls.frames =
                [{ caller 2 with cursor := 3, workspace := ⟨kept, #[none]⟩ }]) ∨
            ∃ v stack, r.op = .returnValue ∧ g.workspace.stack = v :: stack ∧
              (called 2 17).calls.frames =
                [{ caller 2 with cursor := 3, workspace := ⟨v :: kept, #[none]⟩ }]) := by
  have hcall : (calling 2).step (Factorial.loader 2) = (some (.ok ()), called 2 0) := by
    have hone : ((calling 2).run (Factorial.loader 2) 1).1 = none := by decide +kernel
    obtain ⟨next, hs, -⟩ := run_succ_eq_none.mp (Prod.ext hone rfl)
    rw [called, hs]
    rfl
  have hrun : (called 2 0).run (Factorial.loader 2) 17 = (none, called 2 17) :=
    Prod.ext (by decide +kernel) rfl
  have hback : (called 2 17).calls.depth = 1 := by decide +kernel
  have hfirst : ∀ j < 17, ((called 2 0).run (Factorial.loader 2) j).2.calls.depth ≠ 1 := by
    decide +kernel
  obtain ⟨callee, waiting, hm₁, -, j, last, g, r, hk, hlast, hframes, -, hmethod, hr, hreturn⟩ :=
    call_round_trip (show (calling 2).calls.frames = [caller 2] from rfl)
      (show (caller 2).next? = some ⟨5, ⟨0xb8, by decide⟩, .invokeStatic 6⟩ from rfl) rfl hcall hrun
      hback hfirst
  exact ⟨hcall, hrun, hback, hfirst, callee, waiting, hm₁, j, last, g, r, hk, hlast, hframes,
    hmethod, hr, hreturn⟩

end ClassVM.Machine
