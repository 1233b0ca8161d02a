import ClassVM.Proofs.Machine.Run

namespace ClassVM

/-- An instruction that has been executed: the frame as it was before, and what has come of it. -/
structure Executed where
  frame : Frame
  instruction : Instruction
  result : Except RunError Unit

namespace Machine

/-- The innermost frame and its next instruction. -/
def upcoming? (m : Machine) : Option (Frame × Instruction) :=
  m.calls.frames.head?.bind fun f => f.next?.map fun i => (f, i)

/-- The instructions that these steps execute, in their order. One that fails is the last. -/
def executed (loader : Loader) : Nat → Machine → List Executed
  | 0, _ => []
  | fuel + 1, m =>
    match m.upcoming? with
    | none => []
    | some (f, i) =>
      match m.step loader with
      | (some (.ok ()), next) => ⟨f, i, .ok ()⟩ :: executed loader fuel next
      | (some (.error e), _) => [⟨f, i, .error e⟩]
      | (none, _) => []

/-- The instructions that a start executes. -/
def executedByStart (loader : Loader) (fuel : Nat) (m : Machine) : List Executed :=
  match boot loader m with
  | (.ok (), booted) => booted.executed loader fuel
  | (.error _, _) => []

/-- A run from one machine to another: what it has executed, and its result if it has one. -/
inductive Runs (loader : Loader) :
    Machine → List Executed → Option (Except RunError Unit) → Machine → Prop where
  /-- It has been left midway. -/
  | going (m : Machine) : Runs loader m [] none m
  /-- There was no next instruction. -/
  | halted {m : Machine} (hm : m.fetch? = none) : Runs loader m [] (some (.ok ())) m
  | failed {m after : Machine} {f : Frame} {below : List Frame} {i : Instruction} {e : RunError}
    (hf : m.calls.frames = f :: below) (hi : f.next? = some i)
    (hstep : m.step loader = (some (.error e), after)) :
    Runs loader m [⟨f, i, .error e⟩] (some (.error e)) after
  | step {m next ended : Machine} {f : Frame} {below : List Frame} {i : Instruction}
    {rest : List Executed} {result : Option (Except RunError Unit)}
    (hf : m.calls.frames = f :: below) (hi : f.next? = some i)
    (hstep : m.step loader = (some (.ok ()), next)) (hrest : Runs loader next rest result ended) :
    Runs loader m (⟨f, i, .ok ()⟩ :: rest) result ended

/-- A start: what it has executed, and its outcome. -/
inductive Starts (loader : Loader) (m : Machine) :
    List Executed → Option (Except RunError Unit) × Machine → Prop where
  /-- It did not come to its first instruction. -/
  | unbooted {e : RunError} {after : Machine} (hboot : boot loader m = (.error e, after)) :
    Starts loader m [] (some (.error e), after)
  | going {booted ended : Machine} {done : List Executed} (hboot : boot loader m = (.ok (), booted))
    (hruns : Runs loader booted done none ended) : Starts loader m done (none, ended)
  /-- The run came to its end, and what it printed was flushed. -/
  | ended {booted ended : Machine} {done : List Executed} {result : Except RunError Unit}
    (hboot : boot loader m = (.ok (), booted)) (hruns : Runs loader booted done (some result) ended) :
    Starts loader m done (some (finish result ended).1, (finish result ended).2)

variable {loader : Loader} {m : Machine}

theorem upcoming?_eq {f : Frame} {below : List Frame} {i : Instruction}
    (hf : m.calls.frames = f :: below) (hi : f.next? = some i) : m.upcoming? = some (f, i) := by
  simp [upcoming?, hf, hi]

theorem upcoming?_eq_none (hm : m.fetch? = none) : m.upcoming? = none := by
  rw [fetch?_eq_none_iff] at hm
  rw [upcoming?, Option.bind_eq_none_iff]
  intro f hf
  rw [hm f hf, Option.map_none]

theorem upcoming?_eq_some {f : Frame} {i : Instruction} (h : m.upcoming? = some (f, i)) :
    ∃ below, m.calls.frames = f :: below ∧ f.next? = some i := by
  obtain ⟨g, hg, hnext⟩ := Option.bind_eq_some_iff.mp h
  obtain ⟨j, hj, heq⟩ := Option.map_eq_some_iff.mp hnext
  obtain ⟨below, hframes⟩ := List.head?_eq_some_iff.mp hg
  cases heq
  exact ⟨below, hframes, hj⟩

theorem upcoming?_of_step {next : Machine} {result : Except RunError Unit}
    (h : m.step loader = (some result, next)) : ∃ f i, m.upcoming? = some (f, i) := by
  rcases halted_or_next loader m with hnone | ⟨f, below, i, hf, hi⟩
  · rw [hnone] at h
    cases h
  · exact ⟨f, i, upcoming?_eq hf hi⟩

theorem executed_succ_of_step {f : Frame} {i : Instruction} {next : Machine}
    (hup : m.upcoming? = some (f, i)) (h : m.step loader = (some (.ok ()), next)) (k : Nat) :
    m.executed loader (k + 1) = ⟨f, i, .ok ()⟩ :: next.executed loader k := by
  rw [executed, hup, h]

theorem executed_add {k : Nat} {m m' : Machine} (h : m.run loader k = (none, m')) (j : Nat) :
    m.executed loader (k + j) = m.executed loader k ++ m'.executed loader j := by
  induction k generalizing m with
  | zero =>
    cases h
    rw [Nat.zero_add, executed, List.nil_append]
  | succ k ih =>
    obtain ⟨next, hstep, hrest⟩ := run_succ_eq_none.mp h
    obtain ⟨f, i, hup⟩ := upcoming?_of_step hstep
    rw [Nat.succ_add, executed_succ_of_step hup hstep, executed_succ_of_step hup hstep, ih hrest,
      List.cons_append]

theorem run_runs (loader : Loader) (fuel : Nat) (m : Machine) :
    Runs loader m (m.executed loader fuel) (m.run loader fuel).1 (m.run loader fuel).2 := by
  induction fuel generalizing m with
  | zero => exact .going m
  | succ fuel ih =>
    rw [executed, run]
    rcases halted_or_next loader m with hnone | ⟨f, below, i, hf, hi⟩
    · obtain ⟨hm, -⟩ := halted_of_step hnone
      rw [upcoming?_eq_none hm, hnone]
      exact .halted hm
    · rw [upcoming?_eq hf hi]
      rcases hstep : m.step loader with ⟨_ | e | _, next⟩
      · obtain ⟨hm, -⟩ := halted_of_step hstep
        rw [fetch?_eq_none_iff, hf] at hm
        rw [hm f rfl] at hi
        cases hi
      · exact .failed hf hi hstep
      · exact .step hf hi hstep (ih next)

theorem start_starts (loader : Loader) (fuel : Nat) (m : Machine) :
    Starts loader m (m.executedByStart loader fuel) (m.start loader fuel) := by
  rw [executedByStart, start]
  rcases hboot : boot loader m with ⟨e | _, booted⟩
  · exact .unbooted hboot
  · have hruns := run_runs loader fuel booted
    simp only
    rcases hrun : booted.run loader fuel with ⟨_ | result, ended⟩
    · rw [hrun] at hruns
      exact .going hboot hruns
    · rw [hrun] at hruns
      exact .ended hboot hruns

end Machine
end ClassVM
