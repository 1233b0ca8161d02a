import ClassVM.Proofs.Machine.Step

namespace ClassVM.Machine

variable {loader : Loader}

theorem run_succ_eq_none {k : Nat} {m m' : Machine} :
    m.run loader (k + 1) = (none, m') ↔
      ∃ next, m.step loader = (some (.ok ()), next) ∧ next.run loader k = (none, m') := by
  rw [run]
  rcases m.step loader with ⟨_ | _ | _, next⟩ <;> simp

theorem run_succ_of_step {m next : Machine} (h : m.step loader = (some (.ok ()), next)) (k : Nat) :
    m.run loader (k + 1) = next.run loader k := by
  rw [run, h]

theorem run_halted {m : Machine} (h : m.fetch? = none) (k : Nat) :
    m.run loader (k + 1) = (some (.ok ()), m) := by
  rw [run, step_halted h]

/-- A run goes on from where its first `k` steps have come to. -/
theorem run_add {k : Nat} {m m' : Machine} (h : m.run loader k = (none, m')) (j : Nat) :
    m.run loader (k + j) = m'.run loader j := by
  induction k generalizing m with
  | zero =>
    cases h
    rw [Nat.zero_add]
  | succ k ih =>
    obtain ⟨next, hstep, hrest⟩ := run_succ_eq_none.mp h
    rw [Nat.succ_add, run_succ_of_step hstep, ih hrest]

/-- What holds at the start and is kept by every successful step decides what can be said of the end
of a run, whether the run still goes on, has come to its end or has failed. -/
theorem run_induction (Keeps : Machine → Prop)
    {Ends : Option (Except RunError Unit) × Machine → Prop}
    (going : ∀ m, Keeps m → Ends (none, m))
    (halted : ∀ m, Keeps m → m.fetch? = none → Ends (some (.ok ()), m))
    (failed : ∀ m m' e, Keeps m → m.step loader = (some (.error e), m') →
      Ends (some (.error e), m'))
    (step : ∀ m m', Keeps m → m.step loader = (some (.ok ()), m') → Keeps m')
    (k : Nat) (m : Machine) (h : Keeps m) : Ends (m.run loader k) := by
  induction k generalizing m with
  | zero => exact going m h
  | succ k ih =>
    rw [run]
    rcases hs : m.step loader with ⟨_ | e | _, next⟩
    · obtain ⟨hm, rfl⟩ := halted_of_step hs
      exact halted next h hm
    · exact failed m next e h hs
    · exact ih next (step m next h hs)

/-- What every step keeps, however it ends, is kept by runs. -/
theorem run_keeps {Keeps : Machine → Prop} (h : ∀ m, Keeps m → Keeps (m.step loader).2)
    (fuel : Nat) (m : Machine) (hm : Keeps m) : Keeps (m.run loader fuel).2 := by
  have hstep : ∀ m m' r, Keeps m → m.step loader = (r, m') → Keeps m' := by
    intro m m' r hm hs
    have hkept := h m hm
    rwa [hs] at hkept
  exact @run_induction loader Keeps (fun ended => Keeps ended.2) (fun _ hm => hm)
    (fun _ hm _ => hm) (fun m m' _ => hstep m m' _) (fun m m' => hstep m m' _) fuel m hm

/-- A run that fails does so at one step, after others that have succeeded. -/
theorem run_error {fuel : Nat} {m after : Machine} {e : RunError}
    (h : m.run loader fuel = (some (.error e), after)) :
    ∃ steps failing, steps < fuel ∧ m.run loader steps = (none, failing) ∧
      failing.step loader = (some (.error e), after) := by
  induction fuel generalizing m with
  | zero => cases h
  | succ fuel ih =>
    rw [run] at h
    rcases hs : m.step loader with ⟨_ | cause | _, next⟩
    · simp only [hs] at h
      cases h
    · simp only [hs] at h
      cases h
      exact ⟨0, m, Nat.succ_pos _, rfl, hs⟩
    · simp only [hs] at h
      obtain ⟨steps, failing, hlt, hrun, hfails⟩ := ih h
      exact ⟨steps + 1, failing, Nat.succ_lt_succ hlt, (run_succ_of_step hs steps).trans hrun, hfails⟩

/-- A run does not come past a step that fails. -/
theorem run_of_failing_step {k fuel : Nat} {m failing after : Machine} {e : RunError}
    (hrun : m.run loader k = (none, failing)) (hfails : failing.step loader = (some (.error e), after))
    (hlt : k < fuel) : m.run loader fuel = (some (.error e), after) := by
  obtain ⟨j, rfl⟩ := Nat.exists_eq_add_of_lt hlt
  rw [Nat.add_assoc, run_add hrun, run, hfails]

theorem finish_eq (result : Except RunError Unit) (m : Machine) :
    finish result m =
      (if m.console.flushFails then .error (.output .flushFailed) else result,
        { m with console := { m.console with flushes := m.console.flushes + 1 } }) := by
  obtain ⟨mainClass, store, calls, ⟨written, capacity, flushFails, flushes⟩, log⟩ := m
  cases flushFails <;> rfl

/-- A start ends where the run after it does, with the console flushed. -/
theorem start_of_run {m booted last : Machine} {fuel : Nat} {result : Except RunError Unit}
    (hboot : boot loader m = (.ok (), booted)) (hrun : booted.run loader fuel = (some result, last)) :
    m.start loader fuel = (some (if last.console.flushFails then .error (.output .flushFailed)
      else result), { last with
        console := { last.console with flushes := last.console.flushes + 1 } }) := by
  rw [start, hboot]
  simp only [hrun, finish_eq]

/-- What a start comes to before it flushes the console. -/
def launch (loader : Loader) (fuel : Nat) (m : Machine) :
    Option (Except RunError Unit) × Machine :=
  match boot loader m with
  | (.error e, m) => (some (.error e), m)
  | (.ok (), m) => run loader fuel m

end ClassVM.Machine
