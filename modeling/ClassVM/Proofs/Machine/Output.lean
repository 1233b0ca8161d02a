import ClassVM.Proofs.Machine.Run

namespace ClassVM

/-- A text that does not fit is cut off. -/
theorem cut_of_write {text : String} {console after : Console} {e : RunError}
    (h : Console.write text console = (.error e, after)) :
    e = .output .full ∧
      ∃ k, after = { console with written := console.written ++ text.toUTF8.data.take k } := by
  obtain ⟨written, _ | capacity, flushFails, flushes⟩ := console
  · cases h
  · obtain ⟨herror, hafter⟩ := Prod.mk.inj h
    split at herror
    · cases herror
    · exact ⟨(Except.error.inj herror).symm, _, hafter.symm⟩

theorem output_of_write {text : String} {console : Console} {e : RunError}
    (h : (Console.write text console).1 = .error e) : ∃ fault, e = .output fault := by
  have hwrite : Console.write text console = (.error e, (Console.write text console).2) :=
    Prod.ext h rfl
  exact ⟨.full, (cut_of_write hwrite).1⟩

namespace Console

/-- What has been printed is still there, perhaps followed by more, and flushing is as before. -/
structure Grown (before after : Console) : Prop where
  written : ∃ rest, after.written = before.written ++ rest
  flushFails : after.flushFails = before.flushFails

theorem Grown.refl (console : Console) : console.Grown console :=
  ⟨⟨#[], Array.append_empty.symm⟩, rfl⟩

theorem Grown.trans {a b c : Console} (hab : a.Grown b) (hbc : b.Grown c) : a.Grown c := by
  obtain ⟨first, hfirst⟩ := hab.written
  obtain ⟨rest, hrest⟩ := hbc.written
  refine ⟨⟨first ++ rest, ?_⟩, hbc.flushFails.trans hab.flushFails⟩
  rw [hrest, hfirst, Array.append_assoc]

theorem grown_of_write (text : String) (console : Console) :
    console.Grown (Console.write text console).2 := by
  obtain ⟨written, _ | capacity, flushFails, flushes⟩ := console
  · exact ⟨⟨_, rfl⟩, rfl⟩
  · exact ⟨⟨_, rfl⟩, rfl⟩

end Console

namespace Machine

/-- A step leaves the console as it is, or it prints a text and ends as the printing does. -/
theorem console_of_step (loader : Loader) (m : Machine) :
    (m.step loader).2.console = m.console ∨
      ∃ text, (m.step loader).1 = some (Console.write text m.console).1 ∧
        (m.step loader).2.console = (Console.write text m.console).2 := by
  have htouched := touched_of_step loader m
  generalize m.step loader = out at htouched ⊢
  cases htouched with
  | halted | frames | store => exact .inl rfl
  | console text => exact .inr ⟨text, rfl, rfl⟩

theorem grown_of_step (loader : Loader) (m : Machine) :
    m.console.Grown (m.step loader).2.console := by
  rcases console_of_step loader m with hsame | ⟨text, -, hwrite⟩
  · rw [hsame]
    exact .refl _
  · rw [hwrite]
    exact Console.grown_of_write text m.console

/-- Nothing is printed by a step that comes to the limit on calls. -/
theorem console_of_overflow {loader : Loader} {m m' : Machine} {limit : Nat}
    (h : m.step loader = (some (.error (.stackOverflow limit)), m')) : m'.console = m.console := by
  have hconsole := console_of_step loader m
  rw [h] at hconsole
  rcases hconsole with hsame | ⟨text, hresult, -⟩
  · exact hsame
  · obtain ⟨fault, hfault⟩ := output_of_write (Option.some.inj hresult).symm
    cases hfault

theorem grown_of_run (loader : Loader) (fuel : Nat) (m : Machine) :
    m.console.Grown (m.run loader fuel).2.console := by
  have hstep : ∀ now : Machine, m.console.Grown now.console →
      m.console.Grown (now.step loader).2.console :=
    fun now hnow => hnow.trans (grown_of_step loader now)
  exact run_keeps hstep fuel m (.refl _)

theorem console_of_boot (loader : Loader) (m : Machine) :
    (boot loader m).2.console = m.console := by
  obtain ⟨frames, log, hboot⟩ := after_boot loader m
  rw [hboot]
  rfl

theorem grown_of_launch (loader : Loader) (fuel : Nat) (m : Machine) :
    m.console.Grown (m.launch loader fuel).2.console := by
  have hconsole := console_of_boot loader m
  rw [launch]
  rcases hboot : boot loader m with ⟨e | _, booted⟩
  · rw [hboot] at hconsole
    rw [← hconsole]
    exact .refl _
  · rw [hboot] at hconsole
    rw [← hconsole]
    exact grown_of_run loader fuel booted

/-- A start comes to what its run comes to, unless the console cannot be flushed in the end. -/
theorem start_eq_launch (loader : Loader) (fuel : Nat) (m : Machine) :
    ((m.start loader fuel).1 = (m.launch loader fuel).1 ∨ m.console.flushFails = true ∧
      (m.start loader fuel).1 = some (.error (.output .flushFailed))) ∧
    (m.start loader fuel).2.console.written = (m.launch loader fuel).2.console.written := by
  have hgrown := grown_of_launch loader fuel m
  rw [start, launch]
  rw [launch] at hgrown
  rcases hboot : boot loader m with ⟨e | _, booted⟩
  · exact ⟨.inl rfl, rfl⟩
  · rw [hboot] at hgrown
    simp only at hgrown ⊢
    rcases hrun : booted.run loader fuel with ⟨_ | result, ended⟩
    · exact ⟨.inl rfl, rfl⟩
    · rw [hrun] at hgrown
      have hfails : ended.console.flushFails = m.console.flushFails := hgrown.flushFails
      simp only [finish_eq, hfails]
      refine ⟨?_, trivial⟩
      cases hflush : m.console.flushFails with
      | false => exact .inl rfl
      | true => exact .inr ⟨rfl, rfl⟩

end Machine
end ClassVM
