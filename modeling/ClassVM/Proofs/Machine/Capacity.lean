import ClassVM.Proofs.Machine.Printing
import ClassVM.Proofs.Programs.Factorial

namespace ClassVM

namespace Console

/-- A console that takes so many bytes and no more. -/
def limited (room : Nat) : Console := ⟨#[], some room, false, 0⟩

/-- What such a console would be in the place of this one. -/
def within (console : Console) (room : Nat) : Console :=
  { console with written := console.written.take room, capacity := some room }

variable {console : Console} {room : Nat}

theorem printed_size (console : Console) (text : String) :
    (console.printed text).written.size = console.written.size + text.utf8ByteSize :=
  Array.size_append

theorem take_of_fits (h : console.written.size ≤ room) :
    console.written.take room = console.written := by
  rw [Array.take_eq_extract, Array.extract_eq_self_of_le h]

/-- Of a text that does not fit, the part that does is printed. -/
theorem write_within (hcapacity : console.capacity = none) (hfits : console.written.size ≤ room)
    (text : String) :
    Console.write text (console.within room) =
      (if (console.printed text).written.size ≤ room then .ok () else .error (.output .full),
        (console.printed text).within room) := by
  have hwritten := take_of_fits hfits
  obtain ⟨written, capacity, flushFails, flushes⟩ := console
  simp only at hcapacity hfits hwritten
  have htake : written ++ text.toUTF8.data.take (room - written.size) =
      (written ++ text.toUTF8.data).take room := by
    rw [Array.take_eq_extract, Array.take_eq_extract, Array.extract_append, Nat.zero_sub,
      Array.extract_eq_self_of_le hfits]
  have hroom : text.toUTF8.data.size ≤ room - written.size ↔
      (written ++ text.toUTF8.data).size ≤ room := by
    rw [Array.size_append]
    omega
  simp only [within, printed, Console.write, hwritten, htake]
  exact Prod.ext (if_congr hroom rfl rfl) rfl

end Console

namespace Machine

def withConsole (m : Machine) (console : Console) : Machine := { m with console := console }

/-- The machine with room for so many bytes of output. -/
def within (m : Machine) (room : Nat) : Machine := m.withConsole (m.console.within room)

variable {loader : Loader} {m : Machine} {room : Nat}

theorem perform_withConsole (loader : Loader) (m : Machine) (f : Frame) (below : List Frame)
    {control : Control} (h : ∀ text, control ≠ .print text) (console : Console) :
    perform loader control ((m.withConsole console).withFrames (f :: below)) =
      ((perform loader control (m.withFrames (f :: below))).1,
        (perform loader control (m.withFrames (f :: below))).2.withConsole console) := by
  cases control with
  | next => rfl
  | print text => exact absurd rfl (h text)
  | jump target =>
    simp only [perform_jump]
    cases f.method.indexOf? target <;> rfl
  | leave value =>
    simp only [perform_leave]
    rfl
  | call ref =>
    have hstore : (m.withConsole console).store = m.store := rfl
    have hlimit : (m.withConsole console).calls.maxDepth = m.calls.maxDepth := rfl
    simp only [perform_call, hstore, hlimit]
    -- Wherever the call stops, it has not come to the console.
    repeat' split
    all_goals rfl

/-- A step does not look at the console: it leaves it alone, or it has a text printed to it and ends as
the printing does. -/
theorem step_withConsole (loader : Loader) (m : Machine) :
    (∀ console, (m.withConsole console).step loader =
      ((m.step loader).1, (m.step loader).2.withConsole console)) ∨
    ∃ text, ∀ console, (m.withConsole console).step loader =
      (some (Console.write text console).1,
        (m.step loader).2.withConsole (Console.write text console).2) := by
  rcases halted_or_next loader m with hnone | ⟨f, below, i, hf, hi⟩
  · obtain ⟨hm, -⟩ := halted_of_step hnone
    refine .inl fun console => ?_
    have hhalted : (m.withConsole console).fetch? = none := by
      rw [fetch?_eq_none_iff] at hm ⊢
      exact hm
    rw [step_halted hhalted, hnone]
  · have hstep : ∀ console, (m.withConsole console).step loader = _ := fun console =>
      step_eq (show _ = f :: below from hf) hi
    have hown : m.step loader = _ := step_eq hf hi
    rcases hx : i.execute f.owner.pool f.workspace with ⟨e | control, w⟩
    · simp only [hx] at hstep hown
      refine .inl fun console => ?_
      rw [hstep console, hown]
      rfl
    · simp only [hx] at hstep hown
      by_cases hprint : ∃ text, control = .print text
      · obtain ⟨text, rfl⟩ := hprint
        refine .inr ⟨text, fun console => ?_⟩
        rw [hstep console, hown]
        rfl
      · refine .inl fun console => ?_
        have hperform := perform_withConsole loader
          (m.logged (.executing f.owner.name f.method.name i))
          { f with workspace := w, cursor := f.cursor + 1 } below
          (fun text htext => hprint ⟨text, htext⟩) console
        rw [hstep console, hown]
        refine Prod.ext ?_ ?_
        · exact congrArg (fun out => some out.1) hperform
        · exact congrArg (fun out => out.2) hperform

theorem boot_withConsole (loader : Loader) (m : Machine) (console : Console) :
    boot loader (m.withConsole console) =
      ((boot loader m).1, (boot loader m).2.withConsole console) := by
  have hstore : (m.withConsole console).store = m.store := rfl
  have hlimit : (m.withConsole console).calls.maxDepth = m.calls.maxDepth := rfl
  have hmain : (m.withConsole console).mainClass = m.mainClass := rfl
  simp only [boot_eq, hstore, hlimit, hmain]
  repeat' split
  all_goals rfl

section unlimited
variable (hcapacity : m.console.capacity = none)
include hcapacity

/-- If everything fits, a step prints a text only if it succeeds. -/
theorem console_of_unlimited_step (loader : Loader) :
    (m.step loader).2.console = m.console ∨
      (m.step loader).1 = some (.ok ()) ∧
        ∃ text, (m.step loader).2.console = m.console.printed text := by
  rcases console_of_step loader m with hsame | ⟨text, hresult, hconsole⟩
  · exact .inl hsame
  · rw [Console.write_of_unlimited hcapacity] at hresult hconsole
    exact .inr ⟨hresult, text, hconsole⟩

theorem capacity_of_step (loader : Loader) : (m.step loader).2.console.capacity = none := by
  rcases console_of_unlimited_step hcapacity loader with hsame | ⟨-, text, hconsole⟩
  · rw [hsame, hcapacity]
  · rw [hconsole]
    exact hcapacity

/-- With room for so many bytes a step does the same, unless what has been printed comes to be too
much with it. -/
theorem step_within (hfits : m.console.written.size ≤ room) (loader : Loader) :
    (m.within room).step loader =
      (if (m.step loader).2.console.written.size ≤ room then (m.step loader).1
        else some (.error (.output .full)),
        (m.step loader).2.within room) := by
  rcases step_withConsole loader m with hquiet | ⟨text, hprint⟩
  · have hsame : (m.step loader).2.console = m.console :=
      congrArg (fun out => out.2.console) (hquiet m.console)
    rw [within, within, hquiet, hsame, if_pos hfits]
  · have hown : m.step loader = _ := hprint m.console
    rw [Console.write_of_unlimited hcapacity] at hown
    have hresult : (m.step loader).1 = some (.ok ()) := congrArg Prod.fst hown
    have hconsole : (m.step loader).2.console = m.console.printed text :=
      congrArg (fun out => out.2.console) hown
    rw [within, within, hprint, Console.write_within hcapacity hfits, hconsole, hresult]
    split <;> rfl

omit hcapacity in
theorem fits_of_run {fuel : Nat} (hfits : (m.run loader fuel).2.console.written.size ≤ room) :
    m.console.written.size ≤ room := by
  obtain ⟨rest, hrest⟩ := (grown_of_run loader fuel m).written
  rw [hrest, Array.size_append] at hfits
  omega

/-- A run whose output fits does not notice how much room there is. -/
theorem run_within {fuel : Nat} (hfits : (m.run loader fuel).2.console.written.size ≤ room) :
    (m.within room).run loader fuel =
        ((m.run loader fuel).1, (m.run loader fuel).2.within room) ∧
      (m.within room).executed loader fuel = m.executed loader fuel := by
  induction fuel generalizing m with
  | zero => exact ⟨rfl, rfl⟩
  | succ fuel ih =>
    have hstep := step_within hcapacity (fits_of_run hfits) loader
    have hcapacity' := capacity_of_step hcapacity loader
    have hup : (m.within room).upcoming? = m.upcoming? := rfl
    rw [run] at hfits
    rw [run, run, executed, executed, hup]
    rcases hs : m.step loader with ⟨_ | e | _, next⟩
    all_goals
      rw [hs] at hstep hfits hcapacity'
      simp only at hstep hfits
    · rw [if_pos hfits] at hstep
      rw [hstep]
      exact ⟨rfl, rfl⟩
    · rw [if_pos hfits] at hstep
      rw [hstep]
      exact ⟨rfl, rfl⟩
    · rw [if_pos (fits_of_run hfits)] at hstep
      obtain ⟨hrun, hexecuted⟩ := ih hcapacity' hfits
      simp only [hstep, hrun, hexecuted, and_self]

/-- If the output of a run is too much, there is a first step with which it comes to be so. -/
theorem exists_overflowing_step {fuel : Nat} (hstart : m.console.written.size ≤ room)
    (hfull : room < (m.run loader fuel).2.console.written.size) :
    ∃ k stopped next, k < fuel ∧ m.run loader k = (none, stopped) ∧
      stopped.console.capacity = none ∧ stopped.console.written.size ≤ room ∧
      stopped.step loader = (some (.ok ()), next) ∧ room < next.console.written.size := by
  induction fuel generalizing m with
  | zero => exact absurd hstart (Nat.not_le_of_lt hfull)
  | succ fuel ih =>
    have hconsole := console_of_unlimited_step hcapacity loader
    have hcapacity' := capacity_of_step hcapacity loader
    rw [run] at hfull
    rcases hs : m.step loader with ⟨_ | e | _, next⟩
    all_goals
      rw [hs] at hfull hconsole hcapacity'
      simp only at hfull hconsole hcapacity'
    · obtain ⟨-, rfl⟩ := halted_of_step hs
      exact absurd hstart (Nat.not_le_of_lt hfull)
    · -- A step that fails has printed nothing.
      rcases hconsole with hsame | ⟨hok, -⟩
      · rw [hsame] at hfull
        exact absurd hstart (Nat.not_le_of_lt hfull)
      · cases hok
    · by_cases hnext : next.console.written.size ≤ room
      · obtain ⟨k, stopped, after, hk, hrun, hrest⟩ := ih hcapacity' hnext hfull
        exact ⟨k + 1, stopped, after, Nat.succ_lt_succ hk, (run_succ_of_step hs k).trans hrun, hrest⟩
      · exact ⟨0, m, next, Nat.succ_pos _, rfl, hcapacity, hstart, hs, Nat.lt_of_not_le hnext⟩

/-- The step with which the output comes to be too much fails, and nothing is executed after it. -/
theorem run_within_of_overflowing_step {k : Nat} {stopped next : Machine} {f : Frame}
    {i : Instruction} (hrun : m.run loader k = (none, stopped))
    (hup : stopped.upcoming? = some (f, i)) (hstopped : stopped.console.capacity = none)
    (hfits : stopped.console.written.size ≤ room)
    (hstep : stopped.step loader = (some (.ok ()), next))
    (hnext : room < next.console.written.size) (j : Nat) :
    (m.within room).run loader (k + (j + 1)) =
        (some (.error (.output .full)), next.within room) ∧
      (m.within room).executed loader (k + (j + 1)) =
        m.executed loader k ++ [⟨f, i, .error (.output .full)⟩] := by
  have hfirst : (m.run loader k).2.console.written.size ≤ room := by rwa [hrun]
  obtain ⟨hsame, hexecuted⟩ := run_within hcapacity hfirst
  rw [hrun] at hsame
  have hfails : (stopped.within room).step loader =
      (some (.error (.output .full)), next.within room) := by
    rw [step_within hstopped hfits, hstep, if_neg (Nat.not_le_of_lt hnext)]
  have hup' : (stopped.within room).upcoming? = some (f, i) := hup
  constructor
  · exact run_of_failing_step hsame hfails (by omega)
  · rw [executed_add hsame, hexecuted, executed, hup', hfails]

omit hcapacity in
/-- What is printed later does not change what there was room for. -/
theorem take_of_run (hfull : room < m.console.written.size) (loader : Loader) (fuel : Nat) :
    (m.run loader fuel).2.console.written.take room = m.console.written.take room := by
  obtain ⟨printed, hprinted⟩ := (grown_of_run loader fuel m).written
  have hnone : room - m.console.written.size = 0 := Nat.sub_eq_zero_of_le (Nat.le_of_lt hfull)
  simp only [hprinted, Array.take_eq_extract, Array.extract_append, hnone, Array.extract_zero,
    Array.append_empty]

/-- A step with which the output comes to be too much has printed a text. -/
theorem prints_of_overflowing_step {f : Frame} {below : List Frame} {i : Instruction}
    {next : Machine} (hf : m.calls.frames = f :: below) (hi : f.next? = some i)
    (hfits : m.console.written.size ≤ room) (hstep : m.step loader = (some (.ok ()), next))
    (hnext : room < next.console.written.size) :
    ∃ text, Prints f i text ∧ next.console = m.console.printed text := by
  have hprint := printed_of_step hcapacity hf hi hstep
  split at hprint
  next => exact hprint
  next =>
    rw [hprint] at hnext
    exact absurd hfits (Nat.not_le_of_lt hnext)

/-- A run whose output is too much comes to the step that prints too much, and fails there. -/
theorem run_cut {fuel : Nat} (hstart : m.console.written.size ≤ room)
    (hfull : room < (m.run loader fuel).2.console.written.size) :
    ((m.within room).run loader fuel).1 = some (.error (.output .full)) ∧
    ((m.within room).run loader fuel).2.console.written =
      (m.run loader fuel).2.console.written.take room ∧
    ∃ before f i rest texts text,
      m.executed loader fuel = before ++ ⟨f, i, .ok ()⟩ :: rest ∧
      (m.within room).executed loader fuel = before ++ [⟨f, i, .error (.output .full)⟩] ∧
      List.Forall₂ (fun done text => Prints done.frame done.instruction text)
        (before.filter Executed.hasPrinted) texts ∧
      Prints f i text ∧
      m.console.written.size + (String.join texts).utf8ByteSize ≤ room ∧
      room < m.console.written.size + (String.join texts ++ text).utf8ByteSize := by
  obtain ⟨k, stopped, next, hk, hrun, hstopped, hfits, hstep, hnext⟩ :=
    exists_overflowing_step hcapacity hstart hfull
  obtain ⟨j, rfl⟩ : ∃ j, fuel = k + (j + 1) := ⟨fuel - (k + 1), by omega⟩
  obtain ⟨f, i, hup⟩ := upcoming?_of_step hstep
  obtain ⟨below, hf, hi⟩ := upcoming?_eq_some hup
  -- Up to this step the two runs are the same; with it the first goes on and the second ends.
  have hwhole : m.run loader (k + (j + 1)) = next.run loader j := by
    rw [run_add hrun, run_succ_of_step hstep]
  obtain ⟨hnarrow, hexecuted⟩ :=
    run_within_of_overflowing_step hcapacity hrun hup hstopped hfits hstep hnext j
  obtain ⟨texts, htexts, hconsole⟩ := printed_of_runs (run_runs loader k m) hcapacity
  rw [hrun] at hconsole
  simp only at hconsole
  obtain ⟨text, htext, hafter⟩ := prints_of_overflowing_step hstopped hf hi hfits hstep hnext
  refine ⟨by rw [hnarrow], ?_, m.executed loader k, f, i, next.executed loader j, texts, text, ?_,
    hexecuted, htexts, htext, ?_, ?_⟩
  · rw [hnarrow, hwhole, take_of_run hnext]
    rfl
  · rw [executed_add hrun, executed_succ_of_step hup hstep]
  · rwa [← Console.printed_size, ← hconsole]
  · rwa [String.utf8ByteSize_append, ← Nat.add_assoc, ← Console.printed_size, ← hconsole,
      ← Console.printed_size, ← hafter]

end unlimited

theorem launch_of_boot (fuel : Nat) {booted : Machine} (h : boot loader m = (.ok (), booted)) :
    m.launch loader fuel = booted.run loader fuel ∧
      m.executedByStart loader fuel = booted.executed loader fuel := by
  rw [launch, executedByStart, h]
  exact ⟨rfl, rfl⟩

theorem launch_of_failed_boot (fuel : Nat) {booted : Machine} {e : RunError}
    (h : boot loader m = (.error e, booted)) :
    m.launch loader fuel = (some (.error e), booted) ∧ m.executedByStart loader fuel = [] := by
  rw [launch, executedByStart, h]
  exact ⟨rfl, rfl⟩

/-- With room for so many bytes a start prints what it prints without a limit, cut off there, and it ends
with the first print that does not fit. -/
theorem start_cut (loader : Loader) (mainClass : String) (maxDepth : Nat) (log : Log)
    (fuel room : Nat) :
    let whole := Machine.new mainClass maxDepth .unlimited log
    let narrow := Machine.new mainClass maxDepth (.limited room) log
    let output := (whole.start loader fuel).2.console.written
    (narrow.start loader fuel).2.console.written = output.take room ∧
    (output.size ≤ room → (narrow.start loader fuel).1 = (whole.start loader fuel).1 ∧
      narrow.executedByStart loader fuel = whole.executedByStart loader fuel) ∧
    (room < output.size → (narrow.start loader fuel).1 = some (.error (.output .full)) ∧
      ∃ before f i rest texts text,
        whole.executedByStart loader fuel = before ++ ⟨f, i, .ok ()⟩ :: rest ∧
        narrow.executedByStart loader fuel = before ++ [⟨f, i, .error (.output .full)⟩] ∧
        List.Forall₂ (fun done text => Prints done.frame done.instruction text)
          (before.filter Executed.hasPrinted) texts ∧
        Prints f i text ∧ (String.join texts).utf8ByteSize ≤ room ∧
        room < (String.join texts ++ text).utf8ByteSize) := by
  intro whole narrow output
  obtain ⟨hresult, hwritten⟩ := start_eq_launch loader fuel whole
  obtain ⟨hresult', hwritten'⟩ := start_eq_launch loader fuel narrow
  have hwhole : (whole.start loader fuel).1 = (whole.launch loader fuel).1 :=
    hresult.resolve_right fun h => nomatch h.1
  have hnarrow : (narrow.start loader fuel).1 = (narrow.launch loader fuel).1 :=
    hresult'.resolve_right fun h => nomatch h.1
  have hwithin : narrow = whole.within room := by
    simp [narrow, whole, within, withConsole, Machine.new, Console.limited, Console.within,
      Console.unlimited]
  have hboots : boot loader narrow =
      ((boot loader whole).1, (boot loader whole).2.within room) := by
    rw [hwithin, within, boot_withConsole, within, console_of_boot]
  have hconsole := console_of_boot loader whole
  simp only [output, hwritten, hwritten', hwhole, hnarrow]
  rcases hboot : boot loader whole with ⟨e | _, booted⟩
  all_goals rw [hboot] at hboots hconsole
  · obtain ⟨hlaunch, hexecuted⟩ := launch_of_failed_boot fuel hboot
    obtain ⟨hlaunch', hexecuted'⟩ := launch_of_failed_boot fuel hboots
    have hempty : booted.console.written = #[] := by rw [hconsole]; rfl
    rw [hlaunch, hlaunch', hexecuted, hexecuted']
    refine ⟨rfl, fun _ => ⟨rfl, rfl⟩, fun hfull => ?_⟩
    simp [hempty] at hfull
  · obtain ⟨hlaunch, hexecuted⟩ := launch_of_boot fuel hboot
    obtain ⟨hlaunch', hexecuted'⟩ := launch_of_boot fuel hboots
    have hcapacity : booted.console.capacity = none := by rw [hconsole]; rfl
    have hempty : booted.console.written = #[] := by rw [hconsole]; rfl
    rw [hlaunch, hlaunch', hexecuted, hexecuted']
    by_cases hfits : (booted.run loader fuel).2.console.written.size ≤ room
    · obtain ⟨hrun, hsame⟩ := run_within hcapacity hfits
      rw [hrun]
      exact ⟨rfl, fun _ => ⟨rfl, hsame⟩, fun hfull => absurd hfits (Nat.not_le_of_lt hfull)⟩
    · obtain ⟨hfails, htake, before, f, i, rest, texts, text, hcut⟩ :=
        run_cut hcapacity (by simp [hempty]) (Nat.lt_of_not_le hfits)
      rw [hempty] at hcut
      simp only [Array.size_empty, Nat.zero_add] at hcut
      exact ⟨htake, fun h => absurd h hfits, fun _ =>
        ⟨hfails, before, f, i, rest, texts, text, hcut⟩⟩

/-- The program prints `2` and the end of the line. With room for one byte there is no line. -/
example :
    let narrow := Machine.new "Factorial" 16 (.limited 1) (.empty .quiet)
    (narrow.start (Factorial.loader 2) 64).1 = some (.error (.output .full)) ∧
      (narrow.start (Factorial.loader 2) 64).2.console.written = #[50] := by
  decide +kernel

end Machine
end ClassVM
