import ClassVM.Proofs.Machine.Output
import ClassVM.Proofs.Machine.Parallel
import ClassVM.Proofs.Programs.Echo
import ClassVM.Proofs.Programs.Factorial

namespace ClassVM.Machine
open Exec

/-- The machines are alike, but the second may go deeper. -/
structure Roomier (m n : Machine) : Prop where
  mainClass : m.mainClass = n.mainClass
  store : m.store = n.store
  frames : m.calls.frames = n.calls.frames
  limit : m.calls.maxDepth ≤ n.calls.maxDepth
  console : m.console = n.console
  log : m.log = n.log

/-- The error of a call for which there is no room. -/
def IsOverflow (e : RunError) : Prop := ∃ limit, e = .stackOverflow limit

variable {loader : Loader} {m n : Machine}

theorem Roomier.onConsole (h : Roomier m n) (x : Exec Console Unit) :
    SameOutcome Roomier (onConsole x m) (onConsole x n) := by
  rw [onConsole_eq, onConsole_eq, h.console]
  exact ⟨_, _, _, rfl, rfl, { h with console := rfl }⟩

theorem Roomier.withFrames (h : Roomier m n) (frames : List Frame) :
    Roomier (m.withFrames frames) (n.withFrames frames) :=
  { h with frames := rfl }

theorem parallel_roomier (loader : Loader) :
    Parallel Roomier IsOverflow (fun _ => True) loader loader where
  mainClass h := h.mainClass
  frames h := h.frames
  limit h := .inr ⟨h.limit, _, rfl⟩
  withFrames h frames := h.withFrames frames
  logged h e := { h with log := congrArg (·.record e) h.log }
  load {m n} h name _ := by
    refine ⟨by rw [h.store], { h with store := ?_, log := ?_ }⟩
    · simp only [loaded, h.store]
    · simp only [loaded, h.store, h.log]
  write h text := h.onConsole (Console.write text)
  flush h := h.onConsole Console.flush
  closed _ _ _ _ _ := trivial

/-- What is printed up to the overflow of the first machine stays printed in the second. -/
theorem grown_of_run_overflow {fuel later limit : Nat} {ended : Machine} (hlater : fuel ≤ later)
    (h : Roomier m n) (hserved : n.ServedBy loader)
    (hrun : m.run loader fuel = (some (.error (.stackOverflow limit)), ended)) :
    ended.console.Grown (n.run loader later).2.console := by
  induction fuel generalizing m n later with
  | zero => cases hrun
  | succ fuel ih =>
    obtain ⟨later, rfl⟩ : ∃ k, later = k + 1 := ⟨later - 1, by omega⟩
    rw [run] at hrun
    rcases hm : m.step loader with ⟨_ | e | _, m'⟩
    · rw [hm] at hrun
      cases hrun
    · rw [hm] at hrun
      cases hrun
      rw [console_of_overflow hm, h.console]
      exact grown_of_run loader _ n
    · rw [hm] at hrun
      rcases step_follows (parallel_roomier loader) h hserved with
        ⟨r, m'', n', hm'', hn, h'⟩ | ⟨e, he, -⟩
      · rw [hm] at hm''
        cases hm''
        rw [run_succ_of_step hn]
        exact ih (by omega) h' (hserved.step hn) hrun
      · rw [hm] at he
        cases he

theorem grown_of_launch_overflow {fuel later limit : Nat} (hlater : fuel ≤ later)
    (h : Roomier m n) (hstore : n.store.From loader)
    (hlaunch : (m.launch loader fuel).1 = some (.error (.stackOverflow limit))) :
    (m.launch loader fuel).2.console.Grown (n.launch loader later).2.console := by
  have hbooted := boot_follows (parallel_roomier loader) (h.withFrames []) trivial
  have hconsole := console_of_boot loader m
  rcases hm : boot loader m with ⟨e | _, m'⟩
  · -- Nothing has been printed when not even the first frame is allowed.
    have hgrown := grown_of_launch loader later n
    rw [hm] at hconsole
    rw [launch, hm]
    simp only at hconsole ⊢
    rwa [hconsole, h.console]
  · rcases hn : boot loader n with ⟨r, n'⟩
    rw [hm, hn] at hbooted
    rcases hbooted with ⟨_, s, t, hs, ht, h'⟩ | ⟨e, he, -⟩
    · cases hs
      cases ht
      rw [launch, hm] at hlaunch ⊢
      rw [launch, hn]
      exact grown_of_run_overflow hlater h' (servedBy_of_boot hstore hn) (Prod.ext hlaunch rfl)
    · cases he

/-- If the run with the lower limit ends without an overflow, the one with the higher limit comes to the
same; otherwise it prints whatever the first one has printed. -/
theorem start_mono_limit (loader : Loader) (mainClass : String) (console : Console) (log : Log)
    (limit roomier : Nat) (hlimit : limit ≤ roomier) (fuel : Nat) :
    let m := Machine.new mainClass limit console log
    let n := Machine.new mainClass roomier console log
    ((m.start loader fuel).1 = (m.launch loader fuel).1 ∨ console.flushFails = true ∧
      (m.start loader fuel).1 = some (.error (.output .flushFailed))) ∧
    (∀ result, (m.start loader fuel).1 = some result →
      (∀ depth, (m.launch loader fuel).1 ≠ some (.error (.stackOverflow depth))) →
      (n.start loader fuel).1 = some result ∧
        (n.start loader fuel).2.console = (m.start loader fuel).2.console ∧
        (n.start loader fuel).2.calls.frames = (m.start loader fuel).2.calls.frames) ∧
    ∀ depth, (m.launch loader fuel).1 = some (.error (.stackOverflow depth)) →
      ∀ later ≥ fuel, ∃ rest,
        (n.start loader later).2.console.written =
          (m.start loader fuel).2.console.written ++ rest := by
  intro m n
  have hroomier : Roomier m n := ⟨rfl, rfl, rfl, hlimit, rfl, rfl⟩
  have hstore : n.store.From loader := ClassStore.from_empty loader
  refine ⟨(start_eq_launch loader fuel m).1, ?_, ?_⟩
  · intro result hresult hended
    rcases start_follows (parallel_roomier loader) fuel (hroomier.withFrames []) hstore trivial with
      ⟨r, m', n', hm, hn, h'⟩ | ⟨e, he, depth, rfl⟩
    · rw [hm] at hresult ⊢
      rw [hn]
      exact ⟨hresult, h'.console.symm, h'.frames.symm⟩
    · exact absurd he (hended depth)
  · intro depth hoverflow later hlater
    have hgrown := grown_of_launch_overflow hlater hroomier hstore hoverflow
    rw [(start_eq_launch loader later n).2, (start_eq_launch loader fuel m).2]
    exact hgrown.written

/-- `Factorial` of 2 needs three frames and does as well with four. `Echo` with one frame prints one
line, which it prints also with two. -/
theorem start_mono_limit_programs :
    ((Machine.new "Factorial" 4 .unlimited (.empty .quiet)).start (Factorial.loader 2) 40).1 =
      some (.ok ()) ∧
    ∀ later ≥ 10, ∃ rest,
      ((Echo.machine 2 .unlimited).start Echo.loader later).2.console.written = #[10] ++ rest := by
  constructor
  · have hmono := start_mono_limit (Factorial.loader 2) "Factorial" .unlimited (.empty .quiet) 3 4
      (by decide) 40
    have hlaunch : ((Machine.new "Factorial" 3 .unlimited (.empty .quiet)).launch
        (Factorial.loader 2) 40).1 = some (.ok ()) := by decide +kernel
    refine (hmono.2.1 (.ok ()) (by decide +kernel) ?_).1
    intro depth hoverflow
    rw [hlaunch] at hoverflow
    cases hoverflow
  · have hmono := start_mono_limit Echo.loader "Echo" .unlimited (.empty .quiet) 1 2 (by decide) 10
    have hlaunch : ((Echo.machine 1 .unlimited).launch Echo.loader 10).1 =
        some (.error (.stackOverflow 1)) := by decide +kernel
    have hwritten : ((Echo.machine 1 .unlimited).start Echo.loader 10).2.console.written = #[10] := by
      decide +kernel
    rw [← hwritten]
    exact hmono.2.2 1 hlaunch

/-- If the console cannot be flushed, starts under two limits may come to the same error and yet print
differently: the error has taken the place of the overflow. -/
theorem flush_failure_hides_overflow :
    let console : Console := { Console.unlimited with flushFails := true }
    let low := (Echo.machine 1 console).start Echo.loader 10
    let high := (Echo.machine 2 console).start Echo.loader 10
    low.1 = some (.error (.output .flushFailed)) ∧ high.1 = some (.error (.output .flushFailed)) ∧
      low.2.console.written = #[10] ∧ high.2.console.written = #[10, 10] :=
  ⟨by decide +kernel, by decide +kernel, by decide +kernel, by decide +kernel⟩

end ClassVM.Machine
