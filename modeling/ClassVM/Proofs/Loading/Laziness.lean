import ClassVM.Proofs.Machine.Alike
import ClassVM.Proofs.Machine.Reports
import ClassVM.Proofs.Programs.Factorial

namespace ClassVM

/-- The loader with the same answers that reports every request and nothing else. -/
def Loader.tapped (loader : Loader) : Loader where
  find request name := ⟨[.found name ""], (loader.find request name).answer⟩

namespace Event

/-- The class that a tapped loader has been asked for. -/
def requested? : Event → Option String
  | found name _ => some name
  | _ => none

/-- The class that has been asked for, loaded already or not. -/
def asked? : Event → Option String
  | found name _ | alreadyLoaded name => some name
  | _ => none

theorem asked?_of_requested? {e : Event} (h : e.requested? ≠ none) : e.asked? ≠ none := by
  cases e with
  | found => simp [asked?]
  | _ => exact absurd rfl h

end Event

/-- The class, by internal name, that an executed instruction calls a method of. -/
def Executed.calledClass? (done : Executed) : Option String :=
  done.callee?.map fun ref => ClassName.internal ref.className

namespace ClassStore

/-- A tapped loader is asked once for a class that is not loaded, and not at all for one that is. -/
theorem events_of_tapped (loader : Loader) (store : ClassStore) (name : String) :
    let internal := ClassName.internal name
    (store.isLoaded name = true ∧
      (store.load loader.tapped name).events = [.alreadyLoaded internal]) ∨
    (store.isLoaded name = false ∧ ∃ rest, (rest = [] ∨ rest = [.loaded internal]) ∧
      (store.load loader.tapped name).events = .found internal "" :: rest) := by
  unfold isLoaded find? load
  simp only
  cases store.loaded.lookup (ClassName.internal name) with
  | some found => exact .inl ⟨rfl, rfl⟩
  | none =>
    simp only [Loader.tapped]
    refine .inr ⟨rfl, ?_⟩
    rcases (loader.find store.requests (ClassName.internal name)).answer with e | _ | found
    · exact ⟨[], .inl rfl, rfl⟩
    · exact ⟨[], .inl rfl, rfl⟩
    · exact ⟨_, .inr rfl, rfl⟩

theorem requested_of_load (loader : Loader) (store : ClassStore) (name : String) :
    (store.load loader.tapped name).events.filterMap Event.requested? =
      if store.isLoaded name then [] else [ClassName.internal name] := by
  rcases store.events_of_tapped loader name with ⟨hloaded, hevents⟩ | ⟨hnew, rest, hrest, hevents⟩
  · rw [hloaded, hevents]
    rfl
  · rw [hnew, hevents]
    rcases hrest with rfl | rfl <;> rfl

theorem asked_of_load (loader : Loader) (store : ClassStore) (name : String) :
    (store.load loader.tapped name).events.filterMap Event.asked? = [ClassName.internal name] := by
  rcases store.events_of_tapped loader name with ⟨hloaded, hevents⟩ | ⟨hnew, rest, hrest, hevents⟩
  · rw [hevents]
    rfl
  · rw [hevents]
    rcases hrest with rfl | rfl <;> rfl

end ClassStore

namespace Machine

/-- The machine with a log that keeps what is reported of classes, and is empty. -/
def listening (m : Machine) : Machine := { m with log := .empty .calls }

/-- The internal names that the loader is asked for when the machine is started. -/
def requestedNames (loader : Loader) (fuel : Nat) (m : Machine) : List String :=
  (m.listening.start loader.tapped fuel).2.log.events.filterMap Event.requested?

/-- The internal names of all classes that are asked for, those that are loaded already included. -/
def askedNames (loader : Loader) (fuel : Nat) (m : Machine) : List String :=
  (m.listening.start loader.tapped fuel).2.log.events.filterMap Event.asked?

variable {loader other : Loader} {m n : Machine}

section heard
variable {see : Event → Option String} (hsee : ∀ e, see e ≠ none → e.asked? ≠ none)
include hsee

theorem keeps_of_see {log : Log} (hlevel : log.level = .calls) (e : Event) (h : see e ≠ none) :
    log.Keeps e := by
  have hasked := hsee e h
  cases e <;> first
    | exact absurd rfl hasked
    | simp [Log.Keeps, Event.level, hlevel]

theorem see_eq_none {e : Event} (h : e.asked? = none) : see e = none :=
  Classical.byContradiction fun hsome => hsee e hsome h

/-- Of classes a step reports what comes of loading the class that it calls a method of. -/
theorem heard_of_step {f : Frame} {below : List Frame} {i : Instruction}
    (hlevel : n.log.level = .calls) (hf : n.calls.frames = f :: below) (hi : f.next? = some i)
    (loader : Loader) :
    (n.step loader).2.log.events.filterMap see = n.log.events.filterMap see ++
      match f.callee? i with
      | none => []
      | some ref => (n.store.load loader ref.className).events.filterMap see := by
  obtain ⟨events, hreports, hlog⟩ := log_of_step hf hi loader
  rw [hlog, Log.filterMap_recordAll _ (keeps_of_see hsee hlevel),
    List.filterMap_cons_none (see_eq_none hsee rfl)]
  congr 1
  cases hreports with
  | nothing hcallee => simp only [hcallee, List.filterMap_nil]
  | leave hcallee depth =>
    simp only [hcallee]
    exact List.filterMap_cons_none (see_eq_none hsee rfl)
  | call ref hcallee rest hrest =>
    have hnone : rest.filterMap see = [] := by
      rcases hrest with rfl | ⟨arguments, rfl⟩
      · rfl
      · exact List.filterMap_cons_none (see_eq_none hsee rfl)
    simp only [hcallee, List.filterMap_append, hnone, List.append_nil]

theorem heard_of_boot (hlevel : n.log.level = .calls) (loader : Loader) :
    (boot loader n).2.log.events.filterMap see =
      n.log.events.filterMap see ++ (n.store.load loader n.mainClass).events.filterMap see := by
  obtain ⟨rest, hrest, hlog⟩ := log_of_boot loader n
  have hnone : rest.filterMap see = [] := by
    rcases hrest with rfl | ⟨name, rfl⟩
    · rfl
    · exact List.filterMap_cons_none (see_eq_none hsee rfl)
  rw [hlog, Log.filterMap_recordAll _ (keeps_of_see hsee hlevel), List.filterMap_append, hnone,
    List.append_nil]

end heard

theorem level_of_step (loader : Loader) (n : Machine) : (n.step loader).2.log.level = n.log.level := by
  rcases halted_or_next loader n with hnone | ⟨f, below, i, hf, hi⟩
  · rw [hnone]
  · obtain ⟨events, -, hlog⟩ := log_of_step hf hi loader
    rw [hlog, Log.level_recordAll]

theorem level_of_boot (loader : Loader) (n : Machine) : (boot loader n).2.log.level = n.log.level := by
  obtain ⟨rest, -, hlog⟩ := log_of_boot loader n
  rw [hlog, Log.level_recordAll]

/-- What has been asked for stays in the log. -/
theorem requested_subset_run (hlevel : n.log.level = .calls) (loader : Loader) (fuel : Nat) :
    n.log.events.filterMap Event.requested? ⊆
      (n.run loader fuel).2.log.events.filterMap Event.requested? := by
  have hstep : ∀ now : Machine, now.log.level = .calls ∧ n.log.events.filterMap Event.requested? ⊆
        now.log.events.filterMap Event.requested? →
      (now.step loader).2.log.level = .calls ∧ n.log.events.filterMap Event.requested? ⊆
        (now.step loader).2.log.events.filterMap Event.requested? := by
    rintro now ⟨hnow, hsubset⟩
    refine ⟨(level_of_step loader now).trans hnow, ?_⟩
    rcases halted_or_next loader now with hnone | ⟨f, below, i, hf, hi⟩
    · rw [hnone]
      exact hsubset
    · rw [heard_of_step (fun _ => Event.asked?_of_requested?) hnow hf hi loader]
      exact List.subset_append_of_subset_left _ hsubset
  exact (run_keeps hstep fuel n ⟨hlevel, fun _ h => h⟩).2

/-- Loaders that answer what the next instruction asks for alike make the same step. -/
theorem step_congr {f : Frame} {below : List Frame} {i : Instruction}
    (hf : m.calls.frames = f :: below) (hi : f.next? = some i)
    (h : ∀ ref, f.callee? i = some ref → m.store.find? ref.className = none →
      loader.find m.store.requests (ClassName.internal ref.className) =
        other.find m.store.requests (ClassName.internal ref.className)) :
    m.step loader = m.step other := by
  rw [step_eq hf hi, step_eq hf hi]
  rcases hx : i.execute f.owner.pool f.workspace with ⟨e | control, w⟩
  · rfl
  · cases control with
    | call ref =>
      have hload : (m.logged (.executing f.owner.name f.method.name i)).store.load loader
          ref.className = m.store.load other ref.className :=
        ClassStore.load_congr (h ref (Frame.callee?_of_call hx))
      simp only [perform_call, loaded, hload]
      rfl
    | next | jump | print | leave => rfl

theorem boot_congr (h : m.store.find? m.mainClass = none →
      loader.find m.store.requests (ClassName.internal m.mainClass) =
        other.find m.store.requests (ClassName.internal m.mainClass)) :
    boot loader m = boot other m := by
  have hload : m.store.load loader m.mainClass = m.store.load other m.mainClass :=
    ClassStore.load_congr h
  simp only [boot_eq, loaded, hload]

/-- Machines that differ in their logs only stay together if the loader of one of them is tapped. -/
theorem parallel_tapped (loader : Loader) :
    Parallel (Alike fun _ _ => True) (fun _ => False) (fun _ => True) loader loader.tapped :=
  parallel_alike (fun _ _ _ _ => trivial)
    ⟨fun _ _ _ => rfl, fun _ _ _ _ _ _ => trivial, fun _ _ _ _ _ => trivial⟩

theorem step_tapped (h : m.Alike (fun _ _ => True) n) (loader : Loader) :
    Exec.SameOutcome (Alike fun _ _ => True) (m.step loader) (n.step loader.tapped) := by
  rcases step_follows_of_asked (parallel_tapped loader) h (fun _ _ _ _ _ => trivial) with
    hsame | ⟨e, -, hfalse⟩
  · exact hsame
  · exact hfalse.elim

theorem boot_tapped (m : Machine) (loader : Loader) :
    Exec.SameOutcome (Alike fun _ _ => True) (boot loader m) (boot loader.tapped m.listening) := by
  have hcleared : (m.withFrames []).Alike (fun _ _ => True) (m.listening.withFrames []) :=
    ⟨rfl, rfl, rfl, rfl, trivial⟩
  have hboot := boot_follows (parallel_tapped loader) hcleared trivial
  rcases hm : boot loader m with ⟨r, m'⟩
  rcases hn : boot loader.tapped m.listening with ⟨r', n'⟩
  rw [hm, hn] at hboot
  rcases hboot with ⟨booted, s, t, hs, ht, h⟩ | ⟨e, -, hfalse⟩
  · cases hs
    cases ht
    exact ⟨r, m', n', rfl, rfl, h⟩
  · exact hfalse.elim

theorem run_tapped (h : m.Alike (fun _ _ => True) n) (loader : Loader) (fuel : Nat) :
    Exec.SameOutcome (Alike fun _ _ => True) (m.run loader fuel) (n.run loader.tapped fuel) := by
  induction fuel generalizing m n with
  | zero => exact ⟨none, m, n, rfl, rfl, h⟩
  | succ fuel ih =>
    obtain ⟨r, m', n', hm, hn, h'⟩ := step_tapped h loader
    rw [run, run, hm, hn]
    rcases r with _ | e | _
    · exact ⟨_, m', n', rfl, rfl, h'⟩
    · exact ⟨_, m', n', rfl, rfl, h'⟩
    · exact ih h'

/-- Listening at the loader does not change a start. -/
theorem start_tapped (loader : Loader) (fuel : Nat) (m : Machine) :
    Exec.SameOutcome (Alike fun _ _ => True) (m.start loader fuel)
      (m.listening.start loader.tapped fuel) := by
  obtain ⟨r, m', n', hm, hn, h'⟩ := boot_tapped m loader
  rw [start, start, hm, hn]
  rcases r with e | _
  · exact ⟨_, m', n', rfl, rfl, h'⟩
  · obtain ⟨ended, m'', n'', hm, hn, h''⟩ := run_tapped h' loader fuel
    simp only [hm, hn]
    cases ended with
    | none => exact ⟨_, m'', n'', rfl, rfl, h''⟩
    | some result => exact finish_follows (parallel_tapped loader) h'' result

theorem executed_tapped (h : m.Alike (fun _ _ => True) n) (loader : Loader) (fuel : Nat) :
    n.executed loader.tapped fuel = m.executed loader fuel := by
  induction fuel generalizing m n with
  | zero => rfl
  | succ fuel ih =>
    have hupcoming : n.upcoming? = m.upcoming? := by simp only [upcoming?, h.calls]
    obtain ⟨r, m', n', hm, hn, h'⟩ := step_tapped h loader
    rw [executed, executed, hupcoming, hm, hn]
    rcases r with _ | e | _
    · rfl
    · rfl
    · simp only [ih h']

/-- By induction on the steps: the answer to what a step asks for is one of those that are the same,
as the request of the tapped machine stays in the log to the end. -/
theorem run_congr (h : m.Alike (fun _ _ => True) n) (hlevel : n.log.level = .calls) (fuel : Nat)
    (hagree : ∀ name ∈ (n.run loader.tapped fuel).2.log.events.filterMap Event.requested?,
      ∀ request, loader.find request name = other.find request name) :
    m.run loader fuel = m.run other fuel := by
  induction fuel generalizing m n with
  | zero => rfl
  | succ fuel ih =>
    obtain ⟨r, m', n', hm, hn, h'⟩ := step_tapped h loader
    have hlevel' : n'.log.level = .calls := by
      have hlog := level_of_step loader.tapped n
      rw [hn] at hlog
      exact hlog.trans hlevel
    have hstep : m.step loader = m.step other := by
      rcases halted_or_next loader m with hnone | ⟨f, below, i, hf, hi⟩
      · obtain ⟨hhalted, -⟩ := halted_of_step hnone
        rw [step_halted hhalted, step_halted hhalted]
      · refine step_congr hf hi fun ref hcallee hnew => hagree _ ?_ _
        have hheard := heard_of_step (fun _ => Event.asked?_of_requested?) hlevel
          ((congrArg CallStack.frames h.calls).symm.trans hf) hi loader.tapped
        have hunknown : n.store.isLoaded ref.className = false := by
          rw [← h.store, ClassStore.isLoaded, hnew]
          rfl
        simp only [hcallee, ClassStore.requested_of_load, hunknown, hn] at hheard
        have hmem : ClassName.internal ref.className ∈ n'.log.events.filterMap Event.requested? := by
          simp [hheard]
        rw [run, hn]
        rcases r with _ | e | _
        · exact hmem
        · exact hmem
        · exact requested_subset_run hlevel' loader.tapped fuel hmem
    rw [run, run, ← hstep, hm]
    rcases r with _ | e | _
    · rfl
    · rfl
    · rw [run_succ_of_step hn] at hagree
      exact ih h' hlevel' hagree

/-- Asking goes with the instructions, one class for every call that they execute. -/
theorem asked_of_runs {done : List Executed} {result : Option (Except RunError Unit)} {ended : Machine}
    (hruns : Runs loader.tapped n done result ended) (hlevel : n.log.level = .calls) :
    ended.log.events.filterMap Event.asked? =
      n.log.events.filterMap Event.asked? ++ done.filterMap Executed.calledClass? := by
  have hheard : ∀ {now next : Machine} {f below i r}, now.log.level = .calls →
      now.calls.frames = f :: below → f.next? = some i → now.step loader.tapped = (some r, next) →
      next.log.events.filterMap Event.asked? = now.log.events.filterMap Event.asked? ++
        (Executed.calledClass? ⟨f, i, r⟩).toList := by
    intro now next f below i r hnow hf hi hstep
    have hstepped := heard_of_step (fun _ => id) hnow hf hi loader.tapped
    rw [hstep] at hstepped
    rw [hstepped, Executed.calledClass?, Executed.callee?]
    cases f.callee? i with
    | none => rfl
    | some ref => simp only [ClassStore.asked_of_load, Option.map_some, Option.toList_some]
  induction hruns with
  | going m => simp
  | halted hm => simp
  | failed hf hi hstep =>
    rw [hheard hlevel hf hi hstep, List.filterMap_cons]
    cases Executed.calledClass? _ <;> rfl
  | @step now next ended f below i rest result hf hi hstep hrest ih =>
    have hlog := level_of_step loader.tapped now
    rw [hstep] at hlog
    rw [ih (hlog.trans hlevel), hheard hlevel hf hi hstep, List.append_assoc, List.filterMap_cons]
    cases Executed.calledClass? _ <;> rfl

theorem log_of_start {booted : Machine} (hboot : boot loader m = (.ok (), booted)) (fuel : Nat) :
    (m.start loader fuel).2.log = (booted.run loader fuel).2.log := by
  rw [start, hboot]
  simp only
  rcases booted.run loader fuel with ⟨_ | result, ended⟩
  · rfl
  · simp only [finish_eq]

theorem start_congr (fuel : Nat) (hagree : ∀ name ∈ m.requestedNames loader fuel, ∀ request,
      loader.find request name = other.find request name) :
    m.start loader fuel = m.start other fuel := by
  obtain ⟨r, m', n', hm, hn, h'⟩ := boot_tapped m loader
  have hlevel : n'.log.level = .calls := by
    have hlog := level_of_boot loader.tapped m.listening
    rwa [hn] at hlog
  have hstays : n'.log.events.filterMap Event.requested? ⊆ m.requestedNames loader fuel := by
    rcases r with e | _
    · rw [requestedNames, start, hn]
      exact fun _ h => h
    · rw [requestedNames, log_of_start hn]
      exact requested_subset_run hlevel loader.tapped fuel
  have hboot : boot loader m = boot other m := by
    refine boot_congr fun hnew => hagree _ (hstays ?_) _
    have hheard := heard_of_boot (fun _ => Event.asked?_of_requested?) (n := m.listening) rfl
      loader.tapped
    have hunknown : m.listening.store.isLoaded m.listening.mainClass = false := by
      have hnone : m.listening.store.find? m.listening.mainClass = none := hnew
      rw [ClassStore.isLoaded, hnone]
      rfl
    rw [ClassStore.requested_of_load, hunknown, hn] at hheard
    rw [hheard]
    exact List.mem_append_right _ List.mem_cons_self
  rw [start, start, ← hboot, hm]
  rcases r with e | _
  · rfl
  · rw [requestedNames, log_of_start hn] at hagree
    simp only [run_congr h' hlevel fuel hagree]

theorem asked_of_start (loader : Loader) (fuel : Nat) (m : Machine) :
    m.askedNames loader fuel = ClassName.internal m.mainClass ::
      (m.executedByStart loader fuel).filterMap Executed.calledClass? := by
  have hheard := heard_of_boot (fun _ => id) (n := m.listening) rfl loader.tapped
  have hlevel := level_of_boot loader.tapped m.listening
  obtain ⟨r, m', n', hm, hn, h'⟩ := boot_tapped m loader
  rw [ClassStore.asked_of_load, hn] at hheard
  rw [hn] at hlevel
  rcases r with e | _
  · rw [askedNames, start, executedByStart, hn, hm]
    exact hheard
  · have hruns := asked_of_runs (run_runs loader.tapped fuel n') hlevel
    rw [askedNames, log_of_start hn, hruns, hheard, executed_tapped h' loader fuel, executedByStart, hm]
    rfl

theorem requested_subset_asked (loader : Loader) (fuel : Nat) (m : Machine) :
    m.requestedNames loader fuel ⊆ m.askedNames loader fuel := by
  intro name hname
  obtain ⟨e, he, hrequested⟩ := List.mem_filterMap.mp hname
  refine List.mem_filterMap.mpr ⟨e, he, ?_⟩
  cases e with
  | found => exact hrequested
  | _ => cases hrequested

/-- A start depends on its loader only by the definitions, with the bytes of their code, that it gives for
the main class and for the classes of the calls that are executed. -/
theorem loads_on_demand (loader : Loader) (fuel : Nat) (m : Machine) :
    (∀ other : Loader, (∀ name ∈ m.requestedNames loader fuel, ∀ request,
      loader.find request name = other.find request name) →
        m.start loader fuel = m.start other fuel) ∧
    (∀ classes others : List (String × LoadedClass),
      (∀ name ∈ m.requestedNames (.ofClasses classes) fuel, classes.lookup name = others.lookup name) →
        m.start (.ofClasses classes) fuel = m.start (.ofClasses others) fuel) ∧
    m.askedNames loader fuel = ClassName.internal m.mainClass ::
      (m.executedByStart loader fuel).filterMap Executed.calledClass? ∧
    m.requestedNames loader fuel ⊆ m.askedNames loader fuel ∧
    Exec.SameOutcome (Alike fun _ _ => True) (m.start loader fuel)
      (m.listening.start loader.tapped fuel) := by
  refine ⟨fun other => start_congr fuel, ?_, asked_of_start loader fuel m,
    requested_subset_asked loader fuel m, start_tapped loader fuel m⟩
  intro classes others hagree
  apply start_congr
  intro name hname request
  simp only [Loader.ofClasses, hagree name hname]

/-- A loader that has the factorial program, and says of all other classes that they are malformed. -/
def factorialOnly (n : Int32) : Loader where
  find _ name :=
    ⟨[], if name = "Factorial" then .ok (some (Factorial.program n)) else .error (.badMagic 0)⟩

/-- The factorial of two asks for its class three times, the loader is asked once, and so what it has
besides does not matter. -/
theorem loads_on_demand_factorial :
    let m := Machine.new "Factorial" defaultDepth .unlimited (.empty .calls)
    (∀ name ∈ m.requestedNames (Factorial.loader 2) 60, ∀ request,
      (Factorial.loader 2).find request name = (factorialOnly 2).find request name) ∧
    m.start (Factorial.loader 2) 60 = m.start (factorialOnly 2) 60 ∧
    m.askedNames (Factorial.loader 2) 60 = ["Factorial", "Factorial", "Factorial"] ∧
    (m.start (Factorial.loader 2) 60).1 = some (.ok ()) := by
  intro m
  have hnames : m.requestedNames (Factorial.loader 2) 60 = ["Factorial"] := by decide +kernel
  have hagree : ∀ name ∈ m.requestedNames (Factorial.loader 2) 60, ∀ request,
      (Factorial.loader 2).find request name = (factorialOnly 2).find request name := by
    intro name hname request
    rw [hnames] at hname
    cases List.mem_singleton.mp hname
    rfl
  obtain ⟨hsame, -, hasked, -⟩ := loads_on_demand (Factorial.loader 2) 60 m
  exact ⟨hagree, hsame (factorialOnly 2) hagree, hasked.trans (by decide +kernel), by decide +kernel⟩

end Machine
end ClassVM
