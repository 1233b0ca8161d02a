import ClassVM.Proofs.Machine.Parallel
import ClassVM.Proofs.Machine.Reachable
import ClassVM.Proofs.Programs.Echo

namespace ClassVM

namespace Loader

/-- The loader gives one answer to all requests for a name; what it reports on the way may change. -/
def Steady (loader : Loader) : Prop :=
  ∀ earlier later name, (loader.find earlier name).answer = (loader.find later name).answer

theorem IsConstant.steady {loader : Loader} (h : loader.IsConstant) : loader.Steady :=
  fun earlier later name => congrArg Lookup.answer (h earlier later name)

/-- What loading a class comes to if it has to be asked for. -/
def resultOf (loader : Loader) (name : String) : Except RunError LoadedClass :=
  match (loader.find 0 (ClassName.internal name)).answer with
  | .error cause => .error (.malformed cause)
  | .ok none => .error (.classNotFound (ClassName.internal name))
  | .ok (some c) => .ok c

end Loader

variable {loader : Loader}

/-- It makes no difference whether a class has been loaded before. -/
theorem ClassStore.result_of_steady {store : ClassStore} (hloader : loader.Steady)
    (hstore : store.From loader) (name : String) :
    (store.load loader name).result = loader.resultOf name := by
  have hload := store.load_loads loader name
  generalize store.load loader name = loading at hload ⊢
  unfold Loader.resultOf
  cases hload with
  | known found hknown =>
    obtain ⟨request, hanswer⟩ := hstore.answer_of_find? hknown
    rw [hloader 0 request, hanswer]
  | malformed cause events hnew hanswer | missing events hnew hanswer
  | added found events hnew hanswer => rw [hloader 0 store.requests, hanswer]

namespace Console

/-- Everything printed fits, and flushing works. -/
def Unfailing (console : Console) : Prop :=
  console.capacity = none ∧ console.flushFails = false

variable {console : Console}

theorem Unfailing.write (h : console.Unfailing) (text : String) :
    Console.write text console =
      (.ok (), { console with written := console.written ++ text.toUTF8.data }) := by
  obtain ⟨written, _, _, flushes⟩ := console
  obtain ⟨rfl, rfl⟩ := h
  rfl

theorem Unfailing.flush (h : console.Unfailing) :
    Console.flush console = (.ok (), { console with flushes := console.flushes + 1 }) := by
  obtain ⟨written, _, _, flushes⟩ := console
  obtain ⟨rfl, rfl⟩ := h
  rfl

end Console

namespace Machine
open Exec

/-- The machines are at the same point of a run, the first with output from `before` it and perhaps
with more classes. -/
structure Resumes (loader : Loader) (before : Array UInt8) (m n : Machine) : Prop where
  mainClass : m.mainClass = n.mainClass
  calls : m.calls = n.calls
  store : m.store.From loader
  freshStore : n.store.From loader
  loaded : ∀ name c, n.store.find? name = some c → m.store.find? name = some c
  written : m.console.written = before ++ n.console.written
  unfailing : m.console.Unfailing
  freshUnfailing : n.console.Unfailing

variable {before : Array UInt8} {m n : Machine}

theorem Resumes.write (h : m.Resumes loader before n) (text : String) :
    SameOutcome (Resumes loader before) (onConsole (Console.write text) m)
      (onConsole (Console.write text) n) := by
  have hwritten : m.console.written ++ text.toUTF8.data =
      before ++ (n.console.written ++ text.toUTF8.data) := by
    rw [h.written, Array.append_assoc]
  rw [onConsole_eq, onConsole_eq, h.unfailing.write, h.freshUnfailing.write]
  exact ⟨_, _, _, rfl, rfl, { h with written := hwritten }⟩

theorem Resumes.flush (h : m.Resumes loader before n) :
    SameOutcome (Resumes loader before) (onConsole Console.flush m)
      (onConsole Console.flush n) := by
  rw [onConsole_eq, onConsole_eq, h.unfailing.flush, h.freshUnfailing.flush]
  exact ⟨_, _, _, rfl, rfl, { h with }⟩

theorem Resumes.load (hloader : loader.Steady) (h : m.Resumes loader before n) (name : String) :
    (m.store.load loader name).result = (n.store.load loader name).result ∧
      (m.loaded loader name).Resumes loader before (n.loaded loader name) := by
  have hresult : (m.store.load loader name).result = (n.store.load loader name).result := by
    rw [ClassStore.result_of_steady hloader h.store,
      ClassStore.result_of_steady hloader h.freshStore]
  refine ⟨hresult, { h with
    store := h.store.load name, freshStore := h.freshStore.load name, loaded := ?_ }⟩
  intro other c hc
  rcases ClassStore.find?_after_load hc with hold | ⟨hname, hnew⟩
  · exact ClassStore.find?_load (h.loaded other c hold) name
  · have hfound := ClassStore.find?_of_load (hresult.trans hnew)
    rw [ClassStore.find?, ← hname] at hfound
    exact hfound

theorem parallel_resumes (hloader : loader.Steady) (before : Array UInt8) :
    Parallel (Resumes loader before) (fun _ => False) (fun _ => True) loader loader where
  mainClass h := h.mainClass
  frames h := congrArg CallStack.frames h.calls
  limit h := .inl (congrArg CallStack.maxDepth h.calls)
  withFrames h frames := { h with calls := by simp only [Machine.withFrames, h.calls] }
  logged h _ := { h with }
  load h name _ := h.load hloader name
  write h text := h.write text
  flush h := h.flush
  closed _ _ _ _ _ := trivial

/-- The next start of a machine comes to what the start of a new one does, and prints the same after what
has been printed. -/
theorem start_again (hloader : loader.Steady) (h : Reachable loader m) (hsink : m.console.Unfailing)
    (log : Log) (fuel : Nat) :
    let again := m.start loader fuel
    let fresh := (Machine.new m.mainClass m.calls.maxDepth .unlimited log).start loader fuel
    again.1 = fresh.1 ∧ again.2.console.written = m.console.written ++ fresh.2.console.written ∧
      again.2.calls = fresh.2.calls ∧
      ∀ name c, fresh.2.store.find? name = some c → again.2.store.find? name = some c := by
  intro again fresh
  let new := Machine.new m.mainClass m.calls.maxDepth .unlimited log
  have hcleared : (m.withFrames []).Resumes loader m.console.written (new.withFrames []) := by
    refine ⟨rfl, rfl, h.store_from, ClassStore.from_empty loader, ?_, ?_, hsink, ⟨rfl, rfl⟩⟩
    · intro name c hc
      cases hc
    · exact Array.append_empty.symm
  rcases start_follows (parallel_resumes hloader m.console.written) fuel hcleared
    (ClassStore.from_empty loader) trivial with ⟨r, m', n', hm, hn, h'⟩ | ⟨e, -, hfalse⟩
  · have hagain : again = (r, m') := hm
    have hfresh : fresh = (r, n') := hn
    rw [hagain, hfresh]
    exact ⟨rfl, h'.written, h'.calls, h'.loaded⟩
  · exact hfalse.elim

/-- With one frame left from an overflow, `Echo` prints its two lines again and fails at its limit. -/
theorem start_again_echo :
    Echo.interrupted.calls.frames.length = 1 ∧ Echo.interrupted.console.written = #[10, 10] ∧
      (Echo.interrupted.start Echo.loader 10).1 = some (.error (.stackOverflow 2)) ∧
      (Echo.interrupted.start Echo.loader 10).2.console.written = #[10, 10] ++ #[10, 10] := by
  have hsteady : Echo.loader.Steady := Loader.IsConstant.steady fun _ _ _ => rfl
  have hreachable : Reachable Echo.loader Echo.interrupted := .run (.start (.new _ _ _ _) 10) 1
  have hsink : Echo.interrupted.console.Unfailing := ⟨by decide +kernel, by decide +kernel⟩
  have hagain := start_again hsteady hreachable hsink (.empty .quiet) 10
  have hmain : Echo.interrupted.mainClass = "Echo" := by decide +kernel
  have hlimit : Echo.interrupted.calls.maxDepth = 2 := by decide +kernel
  rw [hmain, hlimit] at hagain
  obtain ⟨hresult, hwritten, -⟩ := hagain
  refine ⟨by decide +kernel, by decide +kernel, hresult.trans ?_, hwritten.trans ?_⟩
  all_goals decide +kernel

end Machine
end ClassVM
