import ClassVM.Proofs.Machine.Parallel

namespace ClassVM

/-- Recording one event in each of two logs that are the same up to something leaves them so. -/
def Log.Congruent (same : Log → Log → Prop) : Prop :=
  ∀ log log', same log log' → ∀ e, same (log.record e) (log'.record e)

theorem Log.Congruent.recordAll {same : Log → Log → Prop} (hsame : Congruent same) {log log' : Log}
    (h : same log log') (events : List Event) :
    same (log.recordAll events) (log'.recordAll events) := by
  induction events generalizing log log' with
  | nil => exact h
  | cons e events ih => exact ih (hsame log log' h e)

/-- The loaders give the same answers to what is asked, and what they report keeps logs the same. A
class that they give does not make the program ask for more. -/
structure Loader.Alike (same : Log → Log → Prop) (asked : String → Prop) (loader other : Loader) :
    Prop where
  answer : ∀ request name, asked name →
    (loader.find request name).answer = (other.find request name).answer
  events : ∀ request name, asked name → ∀ log log', same log log' →
    same (log.recordAll (loader.find request name).events)
      (log'.recordAll (other.find request name).events)
  closed : ∀ c, other.Gives c → ∀ index ref, c.pool.methodRef index = .ok ref →
    asked (ClassName.internal ref.className)

theorem ClassStore.load_alike {same : Log → Log → Prop} {asked : String → Prop}
    (hsame : Log.Congruent same) {loader other : Loader} (hloader : loader.Alike same asked other)
    {name : String} (hname : asked (ClassName.internal name)) (store : ClassStore) :
    (store.load loader name).result = (store.load other name).result ∧
      (store.load loader name).store = (store.load other name).store ∧
      ∀ log log', same log log' → same (log.recordAll (store.load loader name).events)
        (log'.recordAll (store.load other name).events) := by
  unfold load
  simp only
  cases hknown : store.loaded.lookup (ClassName.internal name) with
  | some found => exact ⟨rfl, rfl, fun log log' h => hsame.recordAll h _⟩
  | none =>
    have hevents := hloader.events store.requests (ClassName.internal name) hname
    simp only [hloader.answer store.requests (ClassName.internal name) hname]
    cases (other.find store.requests (ClassName.internal name)).answer with
    | error e => exact ⟨rfl, rfl, hevents⟩
    | ok answer =>
      cases answer with
      | none => exact ⟨rfl, rfl, hevents⟩
      | some found =>
        refine ⟨rfl, rfl, ?_⟩
        intro log log' h
        simp only [Log.recordAll, List.foldl_append]
        exact hsame.recordAll (hevents log log' h) _

namespace Machine
open Exec

/-- The machines differ in their logs only, and these are the same up to something. -/
structure Alike (same : Log → Log → Prop) (m n : Machine) : Prop where
  mainClass : m.mainClass = n.mainClass
  store : m.store = n.store
  calls : m.calls = n.calls
  console : m.console = n.console
  log : same m.log n.log

variable {same : Log → Log → Prop} {asked : String → Prop} {loader other : Loader} {m n : Machine}

theorem Alike.onConsole (h : m.Alike same n) (x : Exec Console Unit) :
    SameOutcome (Alike same) (onConsole x m) (onConsole x n) := by
  obtain ⟨mainClass, store, calls, console, log⟩ := m
  obtain ⟨_, _, _, _, log'⟩ := n
  obtain ⟨rfl, rfl, rfl, rfl, hlog⟩ := h
  exact ⟨_, _, _, rfl, rfl, rfl, rfl, rfl, rfl, hlog⟩

theorem Alike.withFrames (h : m.Alike same n) (frames : List Frame) :
    (m.withFrames frames).Alike same (n.withFrames frames) := by
  refine ⟨h.mainClass, h.store, ?_, h.console, h.log⟩
  simp only [Machine.withFrames, h.calls]

theorem parallel_alike (hsame : Log.Congruent same) (hloader : loader.Alike same asked other) :
    Parallel (Alike same) (fun _ => False) asked loader other where
  mainClass h := h.mainClass
  frames h := congrArg CallStack.frames h.calls
  limit h := .inl (congrArg CallStack.maxDepth h.calls)
  withFrames h frames := h.withFrames frames
  logged h e := ⟨h.mainClass, h.store, h.calls, h.console, hsame _ _ h.log e⟩
  load {m n} h name hname := by
    obtain ⟨hresult, hstore, hevents⟩ := n.store.load_alike hsame hloader hname
    refine ⟨by rw [h.store]; exact hresult, h.mainClass, ?_, h.calls, h.console, ?_⟩
    · simp only [loaded, h.store]
      exact hstore
    · simp only [loaded, h.store]
      exact hevents _ _ h.log
  write h text := h.onConsole (Console.write text)
  flush h := h.onConsole Console.flush
  closed := hloader.closed

theorem start_alike (hsame : Log.Congruent same) (hloader : loader.Alike same asked other)
    (fuel : Nat) (h : m.Alike same n) (hstore : n.store.From other)
    (hmain : asked (ClassName.internal n.mainClass)) :
    SameOutcome (Alike same) (m.start loader fuel) (n.start other fuel) := by
  rcases start_follows (parallel_alike hsame hloader) fuel (h.withFrames []) hstore hmain with
    hsame | ⟨e, -, hfalse⟩
  · exact hsame
  · exact hfalse.elim

end Machine
end ClassVM
