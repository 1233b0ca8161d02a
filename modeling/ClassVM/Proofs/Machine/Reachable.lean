import ClassVM.Proofs.Machine.Origin
import ClassVM.Proofs.Machine.Run

namespace ClassVM.Machine

/-- A machine that has been started, has gone on and has been given other limits, any number of times
in any order and whatever came of it. A start or a run may be left midway, after any step. -/
inductive Reachable (loader : Loader) : Machine → Prop where
  | new (mainClass : String) (maxDepth : Nat) (console : Console) (log : Log) :
    Reachable loader (.new mainClass maxDepth console log)
  | withDepth {m : Machine} (h : Reachable loader m) (maxDepth : Nat) :
    Reachable loader (m.withDepth maxDepth)
  | start {m : Machine} (h : Reachable loader m) (fuel : Nat) :
    Reachable loader (m.start loader fuel).2
  | run {m : Machine} (h : Reachable loader m) (fuel : Nat) : Reachable loader (m.run loader fuel).2

/-- What every new machine has, and nothing that a machine does takes away. -/
structure Lasting (loader : Loader) (Holds : Machine → Prop) : Prop where
  new : ∀ mainClass maxDepth console log, Holds (.new mainClass maxDepth console log)
  withDepth : ∀ m maxDepth, Holds m → Holds (m.withDepth maxDepth)
  boot : ∀ m, Holds m → Holds (boot loader m).2
  step : ∀ m, Holds m → Holds (m.step loader).2
  flush : ∀ m, Holds m → Holds (onConsole Console.flush m).2

variable {loader : Loader} {Holds : Machine → Prop}

theorem Lasting.start (h : Lasting loader Holds) (fuel : Nat) (m : Machine) (hm : Holds m) :
    Holds (m.start loader fuel).2 := by
  have hboot := h.boot m hm
  rw [Machine.start]
  rcases hb : Machine.boot loader m with ⟨e | _, booted⟩
  · rwa [hb] at hboot
  · rw [hb] at hboot
    have hrun := run_keeps h.step fuel booted hboot
    rcases hr : booted.run loader fuel with ⟨_ | result, ended⟩
    · rw [hr] at hrun
      simp only [hr]
      exact hrun
    · rw [hr] at hrun
      simp only [hr, finish_eq]
      exact h.flush ended hrun

theorem Lasting.reachable (h : Lasting loader Holds) {m : Machine} (hm : Reachable loader m) :
    Holds m := by
  induction hm with
  | new mainClass maxDepth console log => exact h.new mainClass maxDepth console log
  | withDepth _ maxDepth ih => exact h.withDepth _ maxDepth ih
  | start _ fuel ih => exact h.start fuel _ ih
  | run _ fuel ih => exact run_keeps h.step fuel _ ih

/-- All that is ever loaded has come from the loader. -/
theorem Reachable.store_from {m : Machine} (h : Reachable loader m) : m.store.From loader := by
  have hlasting : Lasting loader fun m => m.store.From loader := by
    constructor
    case new => exact fun _ _ _ _ => ClassStore.from_empty loader
    case withDepth => exact fun _ _ h => h
    case flush => exact fun _ h => h
    case boot =>
      intro m h
      obtain ⟨frames, log, hboot⟩ := after_boot loader m
      rw [hboot]
      exact h.load m.mainClass
    case step =>
      intro m h
      rcases store_of_step loader m with hsame | ⟨name, hload⟩
      · rw [hsame]
        exact h
      · rw [hload]
        exact h.load name
  exact hlasting.reachable h

end ClassVM.Machine
