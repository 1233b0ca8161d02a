import ClassVM.Proofs.Machine.Origin
import ClassVM.Proofs.Machine.Run

namespace ClassVM

/-- One answer, with related states. -/
def Exec.SameOutcome {σ α : Type} (R : σ → σ → Prop) (p q : α × σ) : Prop :=
  ∃ a s t, p = (a, s) ∧ q = (a, t) ∧ R s t

theorem Exec.SameOutcome.map {σ α β : Type} {R : σ → σ → Prop} {p q : α × σ}
    (h : SameOutcome R p q) (f : α → β) : SameOutcome R (f p.1, p.2) (f q.1, q.2) := by
  obtain ⟨a, s, t, rfl, rfl, h⟩ := h
  exact ⟨f a, s, t, rfl, rfl, h⟩

namespace Machine
open Exec

/-- Related machines have the same frames, and all effects keep them related, for a program that asks
only for names in `asked`. The second may allow more frames if that is excused. -/
structure Parallel (R : Machine → Machine → Prop) (Excused : RunError → Prop)
    (asked : String → Prop) (loader other : Loader) : Prop where
  mainClass : ∀ {m n}, R m n → m.mainClass = n.mainClass
  frames : ∀ {m n}, R m n → m.calls.frames = n.calls.frames
  limit : ∀ {m n}, R m n → m.calls.maxDepth = n.calls.maxDepth ∨
    m.calls.maxDepth ≤ n.calls.maxDepth ∧ Excused (.stackOverflow m.calls.maxDepth)
  withFrames : ∀ {m n}, R m n → ∀ frames, R (m.withFrames frames) (n.withFrames frames)
  logged : ∀ {m n}, R m n → ∀ e, R (m.logged e) (n.logged e)
  load : ∀ {m n}, R m n → ∀ {name}, asked (ClassName.internal name) →
    (m.store.load loader name).result = (n.store.load other name).result ∧
      R (m.loaded loader name) (n.loaded other name)
  write : ∀ {m n}, R m n → ∀ text,
    SameOutcome R (onConsole (Console.write text) m) (onConsole (Console.write text) n)
  flush : ∀ {m n}, R m n → SameOutcome R (onConsole Console.flush m) (onConsole Console.flush n)
  closed : ∀ c, other.Gives c → ∀ index ref, c.pool.methodRef index = .ok ref →
    asked (ClassName.internal ref.className)

/-- The same outcome for both machines, or an excused error of the first. -/
def Follows (R : Machine → Machine → Prop) (Excused : RunError → Prop)
    (p q : Option (Except RunError Unit) × Machine) : Prop :=
  SameOutcome R p q ∨ ∃ e, p.1 = some (.error e) ∧ Excused e

variable {R : Machine → Machine → Prop} {Excused : RunError → Prop} {asked : String → Prop}
variable {loader other : Loader} {m n : Machine}

theorem Follows.of_related (r : Option (Except RunError Unit)) (h : R m n) :
    Follows R Excused (r, m) (r, n) :=
  .inl ⟨r, m, n, rfl, rfl, h⟩

theorem follows_push (P : Parallel R Excused asked loader other) (h : R m n) (g : Frame)
    (frames : List Frame) :
    let push (m : Machine) := onCalls (CallStack.push g) (m.withFrames frames)
    Follows R Excused (some (push m).1, (push m).2) (some (push n).1, (push n).2) := by
  simp only [onCalls_push]
  by_cases hm : frames.length < m.calls.maxDepth
  · have hn : frames.length < n.calls.maxDepth := by
      rcases P.limit h with heq | ⟨hle, -⟩ <;> omega
    rw [if_pos hm, if_pos hn]
    exact .of_related _ (P.withFrames h _)
  · rw [if_neg hm]
    rcases P.limit h with heq | ⟨-, hexcused⟩
    · rw [← heq, if_neg hm]
      exact .of_related _ (P.withFrames h _)
    · exact .inr ⟨_, rfl, hexcused⟩

theorem perform_follows (P : Parallel R Excused asked loader other) (h : R m n) (f : Frame)
    (below : List Frame) {control : Control}
    (hcall : ∀ ref, control = .call ref → asked (ClassName.internal ref.className)) :
    let left := perform loader control (m.withFrames (f :: below))
    let right := perform other control (n.withFrames (f :: below))
    Follows R Excused (some left.1, left.2) (some right.1, right.2) := by
  cases control with
  | next => exact .of_related _ (P.withFrames h _)
  | print text => exact .inl ((P.write (P.withFrames h _) text).map some)
  | jump target =>
    simp only [perform_jump]
    cases f.method.indexOf? target <;> exact .of_related _ (P.withFrames h _)
  | leave value =>
    simp only [perform_leave]
    exact .of_related _ (P.withFrames (P.logged h _) _)
  | call ref =>
    obtain ⟨hresult, hloaded⟩ := P.load h (hcall ref rfl)
    simp only [perform_call, ← hresult]
    cases (m.store.load loader ref.className).result with
    | error e => exact .of_related _ (P.withFrames hloaded _)
    | ok owner =>
      simp only
      cases owner.findMethod? ref.name ref.descriptor with
      | none => exact .of_related _ (P.withFrames hloaded _)
      | some method =>
        simp only
        cases method.body with
        | none => exact .of_related _ (P.withFrames hloaded _)
        | some body =>
          simp only
          by_cases hn : method.parameterCount ≤ f.workspace.stack.length
          · rw [if_pos hn, if_pos hn]
            have hpush := follows_push P
              (P.logged hloaded (.invoking ref (f.arguments method.parameterCount)))
              (.enter owner method (f.arguments method.parameterCount))
              (f.withoutArguments method.parameterCount :: below)
            simp only [onCalls_push] at hpush
            exact hpush
          · rw [if_neg hn, if_neg hn]
            exact .of_related _ (P.withFrames hloaded _)

/-- A step needs the answers to what the class of its own frame can ask for. -/
theorem step_follows_of_asked (P : Parallel R Excused asked loader other) (h : R m n)
    (hasked : ∀ f ∈ n.calls.frames, ∀ index ref, f.owner.pool.methodRef index = .ok ref →
      asked (ClassName.internal ref.className)) :
    Follows R Excused (m.step loader) (n.step other) := by
  have hframes := P.frames h
  have hhalted : n.fetch? = none → m.fetch? = none := by
    rw [fetch?_eq_none_iff, fetch?_eq_none_iff, hframes]
    exact id
  rcases halted_or_next other n with hnone | ⟨f, below, i, hf, hi⟩
  · obtain ⟨hfetch, -⟩ := halted_of_step hnone
    rw [hnone, step_halted (hhalted hfetch)]
    exact .of_related none h
  · rw [step_eq hf hi, step_eq (hframes.trans hf) hi]
    have hlogged := P.logged h (.executing f.owner.name f.method.name i)
    rcases hx : i.execute f.owner.pool f.workspace with ⟨e | control, w⟩
    · exact .of_related _ (P.withFrames hlogged _)
    · apply perform_follows P hlogged
      rintro ref rfl
      obtain ⟨index, -, href, -⟩ := Instruction.op_of_call hx
      exact hasked f (by simp [hf]) index ref href

theorem step_follows (P : Parallel R Excused asked loader other) (h : R m n)
    (hserved : n.ServedBy other) : Follows R Excused (m.step loader) (n.step other) :=
  step_follows_of_asked P h fun f hf => P.closed f.owner (hserved.owners f hf)

theorem run_follows (P : Parallel R Excused asked loader other) (fuel : Nat) (h : R m n)
    (hserved : n.ServedBy other) : Follows R Excused (m.run loader fuel) (n.run other fuel) := by
  induction fuel generalizing m n with
  | zero => exact .of_related none h
  | succ fuel ih =>
    rw [run, run]
    rcases step_follows P h hserved with ⟨r, m', n', hm, hn, h'⟩ | ⟨e, he, hexcused⟩
    · rw [hm, hn]
      rcases r with _ | e | _
      · exact .of_related _ h'
      · exact .of_related _ h'
      · exact ih h' (hserved.step hn)
    · obtain ⟨m', hm⟩ : ∃ m', m.step loader = (some (.error e), m') := ⟨_, Prod.ext he rfl⟩
      rw [hm]
      exact .inr ⟨e, rfl, hexcused⟩

/-- Starting drops all frames, so it needs related machines only when they have none. -/
theorem boot_follows (P : Parallel R Excused asked loader other)
    (h : R (m.withFrames []) (n.withFrames [])) (hmain : asked (ClassName.internal n.mainClass)) :
    Follows R Excused (some (boot loader m).1, (boot loader m).2)
      (some (boot other n).1, (boot other n).2) := by
  have hname : (m.withFrames []).mainClass = (n.withFrames []).mainClass := P.mainClass h
  rw [withFrames_mainClass, withFrames_mainClass] at hname
  obtain ⟨hresult, hloaded⟩ := P.load h hmain
  change (m.store.load loader n.mainClass).result = (n.store.load other n.mainClass).result
    at hresult
  simp only [boot_eq, hname, ← hresult]
  cases (m.store.load loader n.mainClass).result with
  | error e => exact .of_related _ hloaded
  | ok owner =>
    simp only
    cases owner.method? "main" with
    | none => exact .of_related _ hloaded
    | some method =>
      have hpush := follows_push P (P.logged hloaded (.starting owner.name))
        (.enter owner method []) []
      simp only [onCalls_push] at hpush
      exact hpush

theorem finish_follows (P : Parallel R Excused asked loader other) (h : R m n)
    (result : Except RunError Unit) :
    SameOutcome R (some (finish result m).1, (finish result m).2)
      (some (finish result n).1, (finish result n).2) := by
  obtain ⟨flushed, m', n', hm, hn, h'⟩ := P.flush h
  rw [finish, finish, hm, hn]
  cases flushed with
  | error e => exact ⟨_, m', n', rfl, rfl, h'⟩
  | ok _ => exact ⟨_, m', n', rfl, rfl, h'⟩

/-- An excused error counts also when a failure to flush has taken its place. -/
theorem start_follows (P : Parallel R Excused asked loader other) (fuel : Nat)
    (h : R (m.withFrames []) (n.withFrames [])) (hstore : n.store.From other)
    (hmain : asked (ClassName.internal n.mainClass)) :
    SameOutcome R (m.start loader fuel) (n.start other fuel) ∨
      ∃ e, (m.launch loader fuel).1 = some (.error e) ∧ Excused e := by
  rw [start, start, launch]
  have hboot := boot_follows P h hmain
  rcases hm : boot loader m with ⟨r, m'⟩
  rcases hn : boot other n with ⟨r', n'⟩
  rw [hm, hn] at hboot
  rcases hboot with ⟨booted, s, t, hs, ht, h'⟩ | ⟨e, he, hexcused⟩
  · cases hs
    cases ht
    cases r with
    | error e => exact .inl ⟨_, m', n', rfl, rfl, h'⟩
    | ok _ =>
      simp only
      rcases run_follows P fuel h' (servedBy_of_boot hstore hn) with
        ⟨ended, m'', n'', hm, hn, h''⟩ | hexcused
      · rw [hm, hn]
        cases ended with
        | none => exact .inl ⟨_, m'', n'', rfl, rfl, h''⟩
        | some result => exact .inl (finish_follows P h'' result)
      · exact .inr hexcused
  · obtain rfl : r = .error e := Option.some.inj he
    exact .inr ⟨e, rfl, hexcused⟩

end Machine
end ClassVM
