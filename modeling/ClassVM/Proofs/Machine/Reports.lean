import ClassVM.Proofs.Machine.Executed

namespace ClassVM

namespace Log

/-- The log is of a level that keeps the event. -/
def Keeps (log : Log) (e : Event) : Prop := e.level.rank ≤ log.level.rank

@[simp] theorem level_record (log : Log) (e : Event) : (log.record e).level = log.level := by
  rw [record]
  split <;> rfl

@[simp] theorem level_recordAll (log : Log) (events : List Event) :
    (log.recordAll events).level = log.level := by
  induction events generalizing log with
  | nil => rfl
  | cons e events ih => exact (ih (log.record e)).trans (level_record log e)

theorem recordAll_append (log : Log) (events more : List Event) :
    log.recordAll (events ++ more) = (log.recordAll events).recordAll more :=
  List.foldl_append

/-- Of events that the log keeps nothing is lost. -/
theorem filterMap_recordAll {α : Type} {see : Event → Option α} (log : Log)
    (hsee : ∀ e, see e ≠ none → log.Keeps e) (events : List Event) :
    (log.recordAll events).events.filterMap see =
      log.events.filterMap see ++ events.filterMap see := by
  induction events generalizing log with
  | nil => simp [recordAll]
  | cons e events ih =>
    have hrecord : (log.record e).events.filterMap see = log.events.filterMap see ++ (see e).toList := by
      rw [record]
      split
      next => cases h : see e <;> simp [Log.events, h]
      next hlost =>
        have hnone : see e = none := Classical.byContradiction fun hsome => hlost (hsee e hsome)
        simp [hnone]
    have hrest := ih (log.record e) (by simpa [Keeps] using hsee)
    calc ((log.record e).recordAll events).events.filterMap see
      _ = log.events.filterMap see ++ (see e).toList ++ events.filterMap see := by
        rw [hrest, hrecord]
      _ = log.events.filterMap see ++ (e :: events).filterMap see := by
        cases h : see e <;> simp [h]

end Log

/-- The method that instruction `i` of the frame calls, if it is a call and its reference resolves. -/
def Frame.callee? (f : Frame) (i : Instruction) : Option MemberRef :=
  match i.op with
  | .invokeStatic index => (f.owner.pool.methodRef index).toOption
  | _ => none

def Executed.callee? (done : Executed) : Option MemberRef := done.frame.callee? done.instruction

namespace Frame
variable {f : Frame} {i : Instruction} {ref : MemberRef}

theorem callee?_of_call {w w' : Workspace}
    (h : i.execute f.owner.pool w = (.ok (.call ref), w')) : f.callee? i = some ref := by
  obtain ⟨index, hop, href, -⟩ := Instruction.op_of_call h
  simp [callee?, hop, href, Except.toOption]

/-- What resolves is called, whatever there is on the stack. -/
theorem call_of_callee? (h : f.callee? i = some ref) (w : Workspace) :
    i.execute f.owner.pool w = (.ok (.call ref), w) := by
  unfold callee? at h
  split at h
  next index hop =>
    rw [Instruction.execute_invokeStatic hop]
    cases href : f.owner.pool.methodRef index with
    | error e =>
      rw [href] at h
      cases h
    | ok found =>
      rw [href] at h
      cases h
      rfl
  next => cases h

end Frame

namespace Machine
variable {loader : Loader} {m : Machine}

/-- What a step with instruction `i` of frame `f` can report besides the instruction. -/
inductive Reports (loader : Loader) (store : ClassStore) (f : Frame) (i : Instruction) :
    List Event → Prop where
  | nothing (hcallee : f.callee? i = none) : Reports loader store f i []
  /-- A call reports itself if it comes as far as having its arguments. -/
  | call (ref : MemberRef) (hcallee : f.callee? i = some ref) (rest : List Event)
    (hrest : rest = [] ∨ ∃ arguments, rest = [.invoking ref arguments]) :
    Reports loader store f i ((store.load loader ref.className).events ++ rest)
  | leave (hcallee : f.callee? i = none) (depth : Nat) :
    Reports loader store f i [.leaving f.owner.name f.method.name depth]

theorem log_of_call (loader : Loader) (m : Machine) (f : Frame) (below : List Frame)
    (ref : MemberRef) : ∃ rest, (rest = [] ∨ ∃ arguments, rest = [Event.invoking ref arguments]) ∧
      (perform loader (.call ref) (m.withFrames (f :: below))).2.log =
        m.log.recordAll ((m.store.load loader ref.className).events ++ rest) := by
  have hasked : (m.loaded loader ref.className).log =
      m.log.recordAll ((m.store.load loader ref.className).events ++ []) := by
    rw [List.append_nil]
    rfl
  rw [perform_call]
  cases (m.store.load loader ref.className).result with
  | error e => exact ⟨[], .inl rfl, hasked⟩
  | ok owner =>
    simp only
    cases owner.findMethod? ref.name ref.descriptor with
    | none => exact ⟨[], .inl rfl, hasked⟩
    | some method =>
      simp only
      cases method.body with
      | none => exact ⟨[], .inl rfl, hasked⟩
      | some body =>
        simp only
        by_cases hn : method.parameterCount ≤ f.workspace.stack.length
        · rw [if_pos hn]
          refine ⟨[.invoking ref (f.arguments method.parameterCount)], .inr ⟨_, rfl⟩, ?_⟩
          rw [Log.recordAll_append]
          split <;> rfl
        · rw [if_neg hn]
          exact ⟨[], .inl rfl, hasked⟩

theorem log_of_step {f : Frame} {below : List Frame} {i : Instruction}
    (hf : m.calls.frames = f :: below) (hi : f.next? = some i) (loader : Loader) :
    ∃ events, Reports loader m.store f i events ∧ (m.step loader).2.log =
      m.log.recordAll (.executing f.owner.name f.method.name i :: events) := by
  rw [step_eq hf hi]
  have hcallee : ∀ {control}, (i.execute f.owner.pool f.workspace).1 = .ok control →
      (∀ ref, control ≠ .call ref) → f.callee? i = none := by
    intro control hx hne
    cases h : f.callee? i with
    | none => rfl
    | some ref =>
      rw [Frame.call_of_callee? h] at hx
      exact absurd (Except.ok.inj hx).symm (hne ref)
  rcases hx : i.execute f.owner.pool f.workspace with ⟨e | control, w⟩
  · refine ⟨[], .nothing ?_, rfl⟩
    cases h : f.callee? i with
    | none => rfl
    | some ref =>
      rw [Frame.call_of_callee? h] at hx
      cases hx
  · rw [hx] at hcallee
    simp only
    cases control with
    | next => exact ⟨[], .nothing (hcallee rfl (by simp)), rfl⟩
    | print text => exact ⟨[], .nothing (hcallee rfl (by simp)), rfl⟩
    | jump target =>
      rw [perform_jump]
      refine ⟨[], .nothing (hcallee rfl (by simp)), ?_⟩
      cases f.method.indexOf? target <;> rfl
    | leave value =>
      rw [perform_leave]
      exact ⟨_, .leave (hcallee rfl (by simp)) below.length, rfl⟩
    | call ref =>
      obtain ⟨rest, hrest, hlog⟩ := log_of_call loader
        (m.logged (.executing f.owner.name f.method.name i))
        { f with workspace := w, cursor := f.cursor + 1 } below ref
      exact ⟨_, .call ref (Frame.callee?_of_call hx) rest hrest, hlog⟩

/-- Starting reports what comes of loading the main class, and itself if there is a main method. -/
theorem log_of_boot (loader : Loader) (m : Machine) :
    ∃ rest, (rest = [] ∨ ∃ name, rest = [Event.starting name]) ∧ (boot loader m).2.log =
      m.log.recordAll ((m.store.load loader m.mainClass).events ++ rest) := by
  have hasked : (m.loaded loader m.mainClass).log =
      m.log.recordAll ((m.store.load loader m.mainClass).events ++ []) := by
    rw [List.append_nil]
    rfl
  rw [boot_eq]
  cases (m.store.load loader m.mainClass).result with
  | error e => exact ⟨[], .inl rfl, hasked⟩
  | ok owner =>
    simp only
    cases owner.method? "main" with
    | none => exact ⟨[], .inl rfl, hasked⟩
    | some method =>
      refine ⟨[.starting owner.name], .inr ⟨_, rfl⟩, ?_⟩
      rw [Log.recordAll_append]
      simp only
      split <;> rfl

end Machine
end ClassVM
