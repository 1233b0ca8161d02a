import Mathlib.Data.DFinsupp.WellFounded
import ClassVM.Proofs.Calls.Chain
import ClassVM.Proofs.Programs.Factorial

namespace ClassVM

/-- Every branch of every method that the loader can give goes to an offset behind its own. -/
def Loader.BranchesForward (loader : Loader) : Prop :=
  ∀ c, loader.Gives c → ∀ method ∈ c.methods, ∀ i ∈ method.instructions,
    ∀ target ∈ i.op.target?, i.pc < target

namespace Frame

/-- The number of instructions that the cursor has not passed yet. -/
def remaining (f : Frame) : Nat := f.method.instructions.size - f.cursor

theorem GoesTo.lt {f : Frame} {i : Instruction} {cursor : Nat} (h : f.GoesTo i cursor)
    (hi : f.next? = some i) (hforward : ∀ target ∈ i.op.target?, i.pc < target) :
    f.cursor < cursor := by
  rcases h with rfl | ⟨target, htarget, hindex⟩
  · exact Nat.lt_succ_self _
  · obtain ⟨j, hj, rfl⟩ := (f.method.indexOf?_eq_some_iff target cursor).mp hindex
    exact f.method.position_lt hi hj (hforward j.pc htarget)

end Frame

namespace Machine

/-- At every depth below the limit, the lowest first: 0 if there is no frame, and otherwise one more
than the number of instructions that the frame has before it. -/
def ahead (limit : Nat) (frames : List Frame) (depth : Fin limit) : Nat :=
  ((frames.map Frame.remaining).reverse[depth.val]?.map (· + 1)).getD 0

/-- The lowest depth at which two stacks differ decides between them. -/
def Shorter (limit : Nat) (frames others : List Frame) : Prop :=
  Pi.Lex (· < ·) (· < ·) (ahead limit frames) (ahead limit others)

theorem shorter_wellFounded (limit : Nat) : WellFounded (Shorter limit) :=
  InvImage.wf (ahead limit) (Pi.Lex.wellFounded (· < ·) fun _ => Nat.lt_wfRel.wf)

section ahead
variable {limit : Nat} {f g : Frame} (above : List Frame) {below : List Frame}

theorem ahead_of_below {depth : Fin limit} (h : depth.val < below.length) :
    ahead limit (above ++ below) depth = ahead limit below depth := by
  have hlt : depth.val < ((below.map Frame.remaining).reverse).length := by simpa using h
  simp only [ahead, List.map_append, List.reverse_append, List.getElem?_append_left hlt]

theorem ahead_of_frame (h : below.length < limit) :
    ahead limit (above ++ f :: below) ⟨below.length, h⟩ = f.remaining + 1 := by
  simp [ahead]

theorem ahead_of_none (h : below.length < limit) : ahead limit below ⟨below.length, h⟩ = 0 := by
  simp [ahead]

theorem ahead_resume (value : Option Value) :
    ahead limit (resume below value) = ahead limit below := by
  cases value with
  | none => rfl
  | some v => cases below <;> rfl

/-- What is above a frame that has moved on does not matter. -/
theorem shorter_of_remaining (hlimit : below.length < limit) (h : g.remaining < f.remaining) :
    Shorter limit (above ++ g :: below) (f :: below) := by
  refine ⟨⟨below.length, hlimit⟩, ?_, ?_⟩
  · intro depth hdepth
    have hleft : ahead limit (above ++ [g] ++ below) depth = ahead limit below depth :=
      ahead_of_below (above ++ [g]) hdepth
    have hright : ahead limit ([f] ++ below) depth = ahead limit below depth :=
      ahead_of_below [f] hdepth
    rw [List.append_assoc] at hleft
    exact hleft.trans hright.symm
  · have hright : ahead limit ([] ++ f :: below) ⟨below.length, hlimit⟩ = f.remaining + 1 :=
      ahead_of_frame [] hlimit
    rw [List.nil_append] at hright
    rw [ahead_of_frame above hlimit, hright]
    omega

theorem shorter_of_leave (hlimit : below.length < limit) (value : Option Value) :
    Shorter limit (resume below value) (f :: below) := by
  refine ⟨⟨below.length, hlimit⟩, ?_, ?_⟩
  · intro depth hdepth
    rw [ahead_resume]
    exact (ahead_of_below [f] hdepth).symm
  · have hright : ahead limit ([] ++ f :: below) ⟨below.length, hlimit⟩ = f.remaining + 1 :=
      ahead_of_frame [] hlimit
    rw [List.nil_append] at hright
    rw [ahead_resume, ahead_of_none hlimit, hright]
    exact Nat.succ_pos _

end ahead

/-- Whatever an instruction does, it brings the end nearer. A call adds a frame of any length, but it
takes one instruction from the frame below. -/
theorem FrameMove.shorter {limit : Nat} {store : ClassStore} {f : Frame} {i : Instruction}
    {below frames : List Frame} (h : FrameMove limit store f i below frames)
    (hi : f.next? = some i) (hlimit : below.length < limit)
    (hforward : ∀ target ∈ i.op.target?, i.pc < target) :
    Shorter limit frames (f :: below) := by
  have hcursor := Frame.cursor_lt hi
  cases h with
  | stay w cursor hroom hend hto =>
    have hlt := hto.lt hi hforward
    apply shorter_of_remaining [] hlimit
    simp only [Frame.remaining]
    omega
  | call index ref owner method =>
    apply shorter_of_remaining [_] hlimit
    simp only [Frame.remaining, Frame.withoutArguments, Frame.advance]
    omega
  | leave value => exact shorter_of_leave hlimit value

variable {loader : Loader} {m : Machine}

theorem Reachable.step (h : Reachable loader m) : Reachable loader (m.step loader).2 := by
  have hone : (m.run loader 1).2 = (m.step loader).2 := by
    rw [Machine.run]
    rcases m.step loader with ⟨_ | _ | _, next⟩ <;> rfl
  exact hone ▸ h.run 1

theorem Reachable.boot (h : Reachable loader m) : Reachable loader (boot loader m).2 := by
  have hzero : (m.start loader 0).2 = (Machine.boot loader m).2 := by
    rw [Machine.start]
    rcases Machine.boot loader m with ⟨_ | _, booted⟩ <;> rfl
  exact hzero ▸ h.start 0

theorem Reachable.forward (h : Reachable loader m) (hforward : loader.BranchesForward) {f : Frame}
    {below : List Frame} {i : Instruction} (hf : m.calls.frames = f :: below)
    (hi : f.next? = some i) : ∀ target ∈ i.op.target?, i.pc < target := by
  have hchain := ((chained_lasting loader).reachable h).chain
  rw [hf] at hchain
  obtain ⟨⟨name, howner⟩, hmethod, -⟩ := hchain.own
  obtain ⟨request, hanswer⟩ := h.store_from.answer_of_find? howner
  exact hforward f.owner ⟨request, _, hanswer⟩ f.method hmethod i (Array.mem_of_getElem? hi)

theorem Reachable.step_shorter (h : Reachable loader m) (hforward : loader.BranchesForward)
    {result : Except RunError Unit} {next : Machine} (hs : m.step loader = (some result, next)) :
    Shorter m.calls.maxDepth next.calls.frames m.calls.frames := by
  rcases halted_or_next loader m with hnone | ⟨f, below, i, hf, hi⟩
  · rw [hnone] at hs
    cases hs
  · have hdepth := ((chained_lasting loader).reachable h).depth
    have hmove := frameMove_of_step loader hf hi
    rw [hf] at hdepth ⊢
    rw [hs] at hmove
    exact hmove.shorter hi hdepth (h.forward hforward hf hi)

/-- A run comes to an end, and more steps would not change it. -/
theorem Reachable.run_ends (h : Reachable loader m) (hforward : loader.BranchesForward) :
    ∃ fuel result ended, ∀ later ≥ fuel, m.run loader later = (some result, ended) := by
  obtain ⟨limit, hlimit⟩ : ∃ limit, m.calls.maxDepth = limit := ⟨_, rfl⟩
  have hwf := InvImage.wf (fun m : Machine => m.calls.frames) (shorter_wellFounded limit)
  induction m using hwf.induction with | _ m ih
  have hsucc : ∀ later ≥ 1, ∃ k, later = k + 1 := fun later => Nat.exists_eq_add_of_le'
  rcases hs : m.step loader with ⟨_ | e | _, next⟩
  · refine ⟨1, .ok (), next, ?_⟩
    intro later hlater
    obtain ⟨k, rfl⟩ := hsucc later hlater
    rw [Machine.run, hs]
  · refine ⟨1, .error e, next, ?_⟩
    intro later hlater
    obtain ⟨k, rfl⟩ := hsucc later hlater
    rw [Machine.run, hs]
  · have hshorter := h.step_shorter hforward hs
    have hnext := h.step
    have hkept := (step_keeps loader m).2
    rw [hs] at hnext hkept
    rw [hlimit] at hshorter hkept
    obtain ⟨fuel, result, ended, hrun⟩ := ih next hshorter hnext hkept
    refine ⟨fuel + 1, result, ended, ?_⟩
    intro later hlater
    obtain ⟨k, rfl⟩ := hsucc later (by omega)
    rw [run_succ_of_step hs]
    exact hrun k (by omega)

/-- Every start of a program without backward branches comes to an end. -/
theorem start_ends (hforward : loader.BranchesForward) (h : Reachable loader m) :
    ∃ fuel result ended, ∀ later ≥ fuel, m.start loader later = (some result, ended) := by
  have hbooted := h.boot
  simp only [start]
  rcases hboot : Machine.boot loader m with ⟨e | _, booted⟩
  · exact ⟨0, .error e, booted, fun _ _ => rfl⟩
  · rw [hboot] at hbooted
    obtain ⟨fuel, result, ended, hrun⟩ := hbooted.run_ends hforward
    refine ⟨fuel, (finish result ended).1, (finish result ended).2, ?_⟩
    intro later hlater
    simp only [hrun later hlater]

/-- `factorial(0)` calls itself for ever smaller numbers, but no deeper than the limit. -/
theorem start_ends_factorial :
    let m := Machine.new "Factorial" defaultDepth .unlimited (.empty .quiet)
    (Factorial.loader 0).BranchesForward ∧ Reachable (Factorial.loader 0) m ∧
      ∃ fuel result ended, ∀ later ≥ fuel,
        m.start (Factorial.loader 0) later = (some result, ended) := by
  intro m
  have hforward : (Factorial.loader 0).BranchesForward := by
    rintro c ⟨request, name, hanswer⟩
    obtain rfl : c = Factorial.program 0 :=
      congrArg Prod.snd (List.mem_singleton.mp (Loader.mem_of_answer hanswer))
    have hmethods : ∀ method ∈ (Factorial.program 0).methods, ∀ i ∈ method.instructions.toList,
        ∀ target ∈ i.op.target?, i.pc < target := by decide
    intro method hmethod i hi
    exact hmethods method hmethod i (Array.mem_def.mp hi)
  have hnew : Reachable (Factorial.loader 0) m := .new _ _ _ _
  exact ⟨hforward, hnew, start_ends hforward hnew⟩

end Machine
end ClassVM
