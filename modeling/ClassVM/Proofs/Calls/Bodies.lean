import ClassVM.Proofs.Calls.Chain
import ClassVM.Proofs.Programs.Native

namespace ClassVM

theorem CallChain.body_isSome {store : ClassStore} {mainClass : String} {above below : List Frame}
    {g f : Frame} (h : CallChain store mainClass (above ++ g :: f :: below)) :
    g.method.body.isSome := by
  cases h.suffix with
  | call hcall hmethod hbody => exact hbody

namespace Machine
variable {loader : Loader} {m : Machine}

/-- If the main method has code, whatever the loader answers, all frames run code. -/
theorem Reachable.body_isSome (h : Reachable loader m)
    (hmain : ∀ request owner method,
      (loader.find request (ClassName.internal m.mainClass)).answer = .ok (some owner) →
      owner.method? "main" = some method → method.body.isSome) :
    ∀ f ∈ m.calls.frames, f.method.body.isSome := by
  obtain ⟨hchain, -⟩ := (chained_lasting loader).reachable h
  intro f hf
  obtain ⟨above, below, hframes⟩ := List.append_of_mem hf
  rw [hframes] at hchain
  cases hchain.suffix with
  | entry howner hmethod =>
    obtain ⟨request, hanswer⟩ := h.store_from.answer_of_find? howner
    exact hmain request f.owner f.method hanswer hmethod
  | call hcall hmethod hbody => exact hbody

theorem step_of_bodiless_call {f : Frame} {below : List Frame} {i : Instruction} {index : UInt16}
    {ref : MemberRef} {owner : LoadedClass} {method : Method} (hf : m.calls.frames = f :: below)
    (hi : f.next? = some i) (hop : i.op = .invokeStatic index)
    (href : f.owner.pool.methodRef index = .ok ref)
    (hload : (m.store.load loader ref.className).result = .ok owner)
    (hmethod : owner.findMethod? ref.name ref.descriptor = some method)
    (hbody : method.body = none) :
    (m.step loader).1 = some (.error (.unsupportedMethod ref)) ∧
      (m.step loader).2.calls.frames = f.advance :: below ∧
      (m.step loader).2.console = m.console := by
  rw [step_eq hf hi, Instruction.execute_invokeStatic hop, href]
  simp only
  rw [perform_call]
  have hload' : ((m.logged (.executing f.owner.name f.method.name i)).store.load loader
      ref.className).result = .ok owner := hload
  simp only [hload', hmethod, hbody]
  exact ⟨trivial, rfl, rfl⟩

theorem boot_ok {owner : LoadedClass} {method : Method}
    (hload : (m.store.load loader m.mainClass).result = .ok owner)
    (hmain : owner.method? "main" = some method) (hdepth : 0 < m.calls.maxDepth) :
    boot loader m = (.ok (), ((m.loaded loader m.mainClass).logged (.starting owner.name)).withFrames
      [.enter owner method []]) := by
  rw [boot_eq]
  simp only [hload, hmain, if_pos hdepth]
  rfl

/-- A limit of 0 leaves no room for the main method. -/
theorem start_without_room {owner : LoadedClass} {method : Method}
    (hload : (m.store.load loader m.mainClass).result = .ok owner)
    (hmain : owner.method? "main" = some method) (hdepth : m.calls.maxDepth = 0) (fuel : Nat) :
    (m.start loader fuel).1 = some (.error (.stackOverflow 0)) ∧
      (m.start loader fuel).2.console = m.console := by
  have hboot := boot_eq loader m
  simp only [hload, hmain, hdepth, Nat.lt_irrefl, if_false] at hboot
  rw [start, hboot]
  exact ⟨rfl, rfl⟩

theorem start_bodiless_main {owner : LoadedClass} {method : Method}
    (hload : (m.store.load loader m.mainClass).result = .ok owner)
    (hmain : owner.method? "main" = some method) (hbody : method.body = none)
    (hdepth : 0 < m.calls.maxDepth) (fuel : Nat) :
    (m.start loader (fuel + 1)).1 =
        some (if m.console.flushFails then .error (.output .flushFailed) else .ok ()) ∧
      (m.start loader (fuel + 1)).2.calls.frames = [.enter owner method []] ∧
      (m.start loader (fuel + 1)).2.console.written = m.console.written := by
  let entered := ((m.loaded loader m.mainClass).logged (.starting owner.name)).withFrames
    [.enter owner method []]
  have hnone : entered.fetch? = none := by
    have hnext : (Frame.enter owner method []).next? = none := by
      simp [Frame.next?, Frame.enter, Method.instructions, hbody]
    simp [fetch?_eq_none_iff, entered, hnext]
  have hrun : entered.run loader (fuel + 1) = (some (.ok ()), entered) := run_halted hnone fuel
  rw [start_of_run (boot_ok hload hmain hdepth) hrun]
  exact ⟨rfl, rfl, rfl⟩

/-- All frames above the lowest run code. A start of a main method without code succeeds and leaves its
frame behind. -/
theorem called_frames_have_code (loader : Loader) (m : Machine) :
    (Reachable loader m →
      (∀ above g f below, m.calls.frames = above ++ g :: f :: below → g.method.body.isSome) ∧
      ((∀ request owner method,
          (loader.find request (ClassName.internal m.mainClass)).answer = .ok (some owner) →
          owner.method? "main" = some method → method.body.isSome) →
        ∀ f ∈ m.calls.frames, f.method.body.isSome)) ∧
    (∀ f below i index ref owner method, m.calls.frames = f :: below → f.next? = some i →
      i.op = .invokeStatic index → f.owner.pool.methodRef index = .ok ref →
      (m.store.load loader ref.className).result = .ok owner →
      owner.findMethod? ref.name ref.descriptor = some method → method.body = none →
      (m.step loader).1 = some (.error (.unsupportedMethod ref)) ∧
        (m.step loader).2.calls.frames = f.advance :: below ∧
        (m.step loader).2.console = m.console) ∧
    ∀ owner method, (m.store.load loader m.mainClass).result = .ok owner →
      owner.method? "main" = some method → method.body = none → 0 < m.calls.maxDepth → ∀ fuel,
      (m.start loader (fuel + 1)).1 =
          some (if m.console.flushFails then .error (.output .flushFailed) else .ok ()) ∧
        (m.start loader (fuel + 1)).2.calls.frames = [.enter owner method []] ∧
        (m.start loader (fuel + 1)).2.console.written = m.console.written := by
  refine ⟨?_, ?_, ?_⟩
  · intro h
    refine ⟨?_, h.body_isSome⟩
    intro above g f below hframes
    have hchain := ((chained_lasting loader).reachable h).chain
    rw [hframes] at hchain
    exact hchain.body_isSome
  · intro f below i index ref owner method hf hi hop href hload hmethod hbody
    exact step_of_bodiless_call hf hi hop href hload hmethod hbody
  · intro owner method hload hmain hbody hdepth fuel
    exact start_bodiless_main hload hmain hbody hdepth fuel

/-- The frames of `Echo` at its limit, the call of `bare`, and a start of `Bodiless`. -/
theorem called_frames_have_code_native :
    (∀ f ∈ ((Echo.machine 2 .unlimited).start Echo.loader 10).2.calls.frames,
      f.method.body.isSome) ∧
    (((Native.machine "Caller").start Native.loader 0).2.step Native.loader).1 =
      some (.error (.unsupportedMethod Native.ref)) ∧
    ((Native.machine "Bodiless").start Native.loader 1).1 = some (.ok ()) := by
  refine ⟨?_, ?_, ?_⟩
  · have hecho := (called_frames_have_code Echo.loader
      ((Echo.machine 2 .unlimited).start Echo.loader 10).2).1 (.start (.new _ _ _ _) 10)
    apply hecho.2
    intro request owner method hanswer hmethod
    obtain rfl : owner = Echo.program :=
      congrArg Prod.snd (List.mem_singleton.mp (Loader.mem_of_answer hanswer))
    have hmain : Echo.program.method? "main" = some Echo.main := rfl
    rw [hmain] at hmethod
    cases hmethod
    rfl
  · let entered := (((Native.machine "Caller").loaded Native.loader "Caller").logged
      (.starting "Caller")).withFrames [.enter Native.caller Native.calling []]
    have hstarted : (Native.machine "Caller").start Native.loader 0 = (none, entered) := by
      rw [start, boot_ok Native.load_caller rfl (by decide)]
      rfl
    rw [hstarted]
    have hknown : entered.store.find? "Caller" = some Native.caller :=
      ClassStore.find?_of_load Native.load_caller
    have hcall := (called_frames_have_code Native.loader entered).2.1
    exact (hcall _ [] ⟨0, .ofByte 0xb8, .invokeStatic 6⟩ 6 Native.ref Native.caller
      (Native.withoutBody "bare") rfl rfl rfl rfl
      (congrArg Loading.result (ClassStore.load_known hknown Native.loader)) rfl rfl).1
  · have hstart := (called_frames_have_code Native.loader (Native.machine "Bodiless")).2.2
    exact (hstart Native.bodiless (Native.withoutBody "main") Native.load_bodiless rfl rfl (by decide)
      0).1

/-- A start may succeed although the only method that it enters has no code. -/
theorem start_ok_without_code :
    Reachable Native.loader ((Native.machine "Bodiless").start Native.loader 1).2 ∧
    ((Native.machine "Bodiless").start Native.loader 1).1 = some (.ok ()) ∧
    ((Native.machine "Bodiless").start Native.loader 1).2.console.written = #[] ∧
    ¬ ∀ f ∈ ((Native.machine "Bodiless").start Native.loader 1).2.calls.frames,
      f.method.body.isSome :=
  ⟨.start (.new _ _ _ _) 1, by decide +kernel, by decide +kernel, by decide +kernel⟩

end Machine
end ClassVM
