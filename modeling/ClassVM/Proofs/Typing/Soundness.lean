import ClassVM.Proofs.Loading.Store
import ClassVM.Proofs.Machine.Output
import ClassVM.Proofs.Programs.FactorialTyping
import ClassVM.Proofs.Typing.Frames

namespace ClassVM

theorem Method.body_isSome {method : Method} (h : 0 < method.instructions.size) :
    method.body.isSome := by
  unfold instructions at h
  cases hbody : method.body with
  | none => simp [hbody] at h
  | some body => rfl

/-- The errors that a well-typed program can still end with. -/
inductive Unavoidable (maxDepth : Nat) : RunError → Prop where
  | divisionByZero : Unavoidable maxDepth .divisionByZero
  | stackOverflow : Unavoidable maxDepth (.stackOverflow maxDepth)
  | output (fault : ConsoleFault) : Unavoidable maxDepth (.output fault)

/-- The invariant of a run that may go `maxDepth` calls deep. -/
structure Machine.Suits (loader : Loader) (typings : LoadedClass → Method → Typing)
    (mainClass : String) (maxDepth : Nat) (m : Machine) : Prop where
  frames : Suited loader typings mainClass m.calls.frames
  store : m.store.From loader
  depth : m.calls.maxDepth = maxDepth

/-- What an instruction and all that it causes may come to. -/
def Machine.Continues (loader : Loader) (typings : LoadedClass → Method → Typing)
    (mainClass : String) (maxDepth : Nat) : Except RunError Unit × Machine → Prop
  | (.error e, _) => Unavoidable maxDepth e
  | (.ok (), m) => m.Suits loader typings mainClass maxDepth

namespace Machine
variable {loader : Loader} {typings : LoadedClass → Method → Typing} {mainClass : String}
variable {maxDepth : Nat} {m : Machine} {f : Frame} {below : List Frame} {w : Workspace}

theorem continues_call (hp : WellTyped loader typings mainClass)
    (hstore : m.store.From loader) (hdepth : m.calls.maxDepth = maxDepth)
    (hinv : Invocable loader mainClass f.owner f.method) {i : Instruction} {index : UInt16}
    {ref : MemberRef} (hi : i ∈ f.method.instructions) (hop : i.op = .invokeStatic index)
    (href : f.owner.pool.methodRef index = .ok ref) {t : Shape}
    (hw : w.HasShape f.method.maxLocals.toNat t)
    (hcalls : Calls loader typings f.owner f.method f.cursor t ref)
    (hbelow : Waiting loader typings mainClass (typings f.owner f.method).result below) :
    Continues loader typings mainClass maxDepth
      (perform loader (.call ref)
        (m.withFrames ({ f with workspace := w, cursor := f.cursor + 1 } :: below))) := by
  have hfind : ∀ request, ∃ c,
      (loader.find request (ClassName.internal ref.className)).answer = .ok (some c) := by
    intro request
    obtain ⟨callee, _, hanswer, _⟩ := hcalls request
    exact ⟨callee, hanswer⟩
  obtain ⟨callee, hload⟩ := ClassStore.load_ok m.store hfind
  have hfrom := hstore.load ref.className
  obtain ⟨request, hanswer⟩ := hstore.answer_of_load hload
  obtain ⟨callee', called, hanswer', hnamed, hcode, hn, hargs, hfalls⟩ := hcalls request
  rw [hanswer] at hanswer'
  cases hanswer'
  obtain ⟨body, hbody⟩ := Option.isSome_iff_exists.mp hcode
  have hlen : called.parameterCount ≤ w.stack.length := by
    rw [← List.length_map Value.kind, hw.stack]
    exact hn
  rw [perform_call]
  simp only [hload, hnamed, hbody]
  rw [if_pos hlen]
  split
  · have hcallee := Invocable.call hinv hi hop href hanswer hnamed hcode
    exact ⟨suited_call hp hinv hcallee hw hargs hfalls hbelow, hfrom, hdepth⟩
  · rw [hdepth]
    exact .stackOverflow

theorem continues_print (h : m.Suits loader typings mainClass maxDepth) (text : String) :
    Continues loader typings mainClass maxDepth (perform loader (.print text) m) := by
  rw [perform_print]
  cases hwrite : (Console.write text m.console).1 with
  | error e =>
    obtain ⟨fault, rfl⟩ := output_of_write hwrite
    exact .output fault
  | ok _ => exact ⟨h.frames, h.store, h.depth⟩

/-- An instruction has done with the values of its frame what the rules promise; now it does what it
asks for. -/
theorem continues_perform (hp : WellTyped loader typings mainClass)
    (hstore : m.store.From loader) (hdepth : m.calls.maxDepth = maxDepth)
    (hinv : Invocable loader mainClass f.owner f.method) {i : Instruction}
    (hi : i ∈ f.method.instructions) {control : Control}
    (hx : i.execute f.owner.pool f.workspace = (.ok control, w))
    (hpromised : Promised loader typings f.owner f.method f.cursor (.ok control, w))
    (hbelow : Waiting loader typings mainClass (typings f.owner f.method).result below) :
    Continues loader typings mainClass maxDepth
      (perform loader control
        (m.withFrames ({ f with workspace := w, cursor := f.cursor + 1 } :: below))) := by
  cases control with
  | next =>
    obtain ⟨t, hw, hfalls⟩ := hpromised
    exact ⟨suited_next hinv hw hfalls hbelow, hstore, hdepth⟩
  | print text =>
    obtain ⟨t, hw, hfalls⟩ := hpromised
    exact continues_print (m := m.withFrames _) ⟨suited_next hinv hw hfalls hbelow, hstore, hdepth⟩
      text
  | jump target =>
    obtain ⟨t, hw, hlands⟩ := hpromised
    obtain ⟨position, hposition, hsuited⟩ := suited_jump hinv hw hlands hbelow
    rw [perform_jump]
    simp only [hposition]
    exact ⟨hsuited, hstore, hdepth⟩
  | call ref =>
    obtain ⟨t, hw, hcalls⟩ := hpromised
    obtain ⟨index, hop, href, -⟩ := Instruction.op_of_call hx
    exact continues_call hp hstore hdepth hinv hi hop href hw hcalls hbelow
  | leave value =>
    rw [perform_leave]
    change (typings f.owner f.method).result = value.map Value.kind at hpromised
    rw [hpromised] at hbelow
    exact ⟨hbelow.resume, hstore, hdepth⟩

theorem Suits.step (hp : WellTyped loader typings mainClass)
    (h : m.Suits loader typings mainClass maxDepth) {result : Except RunError Unit} {m' : Machine}
    (hs : m.step loader = (some result, m')) :
    Continues loader typings mainClass maxDepth (result, m') := by
  obtain ⟨hframes, hstore, hdepth⟩ := h
  cases hf : m.calls.frames with
  | nil =>
    rw [step_halted (by simp [fetch?_eq_none_iff, hf])] at hs
    cases hs
  | cons f below =>
    rw [hf] at hframes
    obtain ⟨hready, hbelow⟩ := hframes
    cases hi : f.next? with
    | none =>
      rw [step_halted (by simp [fetch?_eq_none_iff, hf, hi])] at hs
      cases hs
    | some i =>
      have hmem : i ∈ f.method.instructions := Array.mem_of_getElem? hi
      -- There is an instruction, so the method is not one of those that have none.
      have hlt := (Array.getElem?_eq_some_iff.mp hi).1
      obtain ⟨hinv, -, hw⟩ := hready.resolve_left (by omega)
      have haccepts := (hp.checks f.owner f.method hinv).accepts f.cursor i hi
      have hpromised := execute_promised loader typings haccepts hw
      rw [step_eq hf hi] at hs
      rcases hx : i.execute f.owner.pool f.workspace with ⟨e | control, w⟩
      · rw [hx] at hpromised
        simp only [hx, Prod.mk.injEq, Option.some.injEq] at hs
        obtain ⟨rfl, rfl⟩ := hs
        cases hpromised
        exact .divisionByZero
      · rw [hx] at hpromised
        simp only [hx, Prod.mk.injEq, Option.some.injEq] at hs
        obtain ⟨rfl, rfl⟩ := hs
        exact continues_perform (m := m.logged _) hp hstore hdepth hinv hmem hx hpromised hbelow

/-- Why a run cannot begin: what the loader answers when it is asked for the main class. -/
def Unbootable (loader : Loader) (mainClass : String) (e : RunError) : Prop :=
  ∃ request,
    match (loader.find request (ClassName.internal mainClass)).answer with
    | .error cause => e = .malformed cause
    | .ok none => e = .classNotFound (ClassName.internal mainClass)
    | .ok (some owner) => owner.method? "main" = none ∧ e = .noSuchMethod owner.name "main" ""

theorem unbootable_of_load {store : ClassStore} {e : RunError}
    (h : (store.load loader mainClass).result = .error e) : Unbootable loader mainClass e := by
  have hload := store.load_loads loader mainClass
  generalize store.load loader mainClass = loading at hload h
  refine ⟨store.requests, ?_⟩
  cases hload with
  | known | added => cases h
  | malformed cause events hnew hanswer =>
    rw [hanswer]
    exact (Except.error.inj h).symm
  | missing events hnew hanswer =>
    rw [hanswer]
    exact (Except.error.inj h).symm

theorem boot_suits (hp : WellTyped loader typings m.mainClass) (hstore : m.store.From loader) :
    match boot loader m with
    | (.error e, _) => e = .stackOverflow m.calls.maxDepth ∨ Unbootable loader m.mainClass e
    | (.ok (), m') => m'.Suits loader typings m.mainClass m.calls.maxDepth := by
  have hfrom := hstore.load m.mainClass
  rw [boot_eq]
  cases hload : (m.store.load loader m.mainClass).result with
  | error e => exact .inr (unbootable_of_load hload)
  | ok owner =>
    obtain ⟨request, hanswer⟩ := hstore.answer_of_load hload
    simp only
    cases hmain : owner.method? "main" with
    | none =>
      refine .inr ⟨request, ?_⟩
      rw [hanswer]
      exact ⟨hmain, rfl⟩
    | some method =>
      have hready : (Frame.enter owner method []).Ready loader typings m.mainClass := by
        refine Frame.enter_ready hp ?_ ?_
        · intro hpos
          exact .main hanswer hmain (Method.body_isSome hpos)
        · intro slot hslot
          rw [hp.main request owner method hanswer hmain] at hslot
          cases hslot
      by_cases hd : 0 < m.calls.maxDepth
      · simp only [if_pos hd]
        exact ⟨⟨hready, trivial⟩, hfrom, rfl⟩
      · simp only [if_neg hd]
        exact .inl trivial

/-- What a run of a well-typed program may come to. One that has ended normally has no invocation
left, or the innermost one is of a method without instructions. -/
def Sound (loader : Loader) (typings : LoadedClass → Method → Typing) (mainClass : String)
    (maxDepth : Nat) : Option (Except RunError Unit) × Machine → Prop
  | (none, m) => m.Suits loader typings mainClass maxDepth
  | (some (.ok ()), m) => ∀ f ∈ m.calls.frames.head?, f.method.instructions.size = 0
  | (some (.error e), _) => Unavoidable maxDepth e

theorem run_sound (hp : WellTyped loader typings mainClass) (fuel : Nat)
    (h : m.Suits loader typings mainClass maxDepth) :
    Sound loader typings mainClass maxDepth (m.run loader fuel) := by
  refine run_induction (fun m => m.Suits loader typings mainClass maxDepth)
    (fun m h => h) ?_ ?_ ?_ fuel m h
  · intro m h hhalted f hf
    have hnone := (fetch?_eq_none_iff m).mp hhalted f hf
    obtain ⟨below, hframes⟩ : ∃ below, m.calls.frames = f :: below := by
      cases hm : m.calls.frames <;> simp_all
    have hready := (hframes ▸ h.frames).1
    rcases hready with hempty | ⟨-, hlt, -⟩
    · exact hempty
    · rw [Frame.next?, Array.getElem?_eq_getElem hlt] at hnone
      cases hnone
  · intro m m' e h hs
    exact h.step hp hs
  · intro m m' h hs
    exact h.step hp hs

theorem finish_sound {result : Except RunError Unit}
    (h : Sound loader typings mainClass maxDepth (some result, m)) :
    Sound loader typings mainClass maxDepth (some (finish result m).1, (finish result m).2) := by
  obtain ⟨name, store, calls, ⟨written, capacity, flushFails, flushes⟩, log⟩ := m
  cases flushFails with
  | true => exact .output .flushFailed
  | false => cases result <;> exact h

/-- Type soundness: a well-typed program is in a state of the typing, or it has ended normally, by dividing
by zero, by calling too deep, or because its output could not be written. -/
theorem start_sound (hp : WellTyped loader typings m.mainClass) (hstore : m.store.From loader)
    (fuel : Nat) :
    Sound loader typings m.mainClass m.calls.maxDepth (m.start loader fuel) ∨
      ∃ e, (m.start loader fuel).1 = some (.error e) ∧ Unbootable loader m.mainClass e := by
  have hboot := boot_suits hp hstore
  rw [start]
  rcases hb : boot loader m with ⟨e | _, booted⟩
  · rw [hb] at hboot
    rcases hboot with rfl | hun
    · exact .inl .stackOverflow
    · exact .inr ⟨e, rfl, hun⟩
  · rw [hb] at hboot
    have hrun := run_sound hp fuel hboot
    left
    rcases hr : booted.run loader fuel with ⟨_ | result, ended⟩
    · rw [hr] at hrun
      simp only [hr]
      exact hrun
    · rw [hr] at hrun
      simp only [hr]
      exact finish_sound hrun

theorem start_sound_factorial :
    WellTyped (Factorial.loader 5) Factorial.typings "Factorial" ∧
    ClassStore.From (Factorial.loader 5) .empty ∧
    (Sound (Factorial.loader 5) Factorial.typings "Factorial" defaultDepth
        ((Machine.new "Factorial" defaultDepth .unlimited (.empty .quiet)).start
          (Factorial.loader 5) 100) ∨
      ∃ e, ((Machine.new "Factorial" defaultDepth .unlimited (.empty .quiet)).start
          (Factorial.loader 5) 100).1 = some (.error e) ∧
        Unbootable (Factorial.loader 5) "Factorial" e) :=
  ⟨Factorial.wellTyped 5, ClassStore.from_empty _,
    start_sound (m := Machine.new "Factorial" defaultDepth .unlimited (.empty .quiet))
      (Factorial.wellTyped 5) (ClassStore.from_empty _) 100⟩

end Machine
end ClassVM
