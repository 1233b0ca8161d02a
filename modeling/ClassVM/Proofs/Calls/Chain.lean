import Mathlib.Data.List.Basic
import ClassVM.Proofs.Machine.Moves
import ClassVM.Proofs.Machine.Origin
import ClassVM.Proofs.Machine.Reachable
import ClassVM.Proofs.Programs.Echo

namespace ClassVM

theorem Workspace.withArguments_size (arguments : List Value) (size : Nat) :
    (withArguments arguments size).locals.size = max size arguments.length := by
  simp only [withArguments, Array.size_append, List.size_toArray, List.length_map,
    Array.size_replicate]
  omega

theorem LoadedClass.of_findMethod? {c : LoadedClass} {name descriptor : String} {method : Method}
    (h : c.findMethod? name descriptor = some method) :
    method ∈ c.methods ∧ method.name = name ∧ method.descriptor = descriptor := by
  have hmatch := List.find?_some h
  rw [Bool.and_eq_true, decide_eq_true_eq, decide_eq_true_eq] at hmatch
  exact ⟨List.mem_of_find?_eq_some h, hmatch⟩

namespace Frame

/-- The instruction before the cursor of `f` is an `invokestatic` that refers to the method of `g`, by
the name under which the class of `g` has been loaded. -/
def HasCalled (store : ClassStore) (f g : Frame) : Prop :=
  ∃ i index ref, 0 < f.cursor ∧ f.method.instructions[f.cursor - 1]? = some i ∧
    i.op = .invokeStatic index ∧ f.owner.pool.methodRef index = .ok ref ∧
    store.find? ref.className = some g.owner ∧
    g.method.name = ref.name ∧ g.method.descriptor = ref.descriptor

end Frame

/-- Frames that started each other, the innermost first, down to that of the main method. -/
inductive CallChain (store : ClassStore) (mainClass : String) : List Frame → Prop where
  | idle : CallChain store mainClass []
  | entry {f : Frame} (howner : store.find? mainClass = some f.owner)
    (hmethod : f.owner.method? "main" = some f.method)
    (hroom : f.workspace.locals.size = f.method.maxLocals.toNat)
    (hcursor : f.cursor ≤ f.method.instructions.size) : CallChain store mainClass [f]
  | call {g f : Frame} {below : List Frame} (hcall : f.HasCalled store g)
    (hmethod : g.method ∈ g.owner.methods) (hbody : g.method.body.isSome)
    (hroom : g.workspace.locals.size = max g.method.maxLocals.toNat g.method.parameterCount)
    (hcursor : g.cursor ≤ g.method.instructions.size) (h : CallChain store mainClass (f :: below)) :
    CallChain store mainClass (g :: f :: below)

namespace CallChain
variable {store : ClassStore} {mainClass : String} {f : Frame} {below : List Frame}

theorem mono {other : ClassStore} {frames : List Frame} (h : CallChain store mainClass frames)
    (hfind : ∀ name c, store.find? name = some c → other.find? name = some c) :
    CallChain other mainClass frames := by
  induction h with
  | idle => exact .idle
  | entry howner hmethod hroom hcursor => exact .entry (hfind _ _ howner) hmethod hroom hcursor
  | call hcall hmethod hbody hroom hcursor _ ih =>
    obtain ⟨i, index, ref, hpos, hi, hop, href, howner, hnamed⟩ := hcall
    exact .call ⟨i, index, ref, hpos, hi, hop, href, hfind _ _ howner, hnamed⟩ hmethod hbody hroom
      hcursor ih

/-- The innermost frame may work on its values and go to another place in its method. -/
theorem stay (h : CallChain store mainClass (f :: below)) {w : Workspace} {cursor : Nat}
    (hroom : w.locals.size = f.workspace.locals.size)
    (hcursor : cursor ≤ f.method.instructions.size) :
    CallChain store mainClass ({ f with workspace := w, cursor := cursor } :: below) := by
  cases h with
  | entry howner hmethod hsize => exact .entry howner hmethod (hroom.trans hsize) hcursor
  | call hcall hmethod hbody hsize _ h =>
    exact .call hcall hmethod hbody (hroom.trans hsize) hcursor h

theorem cursor_le (h : CallChain store mainClass (f :: below)) :
    f.cursor ≤ f.method.instructions.size := by
  cases h with
  | entry howner hmethod hroom hcursor => exact hcursor
  | call hcall hmethod hbody hroom hcursor h => exact hcursor

/-- The frames from any one on down are a chain again. -/
theorem suffix {above rest : List Frame} (h : CallChain store mainClass (above ++ rest)) :
    CallChain store mainClass rest := by
  induction above with
  | nil => exact h
  | cons g above ih =>
    apply ih
    rw [List.cons_append] at h
    generalize above ++ rest = frames at h ⊢
    cases h with
    | entry => exact .idle
    | call _ _ _ _ _ h => exact h

theorem leave (h : CallChain store mainClass (f :: below)) (value : Option Value) :
    CallChain store mainClass (Machine.resume below value) := by
  have hbelow : CallChain store mainClass below := @suffix store mainClass [f] below h
  cases value with
  | none => exact hbelow
  | some v =>
    cases below with
    | nil => exact .idle
    | cons caller below => exact hbelow.stay rfl hbelow.cursor_le

/-- What every frame of a chain has of its own. -/
theorem own (h : CallChain store mainClass (f :: below)) :
    (∃ name, store.find? name = some f.owner) ∧ f.method ∈ f.owner.methods ∧
      f.cursor ≤ f.method.instructions.size := by
  refine ⟨?_, ?_, h.cursor_le⟩
  · cases h with
    | entry howner => exact ⟨mainClass, howner⟩
    | call hcall =>
      obtain ⟨i, index, ref, -, -, -, -, howner, -⟩ := hcall
      exact ⟨ref.className, howner⟩
  · cases h with
    | entry _ hmethod => exact List.mem_of_find?_eq_some hmethod
    | call _ hmethod => exact hmethod

theorem move {maxDepth : Nat} {i : Instruction} {frames : List Frame} (hi : f.next? = some i)
    (h : CallChain store mainClass (f :: below))
    (hmove : Machine.FrameMove maxDepth store f i below frames) :
    CallChain store mainClass frames := by
  cases hmove with
  | stay w cursor hroom hcursor hto => exact h.stay hroom hcursor
  | leave value => exact h.leave value
  | call index ref owner method hop href howner hmethod hbody hn hdepth =>
    obtain ⟨hmem, hname, hdescriptor⟩ := LoadedClass.of_findMethod? hmethod
    have hwaiting : CallChain store mainClass
        (f.advance.withoutArguments method.parameterCount :: below) :=
      h.stay rfl (Frame.cursor_lt hi)
    have harguments : (f.arguments method.parameterCount).length = method.parameterCount :=
      Frame.arguments_length hn
    refine .call ⟨i, index, ref, Nat.succ_pos _, hi, hop, href, howner, hname, hdescriptor⟩ hmem
      hbody ?_ (Nat.zero_le _) hwaiting
    exact (Workspace.withArguments_size _ _).trans (by rw [harguments]; rfl)

end CallChain

namespace Machine

/-- The frames are a chain of calls, and there are no more than allowed. -/
structure Chained (m : Machine) : Prop where
  chain : CallChain m.store m.mainClass m.calls.frames
  depth : m.calls.frames.length ≤ m.calls.maxDepth

variable {loader : Loader} {m : Machine}

theorem Chained.boot (m : Machine) : (boot loader m).2.Chained := by
  rw [boot_eq]
  cases hload : (m.store.load loader m.mainClass).result with
  | error e => exact ⟨.idle, Nat.zero_le _⟩
  | ok owner =>
    simp only
    cases hmain : owner.method? "main" with
    | none => exact ⟨.idle, Nat.zero_le _⟩
    | some method =>
      simp only
      split
      next hd =>
        have hroom := Workspace.withArguments_size [] method.maxLocals.toNat
        refine ⟨.entry (ClassStore.find?_of_load hload) hmain ?_ (Nat.zero_le _), hd⟩
        exact hroom.trans (Nat.max_zero _)
      next => exact ⟨.idle, Nat.zero_le _⟩

theorem FrameMove.length_le {maxDepth : Nat} {store : ClassStore} {f : Frame} {i : Instruction}
    {below frames : List Frame} (h : FrameMove maxDepth store f i below frames)
    (hdepth : (f :: below).length ≤ maxDepth) : frames.length ≤ maxDepth := by
  cases h with
  | stay => exact hdepth
  | call index ref owner method hop href howner hmethod hbody hn hlt => exact hlt
  | leave value =>
    rw [resume_length]
    exact Nat.le_of_succ_le hdepth

theorem Chained.step (h : m.Chained) : (m.step loader).2.Chained := by
  rcases halted_or_next loader m with hnone | ⟨f, below, i, hf, hi⟩
  · rw [hnone]
    exact h
  obtain ⟨hchain, hdepth⟩ := h
  obtain ⟨hmain, hmax⟩ := step_keeps loader m
  have hmove := frameMove_of_step loader hf hi
  have hfind : ∀ name c, m.store.find? name = some c →
      (m.step loader).2.store.find? name = some c := by
    intro name c hc
    rcases store_of_step loader m with hsame | ⟨other, hother⟩
    · rw [hsame]
      exact hc
    · rw [hother]
      exact ClassStore.find?_load hc other
  rw [hf] at hchain hdepth
  refine ⟨?_, ?_⟩
  · rw [hmain]
    exact (hchain.mono hfind).move hi hmove
  · rw [hmax]
    exact hmove.length_le hdepth

theorem chained_lasting (loader : Loader) : Lasting loader Chained where
  new _ _ _ _ := ⟨.idle, Nat.zero_le _⟩
  withDepth _ _ _ := ⟨.idle, Nat.zero_le _⟩
  boot m _ := Chained.boot m
  step _ h := h.step
  flush _ h := ⟨h.chain, h.depth⟩

/-- Whatever has been done to a machine: the lowest frame runs the main method, and each other one was
called, with its arguments, by the instruction that the frame below has just passed. -/
theorem frames_linked (h : Reachable loader m) :
    m.calls.depth ≤ m.calls.maxDepth ∧
    (∀ f ∈ m.calls.frames, (∃ name, m.store.find? name = some f.owner) ∧
      f.method ∈ f.owner.methods ∧ f.cursor ≤ f.method.instructions.size) ∧
    (∀ above f, m.calls.frames = above ++ [f] →
      m.store.find? m.mainClass = some f.owner ∧ f.owner.method? "main" = some f.method ∧
        f.workspace.locals.size = max f.method.maxLocals.toNat 0) ∧
    ∀ above g f below, m.calls.frames = above ++ g :: f :: below →
      g.workspace.locals.size = max g.method.maxLocals.toNat g.method.parameterCount ∧
        f.HasCalled m.store g := by
  obtain ⟨hchain, hdepth⟩ := (chained_lasting loader).reachable h
  refine ⟨m.calls.depth_eq ▸ hdepth, ?_, ?_, ?_⟩
  · intro f hf
    obtain ⟨above, below, hframes⟩ := List.append_of_mem hf
    rw [hframes] at hchain
    exact hchain.suffix.own
  · intro above f hframes
    rw [hframes] at hchain
    cases hchain.suffix with
    | entry howner hmethod hroom => exact ⟨howner, hmethod, hroom.trans (Nat.max_zero _).symm⟩
  · intro above g f below hframes
    rw [hframes] at hchain
    cases hchain.suffix with
    | call hcall hmethod hbody hroom => exact ⟨hroom, hcall⟩

open Echo in
/-- A call of `main` by itself has been followed by one that came to the limit. -/
theorem frames_linked_echo :
    let m := ((machine 2 .unlimited).start Echo.loader 10).2
    Reachable Echo.loader m ∧
    ((machine 2 .unlimited).start Echo.loader 10).1 = some (.error (.stackOverflow 2)) ∧
    ∃ g f, m.calls.frames = [g, f] ∧ m.calls.depth ≤ m.calls.maxDepth ∧
      (∃ name, m.store.find? name = some g.owner) ∧ g.method ∈ g.owner.methods ∧
      g.cursor ≤ g.method.instructions.size ∧
      g.workspace.locals.size = max g.method.maxLocals.toNat g.method.parameterCount ∧
      m.store.find? m.mainClass = some f.owner ∧ f.owner.method? "main" = some f.method ∧
      f.workspace.locals.size = max f.method.maxLocals.toNat 0 ∧ f.HasCalled m.store g := by
  intro m
  have hreach : Reachable Echo.loader m := .start (.new _ _ _ _) 10
  have hlength : m.calls.frames.length = 2 := by decide +kernel
  obtain ⟨g, f, hframes⟩ := List.length_eq_two.mp hlength
  obtain ⟨hdepth, hown, hlowest, hother⟩ := frames_linked hreach
  obtain ⟨howner, hmethod, hcursor⟩ := hown g (by simp [hframes])
  obtain ⟨hmain, hentry, hnone⟩ := hlowest [g] f hframes
  obtain ⟨hroom, hcall⟩ := hother [] g f [] hframes
  exact ⟨hreach, by decide +kernel, g, f, hframes, hdepth, howner, hmethod, hcursor, hroom, hmain, hentry,
    hnone, hcall⟩

end Machine
end ClassVM
