import ClassVM.Proofs.ByteMachine.Basic
import ClassVM.Proofs.Machine.Step

namespace ClassVM

namespace Frame

/-- The byte offset that the cursor stands for. -/
def offset (f : Frame) : Nat := Code.offsetAt f.method.code f.method.instructions.toList f.cursor

def toBytes (f : Frame) : ByteFrame := ⟨f.owner, f.method, f.workspace, f.offset⟩

@[simp] theorem toBytes_owner (f : Frame) : f.toBytes.owner = f.owner := rfl

@[simp] theorem toBytes_method (f : Frame) : f.toBytes.method = f.method := rfl

@[simp] theorem toBytes_workspace (f : Frame) : f.toBytes.workspace = f.workspace := rfl

@[simp] theorem toBytes_pc (f : Frame) : f.toBytes.pc = f.offset := rfl

theorem offset_of_next? {f : Frame} {i : Instruction} (h : f.next? = some i) : f.offset = i.pc := by
  rw [next?, ← Array.getElem?_toList] at h
  unfold offset Code.offsetAt
  rw [h]

theorem fetchAt_offset (f : Frame) :
    Code.fetchAt f.method.code f.offset =
      f.next?.map fun i => .ok (i, f.advance.offset) := by
  have h := f.method.trail.fetchAt_offsetAt f.cursor
  rw [Array.getElem?_toList] at h
  unfold next?
  cases hi : f.method.instructions[f.cursor]? <;> rw [hi] at h <;> exact h

theorem enter_toBytes (owner : LoadedClass) (method : Method) (arguments : List Value) :
    (enter owner method arguments).toBytes = .enter owner method arguments := by
  have h : (enter owner method arguments).offset = 0 := method.trail.offsetAt_zero
  unfold toBytes
  rw [h]
  rfl

/-- A branch finds a position in the list where the walk over the code comes by its target. -/
theorem mem_walk_iff (f : Frame) (target : Nat) :
    target ∈ Code.walk f.method.code 0 ↔
      ∃ position, f.method.indexOf? target = some position := by
  rw [f.method.trail.walk_eq, List.mem_map]
  constructor
  · rintro ⟨i, hi, rfl⟩
    obtain ⟨position, hp⟩ := List.getElem?_of_mem hi
    rw [Array.getElem?_toList] at hp
    exact ⟨position, (f.method.indexOf?_eq_some_iff i.pc position).mpr ⟨i, hp, rfl⟩⟩
  · rintro ⟨position, hp⟩
    obtain ⟨i, hi, rfl⟩ := (f.method.indexOf?_eq_some_iff target position).mp hp
    rw [← Array.getElem?_toList] at hi
    exact ⟨i, List.mem_of_getElem? hi, rfl⟩

theorem seek_toBytes {f : Frame} {target position : Nat}
    (h : f.method.indexOf? target = some position) :
    { f with cursor := position }.toBytes = ⟨f.owner, f.method, f.workspace, target⟩ := by
  obtain ⟨i, hi, rfl⟩ := (f.method.indexOf?_eq_some_iff target position).mp h
  have hoffset : { f with cursor := position }.offset = i.pc := offset_of_next? hi
  unfold toBytes
  rw [hoffset]

end Frame

namespace Machine

/-- The machine with byte offsets in the place of cursors. -/
def toBytes (m : Machine) : ByteMachine :=
  ⟨m.mainClass, m.store, m.calls.maxDepth, m.calls.frames.map Frame.toBytes, m.console, m.log⟩

@[simp] theorem toBytes_mainClass (m : Machine) : m.toBytes.mainClass = m.mainClass := rfl

@[simp] theorem toBytes_store (m : Machine) : m.toBytes.store = m.store := rfl

@[simp] theorem toBytes_maxDepth (m : Machine) : m.toBytes.maxDepth = m.calls.maxDepth := rfl

theorem toBytes_frames {m : Machine} {f : Frame} {below : List Frame}
    (hf : m.calls.frames = f :: below) :
    m.toBytes.frames = f.toBytes :: below.map Frame.toBytes := by
  simp only [toBytes, hf, List.map_cons]

theorem withFrames_toBytes (m : Machine) (frames : List Frame) :
    (m.withFrames frames).toBytes = { m.toBytes with frames := frames.map Frame.toBytes } := rfl

theorem push_toBytes (m : Machine) (f : Frame) (frames : List Frame) :
    m.toBytes.push f.toBytes (frames.map Frame.toBytes) =
      ((onCalls (CallStack.push f) (m.withFrames frames)).1,
        (onCalls (CallStack.push f) (m.withFrames frames)).2.toBytes) := by
  rw [onCalls_push, ByteMachine.push, List.length_map, toBytes_maxDepth]
  split <;> rfl

theorem call_toBytes (loader : Loader) (m : Machine) (f : Frame) (below : List Frame)
    (ref : MemberRef) :
    m.toBytes.call loader f.toBytes (below.map Frame.toBytes) ref =
      ((perform loader (.call ref) (m.withFrames (f :: below))).1,
        (perform loader (.call ref) (m.withFrames (f :: below))).2.toBytes) := by
  rw [perform_call]
  simp only [ByteMachine.call, toBytes_store]
  cases (m.store.load loader ref.className).result with
  | error e => rfl
  | ok owner =>
    simp only
    cases owner.findMethod? ref.name ref.descriptor with
    | none => rfl
    | some method =>
      simp only
      cases method.body with
      | none => rfl
      | some body =>
        simp only [Option.isNone_some, Bool.false_eq_true, if_false]
        -- Not by `simp`, which would also replace the decision that the two conditions share.
        rw [Frame.toBytes_workspace]
        by_cases hn : method.parameterCount ≤ f.workspace.stack.length
        · rw [if_pos hn, if_pos hn]
          let n := method.parameterCount
          let invoked := (m.loaded loader ref.className).logged (.invoking ref (f.arguments n))
          have hpush := push_toBytes invoked (.enter owner method (f.arguments n))
            (f.withoutArguments n :: below)
          rw [Frame.enter_toBytes, onCalls_push] at hpush
          exact hpush
        · rw [if_neg hn, if_neg hn]
          rfl

theorem perform_toBytes (loader : Loader) (m : Machine) (f : Frame) (below : List Frame)
    (control : Control) :
    m.toBytes.perform loader f.toBytes (below.map Frame.toBytes) control =
      ((perform loader control (m.withFrames (f :: below))).1,
        (perform loader control (m.withFrames (f :: below))).2.toBytes) := by
  cases control with
  | next => rfl
  | print text => rfl
  | call ref => exact call_toBytes loader m f below ref
  | jump target =>
    rw [perform_jump]
    simp only [ByteMachine.perform]
    rw [Frame.toBytes_method]
    cases hidx : f.method.indexOf? target with
    | none =>
      have hout : target ∉ Code.walk f.method.code 0 := by
        rw [f.mem_walk_iff, hidx]
        simp
      rw [if_neg hout]
      rfl
    | some position =>
      rw [if_pos ((f.mem_walk_iff target).mpr ⟨position, hidx⟩)]
      simp only [withFrames_toBytes, List.map_cons, Frame.seek_toBytes hidx]
      rfl
  | leave value =>
    rw [perform_leave]
    have hlen : (below.map Frame.toBytes).length = below.length := List.length_map _
    simp only [ByteMachine.perform, ByteMachine.leave, hlen]
    cases value with
    | none => rfl
    | some v => cases below <;> rfl

/-- One step of either machine is one step of the other. -/
theorem step_toBytes (loader : Loader) (m : Machine) :
    m.toBytes.step loader = ((m.step loader).1, (m.step loader).2.toBytes) := by
  cases hf : m.calls.frames with
  | nil =>
    have hfetch : m.fetch? = none := by simp [fetch?_eq_none_iff, hf]
    have hframes : m.toBytes.frames = [] := by simp [toBytes, hf]
    rw [step_halted hfetch]
    simp only [ByteMachine.step, hframes]
  | cons f below =>
    have hat := f.fetchAt_offset
    cases hi : f.next? with
    | none =>
      have hfetch : m.fetch? = none := by simp [fetch?_eq_none_iff, hf, hi]
      rw [step_halted hfetch]
      simp only [ByteMachine.step, toBytes_frames hf, Frame.toBytes_method, Frame.toBytes_pc, hat,
        hi, Option.map_none]
    | some i =>
      rw [step_eq hf hi]
      simp only [ByteMachine.step, toBytes_frames hf, Frame.toBytes_method, Frame.toBytes_pc, hat,
        hi, Option.map_some, Frame.toBytes_owner, Frame.toBytes_workspace]
      rcases i.execute f.owner.pool f.workspace with ⟨e | control, w⟩
      · rfl
      · have hperform := perform_toBytes loader (m.logged (.executing f.owner.name f.method.name i))
          { f with workspace := w, cursor := f.cursor + 1 } below control
        exact congrArg (fun out => (some out.1, out.2)) hperform

theorem run_toBytes (loader : Loader) (fuel : Nat) (m : Machine) :
    m.toBytes.run loader fuel = ((m.run loader fuel).1, (m.run loader fuel).2.toBytes) := by
  induction fuel generalizing m with
  | zero => rfl
  | succ fuel ih =>
    rw [ByteMachine.run, run, step_toBytes]
    rcases m.step loader with ⟨_ | e | _, next⟩
    · rfl
    · rfl
    · exact ih next

/-- The instruction that the next step executes. -/
def next? (m : Machine) : Option Instruction := m.fetch?.map fun (_, i, _) => i

/-- The instructions that these steps execute, in their order. -/
def trace (loader : Loader) : Nat → Machine → List Instruction
  | 0, _ => []
  | fuel + 1, m =>
    match m.next? with
    | none => []
    | some i =>
      match m.step loader with
      | (some (.ok ()), m) => i :: trace loader fuel m
      | _ => [i]

theorem next?_toBytes (m : Machine) : m.toBytes.next? = m.next? := by
  obtain ⟨mainClass, store, ⟨maxDepth, frames, depth, depth_eq⟩, console, log⟩ := m
  cases frames with
  | nil => rfl
  | cons f below =>
    have hat := f.fetchAt_offset
    have hframes : (toBytes ⟨mainClass, store, ⟨maxDepth, f :: below, depth, depth_eq⟩, console,
        log⟩).frames = f.toBytes :: below.map Frame.toBytes := rfl
    simp only [ByteMachine.next?, hframes, Frame.toBytes_method, Frame.toBytes_pc, hat, next?,
      fetch?]
    cases f.next? <;> rfl

theorem trace_toBytes (loader : Loader) (fuel : Nat) (m : Machine) :
    m.toBytes.trace loader fuel = m.trace loader fuel := by
  induction fuel generalizing m with
  | zero => rfl
  | succ fuel ih =>
    rw [ByteMachine.trace, trace, next?_toBytes, step_toBytes]
    cases m.next? with
    | none => rfl
    | some i =>
      rcases m.step loader with ⟨_ | e | _, next⟩
      · rfl
      · rfl
      · exact congrArg (i :: ·) (ih next)

theorem boot_toBytes (loader : Loader) (m : Machine) :
    m.toBytes.boot loader = ((m.boot loader).1, (m.boot loader).2.toBytes) := by
  rw [boot_eq]
  simp only [ByteMachine.boot, toBytes_mainClass, toBytes_store]
  cases (m.store.load loader m.mainClass).result with
  | error e => rfl
  | ok owner =>
    simp only
    cases owner.method? "main" with
    | none => rfl
    | some method =>
      have hpush := push_toBytes ((m.loaded loader m.mainClass).logged (.starting owner.name))
        (.enter owner method []) []
      rw [Frame.enter_toBytes, onCalls_push] at hpush
      exact hpush

theorem finish_toBytes (result : Except RunError Unit) (m : Machine) :
    m.toBytes.finish result = ((m.finish result).1, (m.finish result).2.toBytes) := by
  obtain ⟨mainClass, store, calls, ⟨written, capacity, flushFails, flushes⟩, log⟩ := m
  cases flushFails <;> rfl

theorem start_toBytes (loader : Loader) (fuel : Nat) (m : Machine) :
    m.toBytes.start loader fuel = ((m.start loader fuel).1, (m.start loader fuel).2.toBytes) := by
  rw [ByteMachine.start, start, boot_toBytes]
  rcases boot loader m with ⟨e | _, m⟩
  · rfl
  · simp only [run_toBytes]
    rcases m.run loader fuel with ⟨_ | result, m⟩
    · rfl
    · simp only [finish_toBytes]

/-- Both machines execute the same instructions, come to the same result and end in the same state,
whether they go on from a state or start the main method. -/
theorem lockstep (loader : Loader) (fuel : Nat) (m : Machine) :
    m.toBytes.trace loader fuel = m.trace loader fuel ∧
    m.toBytes.run loader fuel = ((m.run loader fuel).1, (m.run loader fuel).2.toBytes) ∧
    m.toBytes.start loader fuel = ((m.start loader fuel).1, (m.start loader fuel).2.toBytes) :=
  ⟨trace_toBytes loader fuel m, run_toBytes loader fuel m, start_toBytes loader fuel m⟩

end Machine
end ClassVM
