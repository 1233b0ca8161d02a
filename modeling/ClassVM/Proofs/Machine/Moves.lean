import ClassVM.Proofs.Code.OffsetTable
import ClassVM.Proofs.Loading.Store
import ClassVM.Proofs.Machine.Parts
import ClassVM.Proofs.Machine.Step

namespace ClassVM

namespace Workspace
open Exec

/-- The effect never changes the number of local variables. -/
def KeepsRoom {α : Type} (x : Exec Workspace α) : Prop :=
  ∀ w, (x w).2.locals.size = w.locals.size

theorem keepsRoom_parts : HoldsOfParts @KeepsRoom where
  pure _ _ := rfl
  answer _ _ := rfl
  get _ := rfl
  pop := by rintro ⟨_ | ⟨v, stack⟩, locals⟩ <;> rfl
  bind hx hf :=
    Relates.bind (R := fun (w next : Workspace) => next.locals.size = w.locals.size) hx
      (fun _ _ _ hfirst hrest => hrest.trans hfirst) hf
  push _ _ := rfl
  store index v := by
    rintro ⟨stack, locals⟩
    by_cases h : index < locals.size
    · simp [store, h]
    · simp [store, h]

end Workspace

open Workspace in
theorem Instruction.execute_keepsRoom (pool : ConstantPool) (i : Instruction) :
    KeepsRoom (i.execute pool) :=
  keepsRoom_parts.execute pool i

namespace Frame

theorem cursor_lt {f : Frame} {i : Instruction} (h : f.next? = some i) :
    f.cursor < f.method.instructions.size :=
  (Array.getElem?_eq_some_iff.mp h).1

/-- Where a frame can be in its method after instruction `i`: behind it or, if it is a branch, at the
instruction that it names. -/
def GoesTo (f : Frame) (i : Instruction) (cursor : Nat) : Prop :=
  cursor = f.cursor + 1 ∨
    ∃ target, i.op.target? = some target ∧ f.method.indexOf? target = some cursor

end Frame

namespace Machine
open Instruction

/-- What a step with instruction `i` of frame `f` can make of the frames `f :: below`, with a limit on
their number and `store` as it is after the step. -/
inductive FrameMove (maxDepth : Nat) (store : ClassStore) (f : Frame) (i : Instruction)
    (below : List Frame) : List Frame → Prop where
  /-- The frame stays the innermost, whether the instruction was executed or failed. -/
  | stay (w : Workspace) (cursor : Nat) (hroom : w.locals.size = f.workspace.locals.size)
    (hcursor : cursor ≤ f.method.instructions.size) (hto : f.GoesTo i cursor) :
    FrameMove maxDepth store f i below ({ f with workspace := w, cursor := cursor } :: below)
  /-- It has called a method. -/
  | call (index : UInt16) (ref : MemberRef) (owner : LoadedClass) (method : Method)
    (hop : i.op = .invokeStatic index) (href : f.owner.pool.methodRef index = .ok ref)
    (howner : store.find? ref.className = some owner)
    (hmethod : owner.findMethod? ref.name ref.descriptor = some method)
    (hbody : method.body.isSome) (hn : method.parameterCount ≤ f.workspace.stack.length)
    (hdepth : below.length + 1 < maxDepth) :
    FrameMove maxDepth store f i below
      (.enter owner method (f.arguments method.parameterCount) ::
        f.advance.withoutArguments method.parameterCount :: below)
  /-- It has ended, perhaps with a value for the frame below it. -/
  | leave (value : Option Value) : FrameMove maxDepth store f i below (resume below value)

variable {loader : Loader} {m : Machine} {f : Frame} {below : List Frame} {i : Instruction}

/-- A call that fails leaves its caller behind the instruction, and with fewer values if it came to
the limit. -/
theorem frameMove_of_call {index : UInt16} {ref : MemberRef} (hi : f.next? = some i)
    (hop : i.op = .invokeStatic index) (href : f.owner.pool.methodRef index = .ok ref) :
    let after := (perform loader (.call ref) (m.withFrames (f.advance :: below))).2
    FrameMove m.calls.maxDepth after.store f i below after.calls.frames := by
  rcases perform_call_cases loader m f.advance below ref with
    ⟨owner, method, log, hload, hmethod, hbody, hn, hdepth, hperform⟩ | ⟨e, n, log, -, hperform⟩
  · rw [hperform]
    exact .call index ref owner method hop href (ClassStore.find?_of_load hload) hmethod hbody hn
      hdepth
  · rw [hperform]
    exact .stay _ _ rfl (Frame.cursor_lt hi) (.inl rfl)

theorem frameMove_of_step (loader : Loader) (hf : m.calls.frames = f :: below)
    (hi : f.next? = some i) :
    let after := (m.step loader).2
    FrameMove m.calls.maxDepth after.store f i below after.calls.frames := by
  have hroom := execute_keepsRoom f.owner.pool i f.workspace
  rw [step_eq hf hi]
  rcases hx : i.execute f.owner.pool f.workspace with ⟨e | control, w⟩
  · rw [hx] at hroom
    exact .stay w _ hroom (Frame.cursor_lt hi) (.inl rfl)
  rw [hx] at hroom
  simp only
  cases control with
  | next => exact .stay w _ hroom (Frame.cursor_lt hi) (.inl rfl)
  | print text => exact .stay w _ hroom (Frame.cursor_lt hi) (.inl rfl)
  | jump target =>
    rw [perform_jump]
    cases hp : f.method.indexOf? target with
    | none =>
      simp only
      exact .stay w _ hroom (Frame.cursor_lt hi) (.inl rfl)
    | some position =>
      obtain ⟨j, hj, -⟩ := (f.method.indexOf?_eq_some_iff target position).mp hp
      simp only
      exact .stay w position hroom (Nat.le_of_lt (Array.getElem?_eq_some_iff.mp hj).1)
        (.inr ⟨target, target?_of_jump hx, hp⟩)
  | call ref =>
    obtain ⟨index, hop, href, rfl⟩ := op_of_call hx
    exact frameMove_of_call (m := m.logged _) hi hop href
  | leave value =>
    rw [perform_leave]
    exact .leave value

/-- No step gives the machine another main class or another limit. -/
theorem step_keeps (loader : Loader) (m : Machine) :
    (m.step loader).2.mainClass = m.mainClass ∧
      (m.step loader).2.calls.maxDepth = m.calls.maxDepth := by
  have htouched := touched_of_step loader m
  generalize m.step loader = out at htouched ⊢
  cases htouched with
  | halted | frames | console | store => exact ⟨rfl, rfl⟩

end Machine
end ClassVM
