import ClassVM.Proofs.Code.OffsetTable
import ClassVM.Proofs.Machine.Step
import ClassVM.Proofs.Typing.Values

namespace ClassVM

section frames
variable (loader : Loader) (typings : LoadedClass → Method → Typing) (mainClass : String)

/-- The innermost frame: before an instruction, or in a method that has none. -/
def Frame.Ready (f : Frame) : Prop :=
  f.method.instructions.size = 0 ∨
    Invocable loader mainClass f.owner f.method ∧ f.cursor < f.method.instructions.size ∧
      f.workspace.HasShape f.method.maxLocals.toNat ((typings f.owner f.method).shape f.cursor)

/-- A frame below an invocation that leaves a value of kind `result`, if it leaves one. -/
def Frame.Awaits (result : Option ValueKind) (f : Frame) : Prop :=
  Invocable loader mainClass f.owner f.method ∧ f.cursor < f.method.instructions.size ∧
    ∃ operands, f.workspace.HasShape f.method.maxLocals.toNat
        ⟨operands, ((typings f.owner f.method).shape f.cursor).slots⟩ ∧
      ((typings f.owner f.method).shape f.cursor).operands = result.toList ++ operands

def Waiting (result : Option ValueKind) : List Frame → Prop
  | [] => True
  | f :: below =>
    f.Awaits loader typings mainClass result ∧
      Waiting (typings f.owner f.method).result below

def Suited : List Frame → Prop
  | [] => True
  | f :: below =>
    f.Ready loader typings mainClass ∧
      Waiting loader typings mainClass (typings f.owner f.method).result below

end frames

section chains
variable {loader : Loader} {typings : LoadedClass → Method → Typing} {mainClass : String}

/-- The value that an invocation leaves is what the frame below it waits for. -/
theorem Waiting.resume {value : Option Value} {frames : List Frame}
    (h : Waiting loader typings mainClass (value.map Value.kind) frames) :
    Suited loader typings mainClass (Machine.resume frames value) := by
  cases frames with
  | nil => cases value <;> exact trivial
  | cons f below =>
    obtain ⟨⟨hinv, hlt, operands, hw, hs⟩, hbelow⟩ := h
    cases value with
    | none => exact ⟨.inr ⟨hinv, hlt, hs ▸ hw.stack, hw.slots, hw.room⟩, hbelow⟩
    | some v =>
      refine ⟨.inr ⟨hinv, hlt, ?_, hw.slots, hw.room⟩, hbelow⟩
      change v.kind :: f.workspace.stack.map Value.kind = _
      rw [hw.stack]
      exact hs.symm

/-- A call gives the values of its arguments to the slots of the parameters. -/
theorem Workspace.withArguments_hasShape {arguments : List Value} {room : Nat} {s : Shape}
    (hstack : s.operands = [])
    (hslots : ∀ slot ∈ s.slots, (arguments.map Value.kind)[slot]? = some .int) :
    (Workspace.withArguments arguments room).HasShape room s := by
  refine ⟨hstack.symm, ?_, ?_⟩
  · intro slot hslot
    have hkind := hslots slot hslot
    rw [List.getElem?_map] at hkind
    cases ha : arguments[slot]? with
    | none => simp [ha] at hkind
    | some v =>
      rw [ha] at hkind
      cases v with
      | printStream => cases hkind
      | int n =>
        refine ⟨n, ?_⟩
        have hlt := (List.getElem?_eq_some_iff.mp ha).1
        rw [Workspace.withArguments, Array.getElem?_append_left (by simpa using hlt)]
        simp [ha]
  · simp only [Workspace.withArguments, Array.size_append, List.size_toArray, List.length_map,
      Array.size_replicate]
    omega

/-- A frame that has just been entered is ready if its arguments are what the typing relies on. -/
theorem Frame.enter_ready {owner : LoadedClass} {method : Method} {arguments : List Value}
    (hp : WellTyped loader typings mainClass)
    (hinv : 0 < method.instructions.size → Invocable loader mainClass owner method)
    (hargs : ∀ slot ∈ ((typings owner method).shape 0).slots,
      (arguments.map Value.kind)[slot]? = some .int) :
    (Frame.enter owner method arguments).Ready loader typings mainClass := by
  rcases Nat.eq_zero_or_pos method.instructions.size with hempty | hpos
  · exact .inl hempty
  · have hchecks := hp.checks owner method (hinv hpos)
    exact .inr ⟨hinv hpos, hpos, Workspace.withArguments_hasShape hchecks.operands hargs⟩

section frame
variable {f : Frame} {below : List Frame} {w : Workspace} {t : Shape}

theorem suited_next (hinv : Invocable loader mainClass f.owner f.method)
    (hw : w.HasShape f.method.maxLocals.toNat t)
    (hfalls : (typings f.owner f.method).Falls f.method f.cursor t)
    (hbelow : Waiting loader typings mainClass (typings f.owner f.method).result below) :
    Suited loader typings mainClass
      ({ f with workspace := w, cursor := f.cursor + 1 } :: below) :=
  ⟨.inr ⟨hinv, hfalls.1, hw.admitted hfalls.2⟩, hbelow⟩

theorem suited_jump {target : Nat} (hinv : Invocable loader mainClass f.owner f.method)
    (hw : w.HasShape f.method.maxLocals.toNat t)
    (hlands : (typings f.owner f.method).Lands f.method target t)
    (hbelow : Waiting loader typings mainClass (typings f.owner f.method).result below) :
    ∃ position, f.method.indexOf? target = some position ∧
      Suited loader typings mainClass ({ f with workspace := w, cursor := position } :: below) := by
  obtain ⟨position, i, hi, hpc, hadmits⟩ := hlands
  have hlt := (Array.getElem?_eq_some_iff.mp hi).1
  exact ⟨position, (f.method.indexOf?_eq_some_iff target position).mpr ⟨i, hi, hpc⟩,
    .inr ⟨hinv, hlt, hw.admitted hadmits⟩, hbelow⟩

/-- The frame of a method that has just been called, above the frame that waits for its result. -/
theorem suited_call {callee : LoadedClass} {called : Method}
    (hp : WellTyped loader typings mainClass) (hinv : Invocable loader mainClass f.owner f.method)
    (hcallee : Invocable loader mainClass callee called)
    (hw : w.HasShape f.method.maxLocals.toNat t)
    (hargs : ∀ slot ∈ ((typings callee called).shape 0).slots,
      (t.operands.take called.parameterCount).reverse[slot]? = some .int)
    (hfalls : (typings f.owner f.method).Falls f.method f.cursor
      ⟨(typings callee called).result.toList ++ t.operands.drop called.parameterCount, t.slots⟩)
    (hbelow : Waiting loader typings mainClass (typings f.owner f.method).result below) :
    let g : Frame := { f with workspace := w, cursor := f.cursor + 1 }
    Suited loader typings mainClass
      (.enter callee called (g.arguments called.parameterCount) ::
        g.withoutArguments called.parameterCount :: below) := by
  intro g
  have hkinds : (g.arguments called.parameterCount).map Value.kind =
      (t.operands.take called.parameterCount).reverse := by
    change ((w.stack.take called.parameterCount).reverse).map Value.kind = _
    rw [List.map_reverse, List.map_take, hw.stack]
  have hkept : (w.stack.drop called.parameterCount).map Value.kind =
      t.operands.drop called.parameterCount := by
    rw [List.map_drop, hw.stack]
  refine ⟨Frame.enter_ready hp (fun _ => hcallee) ?_, ?_, hbelow⟩
  · rw [hkinds]
    exact hargs
  · refine ⟨hinv, hfalls.1, t.operands.drop called.parameterCount, ⟨hkept, ?_, hw.room⟩,
      hfalls.2.1⟩
    intro slot hslot
    exact hw.slots slot (hfalls.2.2 hslot)

end frame

end chains
end ClassVM
