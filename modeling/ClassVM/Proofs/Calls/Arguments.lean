import ClassVM.Proofs.Calls.Chain
import ClassVM.Proofs.Loading.Store
import ClassVM.Proofs.Machine.Step
import ClassVM.Proofs.Programs.Basic

namespace ClassVM

namespace Workspace

/-- The first variables hold the arguments, and the others are unset. -/
theorem withArguments_locals (arguments : List Value) (size i : Nat) :
    (withArguments arguments size).locals[i]? =
      if i < max size arguments.length then some arguments[i]? else none := by
  rw [withArguments, Array.getElem?_append, List.size_toArray, List.length_map, List.getElem?_toArray,
    List.getElem?_map, Array.getElem?_replicate]
  by_cases hi : i < arguments.length
  · rw [if_pos hi, if_pos (Nat.lt_of_lt_of_le hi (Nat.le_max_right ..)), List.getElem?_eq_getElem hi]
    rfl
  · have hend : i - arguments.length < size - arguments.length ↔ i < max size arguments.length := by
      omega
    rw [if_neg hi, List.getElem?_eq_none (Nat.le_of_not_lt hi)]
    simp only [hend]

end Workspace

namespace Frame
variable {f : Frame} {n : Nat}

/-- Counted from the deepest, the arguments are the top `n` values. -/
theorem arguments_getElem? (h : n ≤ f.workspace.stack.length) {i : Nat} (hi : i < n) :
    (f.arguments n)[i]? = f.workspace.stack[n - 1 - i]? := by
  have hlength : (f.workspace.stack.take n).length = n := List.length_take_of_le h
  rw [arguments, List.getElem?_reverse (hlength.symm ▸ hi), hlength, List.getElem?_take_of_lt]
  omega

/-- The variables of a frame that is entered with the top `n` values of another one: these, the deepest
first, and then unset ones. -/
theorem enter_arguments (owner : LoadedClass) (method : Method) (h : n ≤ f.workspace.stack.length) :
    let locals := (enter owner method (f.arguments n)).workspace.locals
    locals.size = max method.maxLocals.toNat n ∧
    (∀ i < n, locals[i]? = some f.workspace.stack[n - 1 - i]?) ∧
    ∀ i, n ≤ i → i < max method.maxLocals.toNat n → locals[i]? = some none := by
  have hlength := arguments_length h
  have hsize := Workspace.withArguments_size (f.arguments n) method.maxLocals.toNat
  have hlocals (i : Nat) := Workspace.withArguments_locals (f.arguments n) method.maxLocals.toNat i
  simp only [hlength] at hsize hlocals
  refine ⟨hsize, ?_, ?_⟩
  · intro i hi
    rw [← arguments_getElem? h hi]
    exact (hlocals i).trans (if_pos (Nat.lt_of_lt_of_le hi (Nat.le_max_right ..)))
  · intro i hge hlt
    rw [← List.getElem?_eq_none (hlength.symm ▸ hge : (f.arguments n).length ≤ i)]
    exact (hlocals i).trans (if_pos hlt)

/-- The next instruction is an `invokestatic` that refers to `ref`. -/
def Invokes (f : Frame) (ref : MemberRef) : Prop :=
  ∃ i index, f.next? = some i ∧ i.op = .invokeStatic index ∧ f.owner.pool.methodRef index = .ok ref

end Frame

namespace Machine

/-- The next instruction of the innermost frame `f` calls `method`, which has code and is found in the
class `owner`. -/
structure AtCall (loader : Loader) (m : Machine) (f : Frame) (below : List Frame) (ref : MemberRef)
    (owner : LoadedClass) (method : Method) : Prop where
  frames_eq : m.calls.frames = f :: below
  invokes : f.Invokes ref
  load : (m.store.load loader ref.className).result = .ok owner
  found : owner.findMethod? ref.name ref.descriptor = some method
  hasCode : method.body.isSome

variable {loader : Loader} {m : Machine} {f : Frame} {below : List Frame} {ref : MemberRef}
  {owner : LoadedClass} {method : Method}

/-- The whole step. The class is asked for whatever comes of it, and the arguments are taken before the
limit is looked at. -/
theorem AtCall.step_eq (h : m.AtCall loader f below ref owner method) : ∃ i,
    let n := method.parameterCount
    let asked := (m.logged (.executing f.owner.name f.method.name i)).loaded loader ref.className
    let invoked := asked.logged (.invoking ref (f.arguments n))
    let waiting := f.advance.withoutArguments n :: below
    let out :=
      if n ≤ f.workspace.stack.length then
        if m.calls.depth < m.calls.maxDepth then
          (.ok (), invoked.withFrames (.enter owner method (f.arguments n) :: waiting))
        else (.error (.stackOverflow m.calls.maxDepth), invoked.withFrames waiting)
      else (.error .stackUnderflow, asked.withFrames (f.advance :: below))
    m.step loader = (some out.1, out.2) := by
  obtain ⟨hf, ⟨i, index, hi, hop, href⟩, hload, hfound, hcode⟩ := h
  obtain ⟨body, hbody⟩ := Option.isSome_iff_exists.mp hcode
  have hload' : ((m.logged (.executing f.owner.name f.method.name i)).store.load loader
      ref.className).result = .ok owner := hload
  refine ⟨i, ?_⟩
  rw [Machine.step_eq hf hi, Instruction.execute_invokeStatic hop, href, m.calls.depth_eq, hf]
  simp only
  rw [perform_call]
  simp only [hload', hfound, hbody]
  rfl

section outcomes
variable (h : m.AtCall loader f below ref owner method)
include h

theorem AtCall.underflows (hn : f.workspace.stack.length < method.parameterCount) :
    ∃ log, m.step loader = (some (.error .stackUnderflow),
      { (m.loaded loader ref.className).withFrames (f.advance :: below) with log := log }) := by
  obtain ⟨i, hstep⟩ := h.step_eq
  simp only [if_neg (Nat.not_le_of_lt hn)] at hstep
  exact ⟨_, hstep⟩

theorem AtCall.enters (hn : method.parameterCount ≤ f.workspace.stack.length)
    (hdepth : m.calls.depth < m.calls.maxDepth) :
    ∃ log, m.step loader = (some (.ok ()),
      { (m.loaded loader ref.className).withFrames
          (.enter owner method (f.arguments method.parameterCount) ::
            f.advance.withoutArguments method.parameterCount :: below) with log := log }) := by
  obtain ⟨i, hstep⟩ := h.step_eq
  simp only [if_pos hn, if_pos hdepth] at hstep
  exact ⟨_, hstep⟩

theorem AtCall.overflows (hn : method.parameterCount ≤ f.workspace.stack.length)
    (hdepth : m.calls.maxDepth ≤ m.calls.depth) :
    ∃ log, m.step loader = (some (.error (.stackOverflow m.calls.maxDepth)),
      { (m.loaded loader ref.className).withFrames
          (f.advance.withoutArguments method.parameterCount :: below) with log := log }) := by
  obtain ⟨i, hstep⟩ := h.step_eq
  simp only [if_pos hn, if_neg (Nat.not_lt_of_le hdepth)] at hstep
  exact ⟨_, hstep⟩

end outcomes

theorem AtCall.parameterCount_eq (h : m.AtCall loader f below ref owner method) {s : Signature}
    (hs : Signature.parse ref.descriptor = .ok s) : method.parameterCount = s.arguments.length := by
  obtain ⟨-, -, hdescriptor⟩ := LoadedClass.of_findMethod? h.found
  have hparsed := method.signature_eq
  rw [hdescriptor, hs] at hparsed
  rw [Method.parameterCount, Except.ok.inj hparsed]

/-- A call takes as many values as the descriptor has argument types and puts them into the first
variables, the deepest first; without enough of them, or of room for a frame, it fails. -/
theorem call_hands_over_arguments (h : m.AtCall loader f below ref owner method) {s : Signature}
    (hs : Signature.parse ref.descriptor = .ok s) :
    let n := s.arguments.length
    let out := m.step loader
    (out.1 = some (.error .stackUnderflow) ↔ f.workspace.stack.length < n) ∧
    (f.workspace.stack.length < n → out.2.calls.frames = f.advance :: below) ∧
    (n ≤ f.workspace.stack.length → m.calls.depth < m.calls.maxDepth →
      out.1 = some (.ok ()) ∧ ∃ callee,
        out.2.calls.frames =
          callee :: { f with
            workspace := ⟨f.workspace.stack.drop n, f.workspace.locals⟩
            cursor := f.cursor + 1 } :: below ∧
        callee.owner = owner ∧ callee.method = method ∧ callee.cursor = 0 ∧
        callee.workspace.stack = [] ∧
        callee.workspace.locals.size = max method.maxLocals.toNat n ∧
        (∀ i < n, callee.workspace.locals[i]? = some f.workspace.stack[n - 1 - i]?) ∧
        ∀ i, n ≤ i → i < max method.maxLocals.toNat n →
          callee.workspace.locals[i]? = some none) ∧
    (n ≤ f.workspace.stack.length → m.calls.maxDepth ≤ m.calls.depth →
      out.1 = some (.error (.stackOverflow m.calls.maxDepth)) ∧
      out.2.calls.frames =
        { f with
          workspace := ⟨f.workspace.stack.drop n, f.workspace.locals⟩
          cursor := f.cursor + 1 } :: below) := by
  intro n out
  have hcount : method.parameterCount = n := h.parameterCount_eq hs
  rcases Nat.lt_or_ge f.workspace.stack.length n with hshort | hn
  · obtain ⟨log, hstep⟩ := h.underflows (hcount.symm ▸ hshort)
    have hout : out = _ := hstep
    have habsurd : ¬ n ≤ f.workspace.stack.length := Nat.not_le_of_lt hshort
    rw [hout]
    exact ⟨⟨fun _ => hshort, fun _ => rfl⟩, fun _ => rfl, fun hle => absurd hle habsurd,
      fun hle => absurd hle habsurd⟩
  have habsurd : ¬ f.workspace.stack.length < n := Nat.not_lt_of_le hn
  rcases Nat.lt_or_ge m.calls.depth m.calls.maxDepth with hroom | hfull
  · obtain ⟨log, hstep⟩ := h.enters (hcount.symm ▸ hn) hroom
    rw [hcount] at hstep
    have hout : out = _ := hstep
    rw [hout]
    refine ⟨⟨nofun, fun hlt => absurd hlt habsurd⟩, fun hlt => absurd hlt habsurd, fun _ _ => ?_,
      fun _ hge => absurd hroom (Nat.not_lt_of_le hge)⟩
    exact ⟨rfl, _, rfl, rfl, rfl, rfl, rfl, Frame.enter_arguments owner method hn⟩
  · obtain ⟨log, hstep⟩ := h.overflows (hcount.symm ▸ hn) hfull
    rw [hcount] at hstep
    have hout : out = _ := hstep
    rw [hout]
    exact ⟨⟨nofun, fun hlt => absurd hlt habsurd⟩, fun hlt => absurd hlt habsurd,
      fun _ hlt => absurd hlt (Nat.not_lt_of_le hfull), fun _ _ => ⟨rfl, rfl⟩⟩

end Machine

namespace Difference

/-- Slot 6 refers to the method `difference`. -/
def pool : ConstantPool := ⟨#[
  some (.utf8 "Difference"), some (.classInfo 1), some (.utf8 "difference"), some (.utf8 "(II)I"),
  some (.nameAndType 3 4), some (.method 2 5)]⟩

def ref : MemberRef := ⟨"Difference", "difference", "(II)I"⟩

/-- `return a - b;`, whatever number of variables it declares. -/
def body (maxLocals : UInt16) : Body where
  maxStack := 2
  maxLocals := maxLocals
  code := [0x1a, 0x1b, 0x64, 0xac]
  instructions := #[⟨0, .ofByte 0x1a, .load 0⟩, ⟨1, .ofByte 0x1b, .load 1⟩,
    ⟨2, .ofByte 0x64, .arithmetic .sub⟩, ⟨3, .ofByte 0xac, .returnValue⟩]
  offsets := #[some 0, some 1, some 2, some 3]
  instructions_eq := rfl
  offsets_eq := by decide

def difference (maxLocals : UInt16) : Method where
  name := "difference"
  descriptor := "(II)I"
  flags := Method.staticFlag
  signature := ⟨[.base .int, .base .int], some (.base .int)⟩
  body := some (body maxLocals)
  signature_eq := rfl

/-- A call of `difference`, the result of which is dropped. -/
def mainBody : Body where
  maxStack := 2
  maxLocals := 0
  code := [0xb8, 0x00, 0x06, 0x57, 0xb1]
  instructions := #[⟨0, .ofByte 0xb8, .invokeStatic 6⟩, ⟨3, .ofByte 0x57, .pop⟩,
    ⟨4, .ofByte 0xb1, .returnVoid⟩]
  offsets := #[some 0, none, none, some 1, some 2]
  instructions_eq := rfl
  offsets_eq := by decide

def main : Method := .procedure "main" Method.staticFlag (some mainBody)

def program (maxLocals : UInt16) : LoadedClass :=
  ⟨"Difference", none, pool, [main, difference maxLocals]⟩

def loader (maxLocals : UInt16) : Loader := .ofClasses [("Difference", program maxLocals)]

/-- The main method before its call, with these values on its stack. -/
def caller (maxLocals : UInt16) (stack : List Value) : Frame :=
  ⟨program maxLocals, main, ⟨stack, #[]⟩, 0⟩

def machine (maxLocals : UInt16) (maxDepth : Nat) (stack : List Value) : Machine :=
  (Machine.new "Difference" maxDepth .unlimited (.empty .quiet)).withFrames [caller maxLocals stack]

theorem atCall (maxLocals : UInt16) (maxDepth : Nat) (stack : List Value) :
    (machine maxLocals maxDepth stack).AtCall (loader maxLocals) (caller maxLocals stack) [] ref
      (program maxLocals) (difference maxLocals) where
  frames_eq := rfl
  invokes := ⟨⟨0, .ofByte 0xb8, .invokeStatic 6⟩, 6, rfl, rfl, rfl⟩
  load := by
    have hname : ClassName.internal "Difference" = "Difference" := by decide +kernel
    exact ClassStore.load_new rfl (by rw [ref, hname]; rfl)
  found := rfl
  hasCode := rfl

/-- Of 7 and 5, 7 is the first argument. One value is too few, and at a limit of 1 there is no second
frame. -/
theorem call_hands_over_arguments_difference :
    let stack : List Value := [.int 5, .int 7, .printStream]
    let out := (machine 3 2 stack).step (loader 3)
    (out.1 = some (.ok ()) ∧ ∃ callee,
      out.2.calls.frames = [callee, { caller 3 [.printStream] with cursor := 1 }] ∧
      callee.workspace.locals[0]? = some (some (.int 7)) ∧
      callee.workspace.locals[1]? = some (some (.int 5)) ∧
      callee.workspace.locals[2]? = some none) ∧
    ((machine 0 2 stack).step (loader 0)).2.calls.frames.head?.map (·.workspace.locals.size) =
      some 2 ∧
    ((machine 0 2 [.int 5]).step (loader 0)).1 = some (.error .stackUnderflow) ∧
    ((machine 0 1 stack).step (loader 0)).1 = some (.error (.stackOverflow 1)) := by
  intro stack out
  have hcall (maxLocals : UInt16) (maxDepth : Nat) (stack : List Value) :=
    Machine.call_hands_over_arguments (atCall maxLocals maxDepth stack)
      (s := ⟨[.base .int, .base .int], some (.base .int)⟩) rfl
  obtain ⟨-, -, hmore, -⟩ := hcall 3 2 stack
  obtain ⟨-, -, hfewer, -⟩ := hcall 0 2 stack
  obtain ⟨hok, callee, hframes, -, -, -, -, -, harguments, hunset⟩ := hmore (by decide) (by decide)
  obtain ⟨-, other, hothers, -, -, -, -, hsize, -⟩ := hfewer (by decide) (by decide)
  refine ⟨⟨hok, callee, hframes, harguments 0 (by decide), harguments 1 (by decide),
    hunset 2 (by decide) (by decide)⟩, ?_, ?_, ?_⟩
  · rw [hothers]
    exact congrArg some hsize
  · exact (hcall 0 2 [.int 5]).1.mpr (by decide)
  · exact ((hcall 0 1 stack).2.2.2 (by decide) (by decide)).1

end Difference
end ClassVM
