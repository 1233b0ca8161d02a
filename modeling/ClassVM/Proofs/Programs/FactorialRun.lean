import ClassVM.Proofs.Calls.Blocks
import ClassVM.Proofs.Calls.Bodies
import ClassVM.Proofs.Expressions.Compilation
import ClassVM.Proofs.Programs.FactorialTyping
import Mathlib.Data.Nat.Factorial.Basic

namespace ClassVM.Factorial
open Binary Item Machine

/-- `if (x - 1 == 0) return 1;`, after which `x` and `x - 1` are pushed. -/
def descent : List Item :=
  [plain (.ofByte 0x1a) [], plain (.ofByte 0x04) [], plain (.ofByte 0x64) [],
    plain (.ofByte 0x9a) [0x00, 0x05], plain (.ofByte 0x04) [], plain (.ofByte 0xac) [],
    plain (.ofByte 0x1a) [], plain (.ofByte 0x1a) [], plain (.ofByte 0x04) [],
    plain (.ofByte 0x64) []]

/-- Then `return x * factorial(x - 1);`, where slot `call` refers to the method itself. -/
def recursion (call : UInt16) : List Item :=
  descent ++ [plain (.ofByte 0xb8) (octets 2 call.toNat), plain (.ofByte 0x68) [],
    plain (.ofByte 0xac) []]

/-- `System.out.println(factorial(n));`, where `push` pushes the number. -/
def printing (out call print : UInt16) (push : Item) : List Item :=
  [plain (.ofByte 0xb2) (octets 2 out.toNat), push, plain (.ofByte 0xb8) (octets 2 call.toNat),
    plain (.ofByte 0xb6) (octets 2 print.toNat), plain (.ofByte 0xb1) []]

def descentOps : List Op :=
  [.load 0, .push 1, .arithmetic .sub, .branchIf .ne 8, .push 1, .returnValue, .load 0, .load 0,
    .push 1, .arithmetic .sub]

/-- What the instructions of `recursion` do. -/
def recursionOps (call : UInt16) : List Op :=
  descentOps ++ [.invokeStatic call, .arithmetic .mul, .returnValue]

/-- A class with a recursive `factorial`. What the method declares besides its code is open. -/
structure Recursive (owner : LoadedClass) where
  className : String
  call : UInt16
  method : Method
  body : Body
  call_ref : owner.pool.methodRef call = .ok ⟨className, "factorial", "(I)I"⟩
  found : owner.findMethod? "factorial" "(I)I" = some method
  body_eq : method.body = some body
  code_eq : body.code = assemble (recursion call)

/-- Such a class whose main method prints the factorial of `n`. The number may be pushed in any way. -/
structure Printing (owner : LoadedClass) (n : Int32) extends Recursive owner where
  out : UInt16
  print : UInt16
  push : Item
  main : Method
  mainBody : Body
  out_ref : owner.pool.fieldRef out =
    .ok ⟨"java/lang/System", "out", "Ljava/io/PrintStream;"⟩
  print_ref : owner.pool.methodRef print = .ok ⟨"java/io/PrintStream", "println", "(I)V"⟩
  pushes : push.Pushes owner.pool n
  main_found : owner.method? "main" = some main
  main_body_eq : main.body = some mainBody
  main_code_eq : mainBody.code = assemble (printing out call print push)

theorem wellLaid_recursion (call : UInt16) : WellLaid 0 (recursion call) := by
  refine WellLaid.append (by decide) ⟨?_, ?_, ?_, trivial⟩
  · exact ⟨by decide, by decide, by decide, octets_length 2 _⟩
  · exact ⟨by decide, by decide, by decide, rfl⟩
  · exact ⟨by decide, by decide, by decide, rfl⟩

theorem ops_recursion (call : UInt16) :
    (listing 0 (recursion call)).map (·.op) = recursionOps call := by
  have hdescent : (listing 0 descent).map (·.op) = descentOps := by decide +kernel
  have hcall (pc : Nat) : (plain (.ofByte 0xb8) (octets 2 call.toNat)).op pc = .invokeStatic call :=
    congrArg Op.invokeStatic (ofNat_bigEndian_octets call)
  rw [recursion, listing_append, List.map_append, hdescent, recursionOps]
  simp only [listing, List.map_cons, List.map_nil, instruction, hcall]
  rfl

theorem wellLaid_printing (out call print : UInt16) {push : Item} {pool : ConstantPool} {n : Int32}
    (h : push.Pushes pool n) : WellLaid 0 (printing out call print push) := by
  refine ⟨?_, h.wellFormed _, ?_, ?_, ?_, trivial⟩
  · exact ⟨by decide, by decide, by decide, octets_length 2 _⟩
  · exact ⟨by decide, by decide, by decide, octets_length 2 _⟩
  · exact ⟨by decide, by decide, by decide, octets_length 2 _⟩
  · exact ⟨by decide, by decide, by decide, rfl⟩

variable {owner : LoadedClass}

theorem ofNat_succ_sub_one (k : Nat) : Int32.ofNat (k + 1) - 1 = Int32.ofNat k := by
  rw [Int32.ofNat_add]
  exact Int32.add_sub_cancel _ _

theorem ofNat_ne_zero {k : Nat} (hpos : 0 < k) (hk : k ≤ 2147483647) : Int32.ofNat k ≠ 0 := by
  intro hzero
  have hvalue := Int32.toInt_ofNat_of_lt (Nat.lt_succ_of_le hk)
  rw [hzero, Int32.toInt_zero] at hvalue
  omega

namespace Recursive
variable (p : Recursive owner)

def ref : MemberRef := ⟨p.className, "factorial", "(I)I"⟩

/-- An invocation of `factorial` with the argument `x`. -/
def frame (x : Int32) (cursor : Nat) (stack : List Value) : Frame :=
  (Frame.enter owner p.method [.int x]).positioned cursor stack

theorem listed : p.method.instructions.toList = listing 0 (recursion p.call) :=
  listed_of_code p.body_eq p.code_eq (wellLaid_recursion p.call)

theorem has {position : Nat} {op : Op} (h : (recursionOps p.call)[position]? = some op) :
    p.method.Has position op := by
  rw [← ops_recursion, ← p.listed, List.getElem?_map, Option.map_eq_some_iff] at h
  obtain ⟨i, hi, hop⟩ := h
  exact ⟨i, by rwa [← Array.getElem?_toList], hop⟩

theorem indexOf?_branch : p.method.indexOf? 8 = some 6 := by
  refine (p.method.indexOf?_eq_some_iff 8 6).mpr ?_
  rw [instruction_of_listing p.listed]
  exact ⟨_, rfl, rfl⟩

theorem locals_frame (x : Int32) (cursor : Nat) (stack : List Value) :
    (p.frame x cursor stack).workspace.locals[0]? = some (some (.int x)) := by
  have hroom : 0 < max p.method.maxLocals.toNat [Value.int x].length :=
    Nat.lt_of_lt_of_le Nat.one_pos (Nat.le_max_right ..)
  exact (Workspace.withArguments_locals [.int x] p.method.maxLocals.toNat 0).trans (if_pos hroom)

section blocks
variable {loader : Loader} {m : Machine} {g : Frame} {below : List Frame}

/-- The two places where 1 is subtracted from the parameter. -/
theorem leads_decrement {cursor : Nat} (hcursor : cursor = 0 ∨ cursor = 7) (x : Int32)
    (stack : List Value) : Leads loader m 3 (p.frame x cursor stack :: below)
      (p.frame x (cursor + 3) (.int (x - 1) :: stack) :: below) := by
  have hload : p.method.Has cursor (.load 0) := by
    rcases hcursor with rfl | rfl <;> exact p.has rfl
  have hpush : p.method.Has (cursor + 1) (.push 1) := by
    rcases hcursor with rfl | rfl <;> exact p.has rfl
  have hsub : p.method.Has (cursor + 2) (.arithmetic .sub) := by
    rcases hcursor with rfl | rfl <;> exact p.has rfl
  exact ((leads_load hload (p.locals_frame x 0 [])).trans (leads_push hpush)).trans
    (leads_arithmetic hsub rfl)

/-- With the argument 1 the method answers by itself. -/
theorem leads_base :
    Leads loader m 6 (p.frame 1 0 [] :: g :: below) (g.given (.int 1) :: below) := by
  have hdecrement : Leads loader m 3 (p.frame 1 0 [] :: g :: below)
      (p.frame 1 3 [.int 0] :: g :: below) := p.leads_decrement (.inl rfl) 1 []
  have hbranch : Leads loader m 1 (p.frame 1 3 [.int 0] :: g :: below)
      (p.frame 1 4 [] :: g :: below) := leads_branch_passed (p.has rfl) (by decide)
  have hpush : Leads loader m 1 (p.frame 1 4 [] :: g :: below)
      (p.frame 1 5 [.int 1] :: g :: below) := leads_push (p.has rfl)
  have hreturn : Leads loader m 1 (p.frame 1 5 [.int 1] :: g :: below)
      (g.given (.int 1) :: below) := leads_returnValue (p.has rfl)
  exact ((hdecrement.trans hbranch).trans hpush).trans hreturn

/-- With any other argument it comes to call itself. -/
theorem leads_onward {x : Int32} (hx : x - 1 ≠ 0) :
    Leads loader m 8 (p.frame x 0 [] :: below) (p.frame x 10 [.int (x - 1), .int x] :: below) := by
  have hfirst : Leads loader m 3 (p.frame x 0 [] :: below)
      (p.frame x 3 [.int (x - 1)] :: below) := p.leads_decrement (.inl rfl) x []
  have hbranch : Leads loader m 1 (p.frame x 3 [.int (x - 1)] :: below)
      (p.frame x 6 [] :: below) :=
    leads_branch_taken (p.has rfl) (bne_iff_ne.mpr hx) p.indexOf?_branch
  have hload : Leads loader m 1 (p.frame x 6 [] :: below) (p.frame x 7 [.int x] :: below) :=
    leads_load (p.has rfl) (p.locals_frame x 0 [])
  have hlast : Leads loader m 3 (p.frame x 7 [.int x] :: below)
      (p.frame x 10 [.int (x - 1), .int x] :: below) := p.leads_decrement (.inr rfl) x [.int x]
  exact ((hfirst.trans hbranch).trans hload).trans hlast

/-- What the call came to is multiplied by the argument. -/
theorem leads_product (x y : Int32) :
    Leads loader m 2 (p.frame x 11 [.int y, .int x] :: g :: below)
      (g.given (.int (x * y)) :: below) := by
  have hmul : Leads loader m 1 (p.frame x 11 [.int y, .int x] :: g :: below)
      (p.frame x 12 [.int (x * y)] :: g :: below) := leads_arithmetic (p.has rfl) rfl
  exact hmul.trans (leads_returnValue (p.has rfl))

end blocks

theorem parameterCount_eq : p.method.parameterCount = 1 := by
  have hparsed := p.method.signature_eq
  have hdescriptor : p.method.descriptor = "(I)I" := (LoadedClass.of_findMethod? p.found).2.2
  rw [hdescriptor] at hparsed
  rw [Method.parameterCount, ← Except.ok.inj hparsed]
  rfl

theorem invokes_frame (x : Int32) (stack : List Value) : (p.frame x 10 stack).Invokes p.ref :=
  Frame.invokes_of_has (p.has rfl) p.call_ref

theorem body_isSome : p.method.body.isSome := by rw [p.body_eq, Option.isSome_some]

section calls
variable {loader : Loader} {m : Machine} {f : Frame} {below : List Frame} {rest : List Value}
  (hknown : m.store.find? p.className = some owner) (hinvokes : f.Invokes p.ref)
include hknown hinvokes

theorem leads_entry {x : Int32} (hstack : f.workspace.stack = .int x :: rest)
    (hdepth : below.length + 1 < m.calls.maxDepth) :
    Leads loader m 1 (f :: below) (p.frame x 0 [] :: f.positioned (f.cursor + 1) rest :: below) := by
  have hn : p.method.parameterCount ≤ f.workspace.stack.length := by
    rw [p.parameterCount_eq, hstack]
    exact Nat.le_add_left 1 _
  have hcall : Leads loader m 1 (f :: below) _ :=
    leads_call hinvokes hknown p.found p.body_isSome hn hdepth
  have harguments : f.arguments 1 = [.int x] := by
    rw [Frame.arguments, hstack]
    rfl
  have hwaiting : f.advance.withoutArguments 1 = f.positioned (f.cursor + 1) rest := by
    change f.positioned (f.cursor + 1) (f.workspace.stack.drop 1) = _
    rw [hstack, List.drop_one, List.tail_cons]
  rwa [p.parameterCount_eq, harguments, hwaiting] at hcall

theorem fails_entry {x : Int32} (hstack : f.workspace.stack = .int x :: rest)
    (hdepth : m.calls.maxDepth ≤ below.length + 1) :
    Fails loader m 1 (f :: below) (.stackOverflow m.calls.maxDepth) := by
  have hn : p.method.parameterCount ≤ f.workspace.stack.length := by
    rw [p.parameterCount_eq, hstack]
    exact Nat.le_add_left 1 _
  exact fails_call hinvokes hknown p.found p.body_isSome hn hdepth

/-- A call with an argument above 1 leads to the next call. -/
theorem leads_descent {k : Nat} (hk : k + 2 ≤ 2147483647)
    (hstack : f.workspace.stack = .int (.ofNat (k + 2)) :: rest)
    (hdepth : below.length + 1 < m.calls.maxDepth) :
    Leads loader m 9 (f :: below)
      (p.frame (.ofNat (k + 2)) 10 [.int (.ofNat (k + 1)), .int (.ofNat (k + 2))] ::
        f.positioned (f.cursor + 1) rest :: below) := by
  have hprevious : Int32.ofNat (k + 2) - 1 = .ofNat (k + 1) := ofNat_succ_sub_one (k + 1)
  have hne : Int32.ofNat (k + 2) - 1 ≠ 0 := by
    rw [hprevious]
    exact ofNat_ne_zero (Nat.succ_pos k) (by omega)
  rw [← hprevious]
  exact (p.leads_entry hknown hinvokes hstack hdepth).trans (p.leads_onward hne)

/-- A call with the argument `k + 1` comes back with the factorial, if there is room for `k + 1` more
frames. The induction is on `k`: the call that `factorial` makes has one frame more below it. -/
theorem leads_factorial {k : Nat} (hk : k + 1 ≤ 2147483647)
    (hstack : f.workspace.stack = .int (.ofNat (k + 1)) :: rest)
    (hdepth : below.length + 1 + (k + 1) ≤ m.calls.maxDepth) :
    Leads loader m (11 * k + 7) (f :: below)
      (f.positioned (f.cursor + 1) (.int (.ofNat (k + 1).factorial) :: rest) :: below) := by
  induction k generalizing f below rest with
  | zero => exact (p.leads_entry hknown hinvokes hstack (by omega)).trans p.leads_base
  | succ k ih =>
    let x := Int32.ofNat (k + 2)
    let g := f.positioned (f.cursor + 1) rest
    have hdescent : Leads loader m 9 (f :: below)
        (p.frame x 10 [.int (.ofNat (k + 1)), .int x] :: g :: below) :=
      p.leads_descent hknown hinvokes hk hstack (by omega)
    have hcall : Leads loader m (11 * k + 7)
        (p.frame x 10 [.int (.ofNat (k + 1)), .int x] :: g :: below)
        (p.frame x 11 [.int (.ofNat (k + 1).factorial), .int x] :: g :: below) :=
      ih (p.invokes_frame x _) (by omega) rfl (by rw [List.length_cons]; omega)
    have hsteps : 11 * (k + 1) + 7 = 9 + (11 * k + 7) + 2 := by omega
    rw [hsteps, Nat.factorial_succ, Int32.ofNat_mul]
    exact (hdescent.trans hcall).trans (p.leads_product x _)

/-- With less room, one of the calls comes to the limit. -/
theorem fails_factorial {k : Nat} (hk : k + 1 ≤ 2147483647)
    (hstack : f.workspace.stack = .int (.ofNat (k + 1)) :: rest)
    (hroom : below.length + 1 ≤ m.calls.maxDepth)
    (hdepth : m.calls.maxDepth < below.length + 1 + (k + 1)) :
    Fails loader m (9 * k + 1) (f :: below) (.stackOverflow m.calls.maxDepth) := by
  induction k generalizing f below rest with
  | zero => exact p.fails_entry hknown hinvokes hstack (by omega)
  | succ k ih =>
    rcases Nat.lt_or_ge (below.length + 1) m.calls.maxDepth with hlt | hfull
    · let x := Int32.ofNat (k + 2)
      let g := f.positioned (f.cursor + 1) rest
      have hdescent : Leads loader m 9 (f :: below)
          (p.frame x 10 [.int (.ofNat (k + 1)), .int x] :: g :: below) :=
        p.leads_descent hknown hinvokes hk hstack hlt
      have hcall : Fails loader m (9 * k + 1)
          (p.frame x 10 [.int (.ofNat (k + 1)), .int x] :: g :: below)
          (.stackOverflow m.calls.maxDepth) :=
        ih (p.invokes_frame x _) (by omega) rfl hlt (by rw [List.length_cons]; omega)
      have hsteps : 9 * (k + 1) + 1 = 9 + (9 * k + 1) := by omega
      rw [hsteps]
      exact hdescent.fails hcall
    · exact (p.fails_entry hknown hinvokes hstack hfull).mono (by omega)

end calls

end Recursive

namespace Printing
variable {n : Int32} (p : Printing owner n)

/-- The invocation of the main method. -/
def mainFrame (cursor : Nat) (stack : List Value) : Frame :=
  (Frame.enter owner p.main []).positioned cursor stack

theorem listed_main :
    p.main.instructions.toList = listing 0 (printing p.out p.call p.print p.push) :=
  listed_of_code p.main_body_eq p.main_code_eq (wellLaid_printing _ _ _ p.pushes)

theorem has_getStatic : p.main.Has 0 (.getStatic p.out) :=
  Method.has_of_listing p.listed_main rfl
    fun _ => congrArg Op.getStatic (ofNat_bigEndian_octets p.out)

theorem has_invokeStatic : p.main.Has 2 (.invokeStatic p.call) :=
  Method.has_of_listing p.listed_main rfl
    fun _ => congrArg Op.invokeStatic (ofNat_bigEndian_octets p.call)

theorem has_invokeVirtual : p.main.Has 3 (.invokeVirtual p.print) :=
  Method.has_of_listing p.listed_main rfl
    fun _ => congrArg Op.invokeVirtual (ofNat_bigEndian_octets p.print)

theorem has_return : p.main.Has 4 .returnVoid :=
  Method.has_of_listing p.listed_main rfl fun _ => rfl

theorem invokes_mainFrame (stack : List Value) : (p.mainFrame 2 stack).Invokes p.ref :=
  Frame.invokes_of_has p.has_invokeStatic p.call_ref

section runs
variable {loader : Loader} {m : Machine}

/-- The main method comes to its call. -/
theorem leads_main :
    Leads loader m 2 [p.mainFrame 0 []] [p.mainFrame 2 [.int n, .printStream]] := by
  have hpush := instruction_of_listing p.listed_main 1
  have hout : Leads loader m 1 [p.mainFrame 0 []] [p.mainFrame 1 [.printStream]] :=
    leads_getStatic p.has_getStatic p.out_ref (if_pos ⟨rfl, rfl⟩)
  have hnumber : Leads loader m 1 [p.mainFrame 1 [.printStream]]
      [p.mainFrame 2 [.int n, .printStream]] := leads_next hpush (p.pushes.execute _)
  exact hout.trans hnumber

/-- The call has come back, and its value is printed. -/
theorem step_println (loader : Loader) (hconsole : m.console = .unlimited) (x : Int32) (log : Log) :
    ∃ log', (m.reframed [p.mainFrame 3 [.int x, .printStream]] log).step loader =
      (some (.ok ()), reframed
        { m with console := ⟨(decimal x ++ "\n").toUTF8.data, none, false, 0⟩ }
        [p.mainFrame 4 []] log') := by
  have hprintln : PrintCall.ofRef? ⟨"java/io/PrintStream", "println", "(I)V"⟩ =
      some .printlnInt := by decide
  obtain ⟨log', hstep⟩ := step_print (f := .enter owner p.main []) p.has_invokeVirtual p.print_ref
    hprintln (by decide) x loader log
  have hwrite : Console.write (PrintCall.printlnInt.text x) .unlimited =
      (.ok (), ⟨(decimal x ++ "\n").toUTF8.data, none, false, 0⟩) := by
    simp [Console.write, Console.unlimited, PrintCall.text]
  rw [hconsole, hwrite] at hstep
  exact ⟨log', hstep⟩

end runs

/-- A new machine comes to the beginning of the main method, and then the class is loaded. -/
theorem exists_booted {loader : Loader} {mainClass : String}
    (hname : ClassName.internal mainClass = ClassName.internal p.className)
    (hanswer : (loader.find 0 (ClassName.internal mainClass)).answer = .ok (some owner))
    {maxDepth : Nat} (hroom : 0 < maxDepth) (log : Log) : ∃ booted : Machine,
    boot loader (Machine.new mainClass maxDepth .unlimited log) =
      (.ok (), booted.reframed [p.mainFrame 0 []] booted.log) ∧
    booted.calls.maxDepth = maxDepth ∧ booted.console = .unlimited ∧
    booted.store.find? p.className = some owner := by
  let m := Machine.new mainClass maxDepth .unlimited log
  have hload : (m.store.load loader mainClass).result = .ok owner :=
    ClassStore.load_new rfl hanswer
  have hknown : (m.store.load loader mainClass).store.find? p.className = some owner := by
    rw [ClassStore.find?, ← hname]
    exact ClassStore.find?_of_load hload
  exact ⟨(m.loaded loader mainClass).logged (.starting owner.name), boot_ok hload p.main_found hroom,
    rfl, rfl, hknown⟩

/-- The text of the number, with a line break. -/
def answer (k : Nat) : String := toString (wrap k.factorial) ++ "\n"

theorem answer_eq (k : Nat) : decimal (.ofNat k.factorial) ++ "\n" = answer k := by
  rw [decimal, Int32.toInt_ofNat']
  rfl

section recursion
variable (loader : Loader) {m : Machine} {k : Nat} (p : Printing owner (.ofNat (k + 1)))
  (hk : k + 1 ≤ 2147483647) (hknown : m.store.find? p.className = some owner)
include hk hknown

theorem fails_main (hpos : 0 < m.calls.maxDepth) (hdepth : m.calls.maxDepth < k + 2) :
    Fails loader m (2 + (9 * k + 1)) [p.mainFrame 0 []] (.stackOverflow m.calls.maxDepth) := by
  refine p.leads_main.fails (p.fails_factorial hknown (p.invokes_mainFrame _) hk rfl hpos ?_)
  rw [List.length_nil]
  omega

/-- All of the run, when there is room for it. -/
theorem run_main (hdepth : k + 2 ≤ m.calls.maxDepth) (hconsole : m.console = .unlimited) (log : Log) :
    ∃ last, last.calls.frames = [] ∧
      last.console = ⟨(answer (k + 1)).toUTF8.data, none, false, 0⟩ ∧
      ∀ fuel > 11 * (k + 1), (m.reframed [p.mainFrame 0 []] log).run loader fuel =
        (some (.ok ()), last) := by
  have hcall : Leads loader m (11 * k + 7) [p.mainFrame 2 [.int (.ofNat (k + 1)), .printStream]]
      [p.mainFrame 3 [.int (.ofNat (k + 1).factorial), .printStream]] :=
    p.leads_factorial hknown (p.invokes_mainFrame _) hk rfl (by rw [List.length_nil]; omega)
  obtain ⟨log₁, hrun⟩ := (p.leads_main.trans hcall) log
  obtain ⟨log₂, hprint⟩ := p.step_println loader hconsole (.ofNat (k + 1).factorial) log₁
  rw [answer_eq] at hprint
  let printed : Machine := { m with console := ⟨(answer (k + 1)).toUTF8.data, none, false, 0⟩ }
  have hreturn : Leads loader printed 1 [p.mainFrame 4 []] [] := leads_returnVoid p.has_return
  obtain ⟨log₃, hlast⟩ := hreturn log₂
  have hdone : (m.reframed [p.mainFrame 0 []] log).run loader (11 * (k + 1)) =
      (none, printed.reframed [] log₃) := by
    have hprinted := (run_add hrun 1).trans (run_succ_of_step hprint 0)
    have hsteps : 11 * (k + 1) = 2 + (11 * k + 7) + 1 + 1 := by omega
    rw [hsteps]
    exact (run_add hprinted 1).trans hlast
  refine ⟨printed.reframed [] log₃, rfl, rfl, fun fuel hfuel => ?_⟩
  obtain ⟨more, rfl⟩ := Nat.exists_eq_add_of_lt hfuel
  rw [Nat.add_assoc, run_add hdone]
  exact run_halted rfl more

end recursion

/-- If the limit allows `n + 1` invocations, the factorial of `n` is printed, in 32 bits, within `11 * n`
steps; if not, the run fails at the limit and prints nothing. -/
theorem start_prints_factorial {n : Nat} (hpos : 1 ≤ n) (hmax : n ≤ 2147483647)
    (p : Printing owner (.ofNat n)) {loader : Loader} {mainClass : String}
    (hname : ClassName.internal mainClass = ClassName.internal p.className)
    (hanswer : (loader.find 0 (ClassName.internal mainClass)).answer = .ok (some owner))
    (maxDepth : Nat) (log : Log) {fuel : Nat} (hfuel : 11 * n < fuel) :
    let out := (Machine.new mainClass maxDepth .unlimited log).start loader fuel
    (n + 1 ≤ maxDepth → out.1 = some (.ok ()) ∧ out.2.calls.frames = [] ∧
      out.2.console.written = (toString (wrap n.factorial) ++ "\n").toUTF8.data) ∧
    (maxDepth < n + 1 → out.1 = some (.error (.stackOverflow maxDepth)) ∧
      out.2.console.written = #[]) := by
  intro out
  obtain ⟨k, rfl⟩ : ∃ k, n = k + 1 := ⟨n - 1, by omega⟩
  rcases Nat.eq_zero_or_pos maxDepth with rfl | hroom
  · have hload : (ClassStore.empty.load loader mainClass).result = .ok owner :=
      ClassStore.load_new rfl hanswer
    obtain ⟨hresult, hconsole⟩ := start_without_room
      (m := Machine.new mainClass 0 .unlimited log) hload p.main_found rfl fuel
    exact ⟨fun hdepth => absurd hdepth (Nat.not_succ_le_zero _),
      fun _ => ⟨hresult, congrArg Console.written hconsole⟩⟩
  obtain ⟨booted, hboot, rfl, hunlimited, hknown⟩ := p.exists_booted hname hanswer hroom log
  constructor
  · intro hdepth
    obtain ⟨last, hframes, hconsole, hrun⟩ :=
      p.run_main loader hmax hknown hdepth hunlimited booted.log
    have hout : out = _ := start_of_run hboot (hrun fuel hfuel)
    refine ⟨?_, ?_, ?_⟩
    · rw [hout, hconsole]
      rfl
    · rw [hout]
      exact hframes
    · rw [hout, hconsole, answer]
  · intro hdepth
    obtain ⟨last, hconsole, hrun⟩ := p.fails_main loader hmax hknown hroom hdepth booted.log
    have hout : out = _ := start_of_run hboot (hrun fuel (by omega))
    rw [hout, hconsole, hunlimited]
    exact ⟨rfl, rfl⟩

end Printing

/-- The program with the number in its pool is one of these classes. -/
def printingProgram (n : Int32) : Printing (program n) n where
  className := "Factorial"
  call := 6
  method := factorial
  body := factorialBody
  call_ref := methodRef_factorial n
  found := findMethod_factorial n
  body_eq := rfl
  code_eq := by decide
  out := 12
  print := 18
  push := plain (.ofByte 0x12) [0x13]
  main := main
  mainBody := mainBody
  out_ref := rfl
  print_ref := rfl
  pushes := .ldc 0x13 rfl
  main_found := rfl
  main_body_eq := rfl
  main_code_eq := by decide

/-- The factorial of 13 is 6227020800. A limit of 14 is enough for it, and one of 13 is not. -/
theorem start_prints_factorial_thirteen :
    let start (maxDepth : Nat) :=
      (Machine.new "Factorial" maxDepth .unlimited (.empty .quiet)).start (loader (.ofNat 13)) 144
    (start 14).1 = some (.ok ()) ∧ (start 14).2.calls.frames = [] ∧
      (start 14).2.console.written = "1932053504\n".toUTF8.data ∧
      (start 13).1 = some (.error (.stackOverflow 13)) ∧ (start 13).2.console.written = #[] := by
  intro start
  have hanswer := find_factorial (.ofNat 13) 0
  have hstart (maxDepth : Nat) := Printing.start_prints_factorial (by decide : 1 ≤ 13) (by decide)
    (printingProgram (.ofNat 13)) rfl hanswer maxDepth (.empty .quiet) (by decide : 11 * 13 < 144)
  have htext : toString (wrap (Nat.factorial 13)) ++ "\n" = "1932053504\n" := by decide +kernel
  obtain ⟨hok, hframes, hwritten⟩ := (hstart 14).1 (by decide)
  obtain ⟨hfails, hnothing⟩ := (hstart 13).2 (by decide)
  rw [htext] at hwritten
  exact ⟨hok, hframes, hwritten, hfails, hnothing⟩

end ClassVM.Factorial
