import ClassVM.Proofs.Expressions.Compilation
import ClassVM.Proofs.Machine.Run

namespace ClassVM

namespace Frame
open Item

/-- These items are the next ones of the method from `n` instructions behind the cursor on. -/
def Holds (f : Frame) (n : Nat) (xs : List Item) : Prop :=
  ∀ j x, xs[j]? = some x → ∃ pc, f.method.instructions[f.cursor + n + j]? = some (x.instruction pc)

variable {f : Frame} {n : Nat} {x : Item} {xs ys : List Item}

theorem Holds.left (h : f.Holds n (xs ++ ys)) : f.Holds n xs := by
  intro j x hx
  have hlt := (List.getElem?_eq_some_iff.mp hx).1
  exact h j x (by rwa [List.getElem?_append_left hlt])

theorem Holds.right (h : f.Holds n (xs ++ ys)) : f.Holds (n + xs.length) ys := by
  intro j x hx
  obtain ⟨pc, hpc⟩ := h (xs.length + j) x (by
    rwa [List.getElem?_append_right (Nat.le_add_right ..), Nat.add_sub_cancel_left])
  refine ⟨pc, ?_⟩
  rw [← hpc]
  congr 1
  omega

theorem Holds.head (h : f.Holds n [x]) :
    ∃ pc, f.method.instructions[f.cursor + n]? = some (x.instruction pc) := h 0 x rfl

theorem holds_of_code {before after : List Item} {body : Body} (hbody : f.method.body = some body)
    (hcode : body.code = assemble (before ++ xs ++ after))
    (hlaid : WellLaid 0 (before ++ xs ++ after)) (hcursor : f.cursor = before.length) :
    f.Holds 0 xs := by
  have hlisted := listed_of_code hbody hcode hlaid
  intro j x hx
  have hlt := (List.getElem?_eq_some_iff.mp hx).1
  have hposition : (before ++ xs ++ after)[f.cursor + 0 + j]? = some x := by
    rw [hcursor, Nat.add_zero, List.append_assoc, List.getElem?_append_right (Nat.le_add_right ..),
      Nat.add_sub_cancel_left, List.getElem?_append_left hlt, hx]
  exact ⟨_, by rw [instruction_of_listing hlisted, hposition]; rfl⟩

end Frame

namespace Machine
open Item

/-- The machine when its innermost frame `f` has come `n` instructions further and has this stack.
Nothing else is different, but for what has been reported. -/
def advanced (m : Machine) (f : Frame) (below : List Frame) (n : Nat) (stack : List Value) (log : Log) :
    Machine :=
  { m.withFrames ({ f with
      workspace := { f.workspace with stack := stack }, cursor := f.cursor + n } :: below) with
    log := log }

variable {loader : Loader} {m : Machine} {f : Frame} {below : List Frame} {n : Nat}
  {stack stack' : List Value} {log : Log}

theorem run_advanced {i : Instruction} (hi : f.method.instructions[f.cursor + n]? = some i)
    (hexecute : i.execute f.owner.pool ⟨stack, f.workspace.locals⟩ =
      (.ok .next, ⟨stack', f.workspace.locals⟩)) :
    (m.advanced f below n stack log).run loader 1 =
      (none, m.advanced f below (n + 1) stack'
        (log.record (.executing f.owner.name f.method.name i))) := by
  have hstep : (m.advanced f below n stack log).step loader = _ := step_eq rfl hi
  simp only [advanced, hexecute] at hstep
  exact run_succ_of_step hstep 0

theorem fails_advanced {i : Instruction} {e : RunError} {w : Workspace}
    (hi : f.method.instructions[f.cursor + n]? = some i)
    (hexecute : i.execute f.owner.pool ⟨stack, f.workspace.locals⟩ = (.error e, w)) :
    ((m.advanced f below n stack log).step loader).1 = some (.error e) := by
  have hstep : (m.advanced f below n stack log).step loader = _ := step_eq rfl hi
  simp only [advanced, hexecute] at hstep
  exact congrArg Prod.fst hstep

/-- What comes of running the code of an expression, if it stands `n` instructions behind the cursor
of `f`. -/
inductive Evaluates (loader : Loader) (m : Machine) (f : Frame) (below : List Frame)
    (vars : UInt16 → Int32) (e : Expression) (n : Nat) (stack : List Value) (log : Log) : Prop where
  | value (v : Int32) (after : Log) (hfault : e.fault? vars = none)
    (hvalue : e.value? vars = some v.toInt)
    (hrun : (m.advanced f below n stack log).run loader e.postorder.length =
      (none, m.advanced f below (n + e.postorder.length) (.int v :: stack) after))
  | fault (k : Nat) (left : List Value) (after : Log) (hfault : e.fault? vars = some k)
    (hrun : (m.advanced f below n stack log).run loader k =
      (none, m.advanced f below (n + k) left after))
    (hfails : ((m.advanced f below (n + k) left after).step loader).1 =
      some (.error .divisionByZero))

theorem evaluates_negate {vars : UInt16 → Int32} {operand : Expression}
    (h : Evaluates loader m f below vars operand n stack log)
    (hcode : f.Holds (n + operand.postorder.length) [negation]) :
    Evaluates loader m f below vars (.negate operand) n stack log := by
  obtain ⟨pc, hi⟩ := hcode.head
  have hsame := Expression.fault?_negate vars operand
  cases h with
  | fault k left after hk hrun hfails => exact .fault k left after (hsame.trans hk) hrun hfails
  | value v after hnone hvalue hrun =>
    have hall := (run_add hrun 1).trans (run_advanced hi (Instruction.execute_negate rfl))
    rw [Nat.add_assoc, ← operand.postorder_negate_length] at hall
    refine .value (-v) _ (hsame.trans hnone) ?_ hall
    rw [Expression.value?, hvalue, Int32.toInt_neg]
    rfl

/-- With the values of both operands on the stack, the operator makes one of them or divides by
zero. -/
theorem evaluates_of_operands {vars : UInt16 → Int32} {operator : Operator} {left right : Expression}
    {a b : Int32} {after : Log} (hleft : left.fault? vars = none)
    (hright : right.fault? vars = none) (ha : left.value? vars = some a.toInt)
    (hb : right.value? vars = some b.toInt)
    (hrun : (m.advanced f below n stack log).run loader
        (left.postorder.length + right.postorder.length) =
      (none, m.advanced f below (n + (left.postorder.length + right.postorder.length))
        (.int b :: .int a :: stack) after))
    (hcode : f.Holds (n + (left.postorder.length + right.postorder.length))
      [operation operator]) :
    Evaluates loader m f below vars (.binary operator left right) n stack log := by
  obtain ⟨pc, hi⟩ := hcode.head
  have hop : ((operation operator).instruction pc).op = .arithmetic operator := by
    cases operator <;> rfl
  have hexecute : ((operation operator).instruction pc).execute f.owner.pool
      ⟨.int b :: .int a :: stack, f.workspace.locals⟩ = _ := Instruction.execute_arithmetic hop
  have hfault := Expression.fault?_binary vars operator left right
  rw [hleft, hright] at hfault
  cases hvalue : operator.value? a.toInt b.toInt with
  | none =>
    have hzero : (Expression.binary operator left right).dividesByZero vars = true :=
      (Expression.dividesByZero_iff hb).mpr hvalue
    rw [if_pos hzero] at hfault
    rw [Operator.apply_of_value?_eq_none hvalue] at hexecute
    exact .fault _ _ after hfault hrun (fails_advanced hi hexecute)
  | some c =>
    have hzero : (Expression.binary operator left right).dividesByZero vars ≠ true := by
      rw [Ne, Expression.dividesByZero_iff hb, hvalue]
      simp
    rw [if_neg hzero] at hfault
    obtain ⟨v, happly, rfl⟩ := Operator.apply_of_value? hvalue
    rw [happly] at hexecute
    have hall := (run_add hrun 1).trans (run_advanced hi hexecute)
    rw [Nat.add_assoc n, ← Expression.postorder_binary_length operator] at hall
    refine .value v _ hfault ?_ hall
    rw [Expression.value?, ha, hb]
    exact hvalue

theorem evaluates_binary {vars : UInt16 → Int32} {operator : Operator} {left right : Expression}
    (hleft : Evaluates loader m f below vars left n stack log)
    (hright : ∀ stack log,
      Evaluates loader m f below vars right (n + left.postorder.length) stack log)
    (hcode : f.Holds (n + left.postorder.length + right.postorder.length) [operation operator]) :
    Evaluates loader m f below vars (.binary operator left right) n stack log := by
  have hfault := Expression.fault?_binary vars operator left right
  cases hleft with
  | fault k rest after hk hrun hfails =>
    rw [hk] at hfault
    exact .fault k rest after hfault hrun hfails
  | value a middle hnone ha hrun =>
    cases hright (.int a :: stack) middle with
    | fault k rest after hk hrest hfails =>
      rw [hnone, hk] at hfault
      have hboth := (run_add hrun k).trans hrest
      rw [Nat.add_assoc] at hboth hfails
      refine .fault (left.postorder.length + k) rest after ?_ hboth hfails
      rw [Nat.add_comm]
      exact hfault
    | value b after hnone' hb hrest =>
      have hboth := (run_add hrun _).trans hrest
      rw [Nat.add_assoc] at hboth hcode
      exact evaluates_of_operands hnone hnone' ha hb hboth hcode

/-- The induction is on the expression. The stack grows by a value for the left operand before the code
of the right one is run. -/
theorem evaluates_of_compiled {vars : UInt16 → Int32} {e : Expression} {xs : List Item}
    (h : Compiled f.owner.pool e xs)
    (hvars : ∀ slot ∈ e.slots, f.workspace.locals[slot.toNat]? = some (some (.int (vars slot))))
    (hcode : f.Holds n xs) (stack : List Value) (log : Log) :
    Evaluates loader m f below vars e n stack log := by
  induction h generalizing n stack log with
  | constant h =>
    obtain ⟨pc, hi⟩ := hcode.head
    exact .value _ _ rfl rfl (run_advanced hi (h.execute pc))
  | load h =>
    obtain ⟨pc, hi⟩ := hcode.head
    exact .value _ _ rfl rfl (run_advanced hi (h.execute (hvars _ List.mem_cons_self) pc))
  | negate h ih =>
    have hlast := hcode.right
    rw [h.length_eq] at hlast
    exact evaluates_negate (ih hvars hcode.left stack log) hlast
  | binary operator hleft hright ihleft ihright =>
    have hlast := hcode.right
    have hmore := hcode.left.right
    rw [List.length_append, hleft.length_eq, hright.length_eq, ← Nat.add_assoc] at hlast
    rw [hleft.length_eq] at hmore
    obtain ⟨hvarsleft, hvarsright⟩ := List.forall_mem_append.mp hvars
    exact evaluates_binary (ihleft hvarsleft hcode.left.left stack log)
      (ihright hvarsright hmore) hlast

theorem advanced_zero (hf : m.calls.frames = f :: below) :
    m.advanced f below 0 f.workspace.stack m.log = m := by
  obtain ⟨mainClass, store, ⟨maxDepth, frames, depth, depth_eq⟩, console, log⟩ := m
  simp only at hf
  subst hf depth_eq
  rfl

/-- Compiled code leaves the value of its expression on whatever stack there is, one step for each
instruction, or fails at the first division by zero in post-order. -/
theorem run_expression (loader : Loader) (hf : m.calls.frames = f :: below) {e : Expression}
    {xs before after : List Item} (hcompiled : Compiled f.owner.pool e xs) {body : Body}
    (hbody : f.method.body = some body) (hcode : body.code = assemble (before ++ xs ++ after))
    (hbefore : WellLaid 0 before) (hafter : WellLaid (assemble (before ++ xs)).length after)
    (hcursor : f.cursor = before.length) {vars : UInt16 → Int32}
    (hvars : ∀ slot ∈ e.slots, f.workspace.locals[slot.toNat]? = some (some (.int (vars slot)))) :
    (e.fault? vars = none → ∃ value log, e.value? vars = some value.toInt ∧
      m.run loader xs.length =
        (none, m.advanced f below xs.length (.int value :: f.workspace.stack) log)) ∧
    ∀ k, e.fault? vars = some k →
      (∃ operator left right, e.postorder[k]? = some (.binary operator left right) ∧
        xs[k]? = some (operation operator) ∧ (operator = .div ∨ operator = .rem) ∧
        right.value? vars = some 0) ∧
      (∃ stack log, m.run loader k = (none, m.advanced f below k stack log)) ∧
      ∀ fuel > k, (m.run loader fuel).1 = some (.error .divisionByZero) := by
  have hlaid : WellLaid 0 (before ++ xs ++ after) := by
    refine (hbefore.append (hcompiled.wellLaid _)).append ?_
    rwa [Nat.zero_add]
  have hholds : f.Holds 0 xs := Frame.holds_of_code hbody hcode hlaid hcursor
  have hevaluates : Evaluates loader m f below vars e 0 f.workspace.stack m.log :=
    evaluates_of_compiled hcompiled hvars hholds f.workspace.stack m.log
  cases hevaluates with
  | value v log hnone hvalue hrun =>
    rw [advanced_zero hf, Nat.zero_add, ← hcompiled.length_eq] at hrun
    refine ⟨fun _ => ⟨v, log, hvalue, hrun⟩, fun k hk => ?_⟩
    rw [hnone] at hk
    cases hk
  | fault k stack log hk hrun hfails =>
    rw [advanced_zero hf, Nat.zero_add] at hrun
    rw [Nat.zero_add] at hfails
    refine ⟨fun hnone => ?_, fun k' hk' => ?_⟩
    · rw [hk] at hnone
      cases hnone
    · obtain rfl : k = k' := Option.some.inj (hk.symm.trans hk')
      refine ⟨Expression.of_fault? hcompiled hk, ⟨stack, log, hrun⟩, fun fuel hfuel => ?_⟩
      rw [run_of_failing_step hrun (Prod.ext hfails rfl) hfuel]

end Machine

namespace Quotient
open Item

/-- `-7 / x`, where `x` is the first variable. -/
def expression : Expression := .binary .div (.constant (-7)) (.load 0)

def code : List Item := [plain (.ofByte 0x10) [0xf9]] ++ [plain (.ofByte 0x1a) []] ++
  [operation .div]

/-- `return -7 / x;` after a `nop`. -/
def body : Body := toBody 2 1
  ([plain (.ofByte 0x00) []] ++ code ++ [plain (.ofByte 0xac) []]) (by decide) (by decide)

def method : Method := .procedure "main" Method.staticFlag (some body)

/-- The method behind the `nop`, with another value on its stack. -/
def frame (x : Int32) : Frame :=
  ⟨⟨"Quotient", none, ⟨#[]⟩, [method]⟩, method, ⟨[.printStream], #[some (.int x)]⟩, 1⟩

def machine (x : Int32) : Machine :=
  (Machine.new "Quotient" 1 .unlimited (.empty .quiet)).withFrames [frame x]

theorem compiled (pool : ConstantPool) : Compiled pool expression code :=
  .binary .div (.constant (.bipush [0xf9] rfl (by decide))) (.load (.short _ (by decide) rfl))

/-- If `x` is 2, the value is -3, rounded toward zero; if it is 0, the division fails. -/
theorem run_expression_quotient :
    let loader := Loader.ofClasses []
    (∃ log, (machine 2).run loader 3 =
      (none, (machine 2).advanced (frame 2) [] 3 [.int (-3), .printStream] log)) ∧
    ∀ fuel > 2, ((machine 0).run loader fuel).1 = some (.error .divisionByZero) := by
  intro loader
  have hvars : ∀ x, ∀ slot ∈ expression.slots,
      (frame x).workspace.locals[slot.toNat]? = some (some (.int x)) := by
    intro x slot hslot
    obtain rfl : slot = 0 := List.mem_singleton.mp hslot
    rfl
  have hcode : body.code = assemble ([plain (.ofByte 0x00) []] ++ code ++
      [plain (.ofByte 0xac) []]) := rfl
  have hrun := fun x => Machine.run_expression loader (m := machine x) (f := frame x) rfl
    (compiled _) rfl hcode (by decide) (by decide) rfl (hvars x)
  constructor
  · obtain ⟨value, log, hvalue, hdone⟩ := (hrun 2).1 (by decide)
    have hminus : expression.value? (fun _ => 2) = some (-3 : Int32).toInt := by decide
    obtain rfl : value = -3 :=
      Int32.toInt_inj.mp (Option.some.inj (hvalue.symm.trans hminus))
    exact ⟨log, hdone⟩
  · exact ((hrun 0).2 2 (by decide)).2.2

end Quotient
end ClassVM
