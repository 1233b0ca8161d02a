import ClassVM.Proofs.Machine.Executed
import ClassVM.Proofs.Machine.Output
import ClassVM.Proofs.Programs.Factorial
import Mathlib.Data.List.Forall2

namespace ClassVM

/-- Instruction `i` of the frame calls this method of the output stream, with the operands on the stack
above the stream. -/
def Frame.CallsStream (f : Frame) (i : Instruction) (name descriptor : String)
    (operands : List Value) : Prop :=
  ∃ index rest, i.op = .invokeVirtual index ∧
    f.owner.pool.methodRef index = .ok ⟨"java/io/PrintStream", name, descriptor⟩ ∧
    f.workspace.stack = operands ++ .printStream :: rest

/-- What is printed when instruction `i` is executed in frame `f`. -/
inductive Prints (f : Frame) (i : Instruction) : String → Prop where
  | printlnInt (n : Int32) (hcall : f.CallsStream i "println" "(I)V" [.int n]) :
    Prints f i (decimal n ++ "\n")
  | printlnBoolean (n : Int32) (hcall : f.CallsStream i "println" "(Z)V" [.int n]) :
    Prints f i ((if n = 0 then "false" else "true") ++ "\n")
  /-- The character is given by the low 16 bits, unless these are half of a surrogate pair. -/
  | printlnChar (n : Int32) (c : Char) (hcall : f.CallsStream i "println" "(C)V" [.int n])
    (hc : let code := n.toBitVec.toNat % 0x10000
      c.toNat = if 0xd800 ≤ code ∧ code ≤ 0xdfff then 0xfffd else code) :
    Prints f i (String.singleton c ++ "\n")
  | println (hcall : f.CallsStream i "println" "()V" []) : Prints f i "\n"
  | printInt (n : Int32) (hcall : f.CallsStream i "print" "(I)V" [.int n]) : Prints f i (decimal n)

namespace PrintCall

theorem ref_of_ofRef? {ref : MemberRef} {call : PrintCall} (h : ofRef? ref = some call) :
    ref = ⟨"java/io/PrintStream", call.name, call.descriptor⟩ := by
  obtain ⟨className, name, descriptor⟩ := ref
  unfold ofRef? at h
  split at h
  next hclass =>
    have hfound := List.find?_some h
    simp only [Bool.and_eq_true, decide_eq_true_eq] at hfound
    obtain ⟨hname, hdescriptor⟩ := hfound
    simp only at hclass hname hdescriptor
    rw [hclass, ← hname, ← hdescriptor]
    rfl
  next => cases h

theorem charOf_toNat (n : Int32) :
    let code := n.toBitVec.toNat % 0x10000
    (charOf n).toNat = if 0xd800 ≤ code ∧ code ≤ 0xdfff then 0xfffd else code := by
  intro code
  have hbits : n.toUInt32.toNat % 65536 = code := rfl
  have hlt : code < 65536 := Nat.mod_lt _ (by decide)
  unfold charOf
  simp only [hbits]
  split
  next hvalid =>
    have hnot : ¬ (0xd800 ≤ code ∧ code ≤ 0xdfff) := by
      unfold Nat.isValidChar at hvalid
      omega
    rw [if_neg hnot, Char.ofNat, dif_pos hvalid]
    rfl
  next hinvalid =>
    have hsurrogate : 0xd800 ≤ code ∧ code ≤ 0xdfff := by
      unfold Nat.isValidChar at hinvalid
      omega
    rw [if_pos hsurrogate]
    rfl

end PrintCall

/-- An instruction that asks for a text to be printed calls one of the five methods. -/
theorem Frame.prints {f : Frame} {i : Instruction} {w : Workspace} {text : String}
    (h : i.execute f.owner.pool f.workspace = (.ok (.print text), w)) : Prints f i text := by
  obtain ⟨index, ref, call, n, hop, href, hcall, rfl, hstack⟩ := Instruction.op_of_print h
  rw [PrintCall.ref_of_ofRef? hcall] at href
  cases call with
  | printlnInt => exact .printlnInt n ⟨index, w.stack, hop, href, hstack⟩
  | printlnBoolean =>
    have htext : PrintCall.printlnBoolean.text n = (if n = 0 then "false" else "true") ++ "\n" := rfl
    exact htext ▸ .printlnBoolean n ⟨index, w.stack, hop, href, hstack⟩
  | printlnChar =>
    exact .printlnChar n _ ⟨index, w.stack, hop, href, hstack⟩ (PrintCall.charOf_toNat n)
  | println => exact .println ⟨index, w.stack, hop, href, hstack⟩
  | printInt => exact .printInt n ⟨index, w.stack, hop, href, hstack⟩

/-- The instruction is an `invokevirtual` and has succeeded. -/
def Executed.hasPrinted (done : Executed) : Bool :=
  match done.instruction.op, done.result with
  | .invokeVirtual _, .ok _ => true
  | _, _ => false

namespace Console

/-- The console after a text that fits. -/
def printed (console : Console) (text : String) : Console :=
  { console with written := console.written ++ text.toUTF8.data }

theorem write_of_unlimited {console : Console} (h : console.capacity = none) (text : String) :
    Console.write text console = (.ok (), console.printed text) := by
  obtain ⟨written, _, flushFails, flushes⟩ := console
  cases h
  rfl

end Console

namespace Machine
variable {loader : Loader} {m : Machine}

theorem hasPrinted_error (f : Frame) (i : Instruction) (e : RunError) :
    Executed.hasPrinted ⟨f, i, .error e⟩ = false := by
  unfold Executed.hasPrinted
  cases i.op <;> rfl

theorem hasPrinted_other {f : Frame} {i : Instruction} {w : Workspace} {control : Control}
    (hx : i.execute f.owner.pool f.workspace = (.ok control, w)) (h : ∀ text, control ≠ .print text)
    (result : Except RunError Unit) : Executed.hasPrinted ⟨f, i, result⟩ = false := by
  have hc := Instruction.control_of_execute hx
  unfold Executed.hasPrinted
  split
  next index _ hop _ =>
    simp only at hop
    rw [hop] at hc
    obtain ⟨text, htext⟩ := hc
    exact absurd htext (h text)
  next => rfl

theorem console_of_perform (loader : Loader) (m : Machine) (f : Frame) (below : List Frame)
    {control : Control} (h : ∀ text, control ≠ .print text) :
    (perform loader control (m.withFrames (f :: below))).2.console = m.console := by
  cases control with
  | next => rfl
  | print text => exact absurd rfl (h text)
  | jump target =>
    rw [perform_jump]
    cases f.method.indexOf? target <;> rfl
  | leave value =>
    rw [perform_leave]
    rfl
  | call ref =>
    rcases perform_call_cases loader m f below ref with
      ⟨_, _, _, _, _, _, _, _, hcalled⟩ | ⟨_, _, _, _, hfailed⟩
    · rw [hcalled]
      rfl
    · rw [hfailed]
      rfl

/-- A step prints a text if it executes an `invokevirtual` and succeeds, and prints nothing else. -/
theorem printed_of_step {f : Frame} {below : List Frame} {i : Instruction}
    {result : Except RunError Unit} {next : Machine} (hroom : m.console.capacity = none)
    (hf : m.calls.frames = f :: below) (hi : f.next? = some i)
    (hstep : m.step loader = (some result, next)) :
    if Executed.hasPrinted ⟨f, i, result⟩ then
      ∃ text, Prints f i text ∧ next.console = m.console.printed text
    else next.console = m.console := by
  rw [step_eq hf hi] at hstep
  rcases hx : i.execute f.owner.pool f.workspace with ⟨e | control, w⟩
  · simp only [hx] at hstep
    cases hstep
    rw [hasPrinted_error]
    rfl
  · simp only [hx] at hstep
    obtain ⟨hresult, hnext⟩ := Prod.mk.inj hstep
    by_cases hprint : ∃ text, control = .print text
    · obtain ⟨text, rfl⟩ := hprint
      obtain ⟨index, _, _, _, hop, -⟩ := Instruction.op_of_print hx
      have hwrite := Console.write_of_unlimited hroom text
      have hok : result = .ok () := (Option.some.inj hresult).symm.trans (congrArg Prod.fst hwrite)
      have hprinted : Executed.hasPrinted ⟨f, i, result⟩ = true := by
        simp only [Executed.hasPrinted, hop, hok]
      rw [if_pos hprinted, ← hnext]
      exact ⟨text, Frame.prints hx, congrArg Prod.snd hwrite⟩
    · have hother : ∀ text, control ≠ .print text := fun text h => hprint ⟨text, h⟩
      rw [hasPrinted_other hx hother, ← hnext]
      exact console_of_perform loader _ _ below hother

/-- What the texts come to when they are printed one after another. -/
theorem printed_of_runs {done : List Executed} {result : Option (Except RunError Unit)}
    {ended : Machine} (hruns : Runs loader m done result ended) (hroom : m.console.capacity = none) :
    ∃ texts, List.Forall₂ (fun done text => Prints done.frame done.instruction text)
        (done.filter Executed.hasPrinted) texts ∧
      ended.console = m.console.printed (String.join texts) := by
  induction hruns with
  | going => exact ⟨[], .nil, by simp [Console.printed]⟩
  | halted => exact ⟨[], .nil, by simp [Console.printed]⟩
  | failed hf hi hstep =>
    have hprinted := printed_of_step hroom hf hi hstep
    rw [hasPrinted_error] at hprinted
    exact ⟨[], by simp [hasPrinted_error], by simpa [Console.printed] using hprinted⟩
  | @step m next ended f below i rest result hf hi hstep hrest ih =>
    have hprinted := printed_of_step hroom hf hi hstep
    split at hprinted
    next hyes =>
      obtain ⟨text, htext, hconsole⟩ := hprinted
      have hroom' : next.console.capacity = none := by rw [hconsole]; exact hroom
      obtain ⟨texts, htexts, hended⟩ := ih hroom'
      refine ⟨text :: texts, ?_, ?_⟩
      · rw [List.filter_cons_of_pos hyes]
        exact .cons htext htexts
      · rw [hended, hconsole]
        simp [Console.printed, Array.append_assoc]
    next hno =>
      obtain ⟨texts, htexts, hended⟩ := ih (by rw [hprinted]; exact hroom)
      rw [hprinted] at hended
      refine ⟨texts, ?_, hended⟩
      rwa [List.filter_cons_of_neg hno]

theorem printed_of_starts {done : List Executed}
    {outcome : Option (Except RunError Unit) × Machine} (hstarts : Starts loader m done outcome)
    (hroom : m.console.capacity = none) :
    ∃ texts, List.Forall₂ (fun done text => Prints done.frame done.instruction text)
        (done.filter Executed.hasPrinted) texts ∧
      outcome.2.console.written = (m.console.printed (String.join texts)).written := by
  have hconsole := console_of_boot loader m
  cases hstarts with
  | unbooted hboot =>
    rw [hboot] at hconsole
    simp only at hconsole
    exact ⟨[], .nil, by simp [hconsole, Console.printed]⟩
  | going hboot hruns =>
    rw [hboot] at hconsole
    obtain ⟨texts, htexts, hended⟩ := printed_of_runs hruns (by rw [hconsole]; exact hroom)
    refine ⟨texts, htexts, ?_⟩
    rw [hended, hconsole]
  | ended hboot hruns =>
    rw [hboot] at hconsole
    obtain ⟨texts, htexts, hended⟩ := printed_of_runs hruns (by rw [hconsole]; exact hroom)
    refine ⟨texts, htexts, ?_⟩
    rw [finish_eq, hended, hconsole]

/-- On a console that takes everything, the output is one text for each `invokevirtual` that succeeds, in
the order of the calls; nothing else prints. -/
theorem output_is_printed (loader : Loader) (fuel : Nat) (m : Machine)
    (hroom : m.console.capacity = none) :
    (∃ texts, List.Forall₂ (fun done text => Prints done.frame done.instruction text)
        ((m.executed loader fuel).filter Executed.hasPrinted) texts ∧
      (m.run loader fuel).2.console.written =
        m.console.written ++ (String.join texts).toUTF8.data) ∧
    (∃ texts, List.Forall₂ (fun done text => Prints done.frame done.instruction text)
        ((m.executedByStart loader fuel).filter Executed.hasPrinted) texts ∧
      (m.start loader fuel).2.console.written =
        m.console.written ++ (String.join texts).toUTF8.data) ∧
    ∀ f below i result next, m.calls.frames = f :: below → f.next? = some i →
      m.step loader = (some result, next) → Executed.hasPrinted ⟨f, i, result⟩ = false →
      next.console = m.console := by
  refine ⟨?_, printed_of_starts (start_starts loader fuel m) hroom, ?_⟩
  · obtain ⟨texts, htexts, hended⟩ := printed_of_runs (run_runs loader fuel m) hroom
    exact ⟨texts, htexts, congrArg Console.written hended⟩
  · intro f below i result next hf hi hstep hsilent
    have hprinted := printed_of_step hroom hf hi hstep
    rw [hsilent] at hprinted
    exact hprinted

/-- The factorial of two is printed by one call, as a digit and a newline. -/
theorem output_is_printed_factorial :
    let m := Machine.new "Factorial" defaultDepth .unlimited (.empty .quiet)
    m.console.capacity = none ∧ (m.start (Factorial.loader 2) 60).2.console.written = #[50, 10] ∧
    ∃ done text, (m.executedByStart (Factorial.loader 2) 60).filter Executed.hasPrinted = [done] ∧
      Prints done.frame done.instruction text ∧ text.toUTF8.data = #[50, 10] := by
  intro m
  have hlength : ((m.executedByStart (Factorial.loader 2) 60).filter Executed.hasPrinted).length = 1 := by
    decide +kernel
  have hwritten : (m.start (Factorial.loader 2) 60).2.console.written = #[50, 10] := by
    decide +kernel
  obtain ⟨done, hdone⟩ := List.length_eq_one_iff.mp hlength
  obtain ⟨-, ⟨texts, htexts, hprinted⟩, -⟩ := output_is_printed (Factorial.loader 2) 60 m rfl
  rw [hdone] at htexts
  cases htexts with
  | cons htext hrest =>
    cases hrest
    rw [hwritten] at hprinted
    refine ⟨rfl, hwritten, done, _, hdone, htext, ?_⟩
    simpa [m, Machine.new, Console.unlimited] using hprinted.symm

end Machine
end ClassVM
