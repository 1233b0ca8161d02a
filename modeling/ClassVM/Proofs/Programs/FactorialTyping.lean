import ClassVM.Proofs.Loading.Store
import ClassVM.Proofs.Programs.Factorial
import ClassVM.Proofs.Typing.Rules

namespace ClassVM.Factorial

/-- `factorial` knows its parameter everywhere and leaves an int. -/
def factorialTyping : Typing where
  shape position :=
    ⟨[[], [.int], [.int, .int], [.int], [], [.int], [], [.int], [.int, .int], [.int, .int, .int],
      [.int, .int], [.int, .int], [.int]].getD position [], [0]⟩
  result := some .int

/-- `main` has the stream on its stack until it prints. -/
def mainTyping : Typing where
  shape position :=
    ⟨[[], [.printStream], [.int, .printStream], [.int, .printStream], []].getD position [], []⟩
  result := none

def typings (_ : LoadedClass) (method : Method) : Typing :=
  if method.name = "main" then mainTyping else factorialTyping

theorem typings_factorial (owner : LoadedClass) : typings owner factorial = factorialTyping :=
  if_neg (by decide)

theorem methodRef_factorial (n : Int32) :
    (pool n).methodRef 6 = .ok ⟨"Factorial", "factorial", "(I)I"⟩ := rfl

theorem find_factorial (n : Int32) (request : Nat) :
    ((loader n).find request (ClassName.internal "Factorial")).answer = .ok (some (program n)) := by
  have h : ClassName.internal "Factorial" = "Factorial" := by decide +kernel
  rw [h]
  rfl

theorem findMethod_factorial (n : Int32) :
    (program n).findMethod? "factorial" "(I)I" = some factorial := rfl

theorem calls_factorial (n : Int32) {owner : LoadedClass} {method : Method} {position : Nat}
    {s : Shape} {rest : List ValueKind} (hs : s.operands = .int :: rest)
    (hfalls : (typings owner method).Falls method position ⟨.int :: rest, s.slots⟩) :
    Calls (loader n) typings owner method position s ⟨"Factorial", "factorial", "(I)I"⟩ := by
  intro request
  refine ⟨program n, factorial, find_factorial n request, findMethod_factorial n, rfl, ?_, ?_, ?_⟩
  · rw [hs]
    exact Nat.le_add_left 1 _
  · rw [typings_factorial, hs]
    intro slot hslot
    cases List.mem_singleton.mp hslot
    rfl
  · rw [typings_factorial, hs]
    exact hfalls

theorem falls_factorial {position : Nat} (h : position < 12) :
    factorialTyping.Falls factorial position (factorialTyping.shape (position + 1)) :=
  ⟨Nat.add_lt_add_right h 1, rfl, List.Subset.refl _⟩

theorem falls_main {position : Nat} (h : position < 4) :
    mainTyping.Falls main position (mainTyping.shape (position + 1)) :=
  ⟨Nat.add_lt_add_right h 1, rfl, List.Subset.refl _⟩

theorem factorial_accepts (n : Int32) (position : Nat) (i : Instruction)
    (hi : factorial.instructions[position]? = some i) :
    Accepts (loader n) typings (program n) factorial position i.op := by
  have hlt : position < 13 := (Array.getElem?_eq_some_iff.mp hi).1
  match position with
  | 0 | 6 | 7 =>
    cases hi
    exact ⟨List.mem_singleton.mpr rfl, falls_factorial (by decide)⟩
  | 1 | 4 | 8 =>
    cases hi
    exact falls_factorial (by decide)
  | 2 =>
    cases hi
    exact ⟨[], rfl, falls_factorial (by decide)⟩
  | 3 =>
    cases hi
    exact ⟨[], rfl, falls_factorial (by decide), 6, _, rfl, rfl, rfl, List.Subset.refl _⟩
  | 5 | 12 =>
    cases hi
    exact ⟨.int, [], rfl, rfl⟩
  | 9 =>
    cases hi
    exact ⟨[.int], rfl, falls_factorial (by decide)⟩
  | 10 =>
    cases hi
    exact ⟨_, methodRef_factorial n, calls_factorial n rfl (falls_factorial (by decide))⟩
  | 11 =>
    cases hi
    exact ⟨[], rfl, falls_factorial (by decide)⟩

theorem main_accepts (n : Int32) (position : Nat) (i : Instruction)
    (hi : main.instructions[position]? = some i) :
    Accepts (loader n) typings (program n) main position i.op := by
  have hlt : position < 5 := (Array.getElem?_eq_some_iff.mp hi).1
  match position with
  | 0 =>
    cases hi
    exact ⟨⟨"java/lang/System", "out", "Ljava/io/PrintStream;"⟩, rfl, by decide,
      falls_main (by decide)⟩
  | 1 =>
    cases hi
    exact ⟨⟨n, rfl⟩, falls_main (by decide)⟩
  | 2 =>
    cases hi
    exact ⟨_, methodRef_factorial n, calls_factorial n rfl (falls_main (by decide))⟩
  | 3 =>
    cases hi
    exact ⟨⟨"java/io/PrintStream", "println", "(I)V"⟩, .printlnInt, [], rfl, by decide, rfl,
      falls_main (by decide)⟩
  | 4 =>
    cases hi
    rfl

theorem factorial_checks (n : Int32) : Checks (loader n) typings (program n) factorial where
  operands := rfl
  parameters slot hslot := by
    cases List.mem_singleton.mp hslot
    decide
  slots position _ slot hslot := by
    cases List.mem_singleton.mp hslot
    decide
  accepts := factorial_accepts n

theorem main_checks (n : Int32) : Checks (loader n) typings (program n) main where
  operands := rfl
  parameters slot hslot := by cases hslot
  slots position _ slot hslot := by cases hslot
  accepts := main_accepts n

/-- Whatever the loader is asked for, the only class that it has is the program. -/
theorem program_of_find {n : Int32} {request : Nat} {name : String} {owner : LoadedClass}
    (h : ((loader n).find request name).answer = .ok (some owner)) : owner = program n := by
  exact congrArg Prod.snd (List.mem_singleton.mp (Loader.mem_of_answer h))

theorem of_invocable {n : Int32} {owner : LoadedClass} {method : Method}
    (h : Invocable (loader n) "Factorial" owner method) :
    owner = program n ∧ (method = main ∨ method = factorial) := by
  have hmethods : ∀ m ∈ (program n).methods, m = main ∨ m = factorial := by
    intro m hm
    simpa [program] using hm
  cases h with
  | main found named code =>
    obtain rfl := program_of_find found
    exact ⟨rfl, hmethods _ (List.mem_of_find?_eq_some named)⟩
  | call caller mem op resolved found named code =>
    obtain rfl := program_of_find found
    exact ⟨rfl, hmethods _ (List.mem_of_find?_eq_some named)⟩

theorem wellTyped (n : Int32) : WellTyped (loader n) typings "Factorial" where
  checks owner method h := by
    obtain ⟨rfl, rfl | rfl⟩ := of_invocable h
    · exact main_checks n
    · exact factorial_checks n
  main request owner method found named := by
    obtain rfl := program_of_find found
    have hmain : (program n).method? "main" = some main := rfl
    rw [hmain] at named
    cases named
    rfl

end ClassVM.Factorial
