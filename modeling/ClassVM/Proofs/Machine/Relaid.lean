import ClassVM.Proofs.Assembly.Respelling
import ClassVM.Proofs.Machine.Relocation
import ClassVM.Proofs.Programs.Factorial

namespace ClassVM

namespace Spelling
open Item

/-- `int n = 7; System.out.println(n);`, with a jump over a `return`. -/
def short : List Item := [
  .plain (.ofByte 0x10) [7], .plain (.ofByte 0x3b) [], .plain (.ofByte 0xb2) [0, 12],
  .plain (.ofByte 0xa7) [0, 4], .plain (.ofByte 0xb1) [], .plain (.ofByte 0x1a) [],
  .plain (.ofByte 0xb6) [0, 18], .plain (.ofByte 0xb1) []]

/-- The same with wider forms. The jump leads over one byte more. -/
def long : List Item := [
  .plain (.ofByte 0x11) [0, 7], .wideSlot (.ofByte 0x36) 0, .plain (.ofByte 0xb2) [0, 12],
  .plain (.ofByte 0xc8) [0, 0, 0, 6], .plain (.ofByte 0xb1) [], .wideSlot (.ofByte 0x15) 0,
  .plain (.ofByte 0xb6) [0, 18], .plain (.ofByte 0xb1) []]

theorem respelled : Respelled short long where
  items := .cons (.push (by decide)) <|
    .cons (.trans (.store (by decide) (by decide)) (.wide 0 (by decide))) <|
    .cons (.refl _) <| .cons (.jump _ _) <| .cons (.refl _) <|
    .cons (.trans (.load (by decide) (by decide)) (.wide 0 (by decide))) <|
    .cons (.refl _) <| .cons (.refl _) .nil
  branches := by decide +kernel

def main (body : Body) : Method := .procedure "main" Method.staticFlag (some body)

/-- A method that stays as it is. -/
def idle : Method := .procedure "idle" Method.staticFlag none

def classes (body : Body) : List (String × LoadedClass) :=
  [("Spelling", ⟨"Spelling", none, Factorial.pool 0, [main body, idle]⟩)]

def shortBody : Body := toBody 2 1 short (by decide) (by decide)

def longBody : Body := toBody 2 1 long (by decide) (by decide)

/-- A jump over an instruction of one byte, which may have another length here. -/
def jumping (middle : Item) : List Item :=
  [.plain (.ofByte 0xa7) [0, 4], middle, .plain (.ofByte 0xb1) []]

def jumpingBody : Body := toBody 1 0 (jumping (.plain (.ofByte 0x03) [])) (by decide) (by decide)

/-- The jump leads between the bytes of a `bipush`. -/
def straying : Body := toBody 1 0 (jumping (.plain (.ofByte 0x10) [0])) (by decide) (by decide)

end Spelling

namespace Machine
open Item Spelling

/-- Programs with the same operations and branches to the same positions run in lockstep, however their
code is laid out; code that is written in other widths is an instance. -/
theorem layout_irrelevant (fuel : Nat) :
    (∀ (loader other : Loader) (m n : Machine), loader.Corresponds other → m.Corresponds n →
      Lockstep (m.run loader fuel) (n.run other fuel)) ∧
    (∀ classes others : List (String × LoadedClass),
      (∀ name, Option.Rel LoadedClass.Corresponds (classes.lookup name) (others.lookup name)) →
      ∀ mainClass maxDepth console log log',
        Lockstep ((new mainClass maxDepth console log).start (.ofClasses classes) fuel)
          ((new mainClass maxDepth console log').start (.ofClasses others) fuel)) ∧
    ∀ xs ys, WellLaid 0 xs → WellLaid 0 ys → TargetsWithin (assemble ys).length 0 ys →
      Respelled xs ys → ∀ name descriptor maxLocals flags maxStack flags' maxStack' m,
      Method.ofCode name descriptor flags maxStack maxLocals (assemble xs) = .ok m →
      ∃ n, Method.ofCode name descriptor flags' maxStack' maxLocals (assemble ys) = .ok n ∧
        m.Corresponds n := by
  refine ⟨?_, ?_, ?_⟩
  · intro loader other m n hloader h
    exact run_lockstep hloader fuel h
  · intro classes others hclasses mainClass maxDepth console log log'
    have hloader := Loader.corresponds_ofClasses hclasses
    exact start_lockstep hloader fuel ⟨rfl, ⟨.nil, rfl⟩, rfl, .nil, rfl⟩
  · intro xs ys hx hy ht h name descriptor maxLocals flags maxStack flags' maxStack' m hm
    exact Method.corresponds_of_respelled hx hy ht h flags' maxStack' hm

/-- The program that is written in two ways prints the same both times. -/
theorem layout_irrelevant_spelling :
    let started (body : Body) (fuel : Nat) :=
      (new "Spelling" defaultDepth .unlimited (.empty .quiet)).start (.ofClasses (classes body)) fuel
    Method.ofCode "main" "()V" 8 2 1 (assemble short) = .ok (main shortBody) ∧
    Method.ofCode "main" "()V" 8 2 1 (assemble long) = .ok (main longBody) ∧
    Lockstep (started shortBody 20) (started longBody 20) ∧
    Lockstep ((started shortBody 4).2.run (.ofClasses (classes shortBody)) 20)
      ((started longBody 4).2.run (.ofClasses (classes longBody)) 20) ∧
    (started shortBody 20).1 = some (.ok ()) ∧
    (started shortBody 20).2.console.written = #[55, 10] := by
  intro started
  have hshort : Method.ofCode "main" "()V" 8 2 1 (assemble short) = .ok (main shortBody) :=
    Method.ofCode_assemble "main" "()V" 8 2 1 (by decide) (by decide)
  have hlong : Method.ofCode "main" "()V" 8 2 1 (assemble long) = .ok (main longBody) :=
    Method.ofCode_assemble "main" "()V" 8 2 1 (by decide) (by decide)
  obtain ⟨n, hn, hmain⟩ := (layout_irrelevant 0).2.2 short long (by decide) (by decide) (by decide)
    respelled "main" "()V" 1 8 2 8 2 (main shortBody) hshort
  obtain rfl : main longBody = n := Except.ok.inj (hlong.symm.trans hn)
  have hclasses : ∀ name, Option.Rel LoadedClass.Corresponds ((classes shortBody).lookup name)
      ((classes longBody).lookup name) :=
    lookup_rel (.cons ⟨rfl, rfl, rfl, .cons hmain (.cons (.refl idle) .nil)⟩ .nil)
  have hstarted (fuel : Nat) : Lockstep (started shortBody fuel) (started longBody fuel) :=
    (layout_irrelevant fuel).2.1 _ _ hclasses _ _ _ _ _
  have hrun := (layout_irrelevant 20).1 (.ofClasses (classes shortBody))
    (.ofClasses (classes longBody)) _ _ (Loader.corresponds_ofClasses hclasses) (hstarted 4).machine
  exact ⟨hshort, hlong, hstarted 20, hrun, by decide +kernel, by decide +kernel⟩

/-- A jump to the same offset does not lead to the same instruction, so for programs to correspond it
is not enough that their operations are equal. -/
theorem equal_targets_lead_apart :
    let started (body : Body) :=
      ((new "Spelling" defaultDepth .unlimited (.empty .quiet)).start (.ofClasses (classes body)) 20).1
    jumpingBody.instructions.map (·.op) = straying.instructions.map (·.op) ∧
    (main jumpingBody).indexOf? 4 ≠ (main straying).indexOf? 4 ∧
    started jumpingBody = some (.ok ()) ∧
    started straying = some (.error (.invalidBranchTarget 4)) := by
  decide +kernel

end Machine
end ClassVM
