import ClassVM.Proofs.Programs.Basic

namespace ClassVM.Factorial

/-- Slot 6 refers to the method `factorial`, slot 12 to `System.out`, slot 18 to its `println`, and
slot 19 holds the number. -/
def pool (n : Int32) : ConstantPool := ⟨#[
  some (.utf8 "Factorial"), some (.classInfo 1), some (.utf8 "factorial"), some (.utf8 "(I)I"),
  some (.nameAndType 3 4), some (.method 2 5), some (.utf8 "java/lang/System"),
  some (.classInfo 7), some (.utf8 "out"), some (.utf8 "Ljava/io/PrintStream;"),
  some (.nameAndType 9 10), some (.field 8 11), some (.utf8 "java/io/PrintStream"),
  some (.classInfo 13), some (.utf8 "println"), some (.utf8 "(I)V"), some (.nameAndType 15 16),
  some (.method 14 17), some (.integer n)]⟩

/-- `if (n - 1 == 0) return 1; return n * factorial(n - 1);` -/
def factorialBody : Body where
  maxStack := 3
  maxLocals := 1
  code := [
    0x1a, 0x04, 0x64, 0x9a, 0x00, 0x05, 0x04, 0xac, 0x1a, 0x1a, 0x04, 0x64, 0xb8, 0x00, 0x06, 0x68,
    0xac]
  instructions := #[⟨0, ⟨0x1a, by decide⟩, .load 0⟩, ⟨1, ⟨0x04, by decide⟩, .push 1⟩,
    ⟨2, ⟨0x64, by decide⟩, .arithmetic .sub⟩, ⟨3, ⟨0x9a, by decide⟩, .branchIf .ne 8⟩,
    ⟨6, ⟨0x04, by decide⟩, .push 1⟩, ⟨7, ⟨0xac, by decide⟩, .returnValue⟩,
    ⟨8, ⟨0x1a, by decide⟩, .load 0⟩, ⟨9, ⟨0x1a, by decide⟩, .load 0⟩,
    ⟨10, ⟨0x04, by decide⟩, .push 1⟩, ⟨11, ⟨0x64, by decide⟩, .arithmetic .sub⟩,
    ⟨12, ⟨0xb8, by decide⟩, .invokeStatic 6⟩, ⟨15, ⟨0x68, by decide⟩, .arithmetic .mul⟩,
    ⟨16, ⟨0xac, by decide⟩, .returnValue⟩]
  offsets := #[some 0, some 1, some 2, some 3, none, none, some 4, some 5, some 6, some 7, some 8,
    some 9, some 10, none, none, some 11, some 12]
  instructions_eq := rfl
  offsets_eq := by decide

def factorial : Method where
  name := "factorial"
  descriptor := "(I)I"
  flags := Method.staticFlag
  signature := ⟨[.base .int], some (.base .int)⟩
  body := some factorialBody
  signature_eq := rfl

/-- `System.out.println(factorial(n));` -/
def mainBody : Body where
  maxStack := 2
  maxLocals := 1
  code := [0xb2, 0x00, 0x0c, 0x12, 0x13, 0xb8, 0x00, 0x06, 0xb6, 0x00, 0x12, 0xb1]
  instructions := #[⟨0, ⟨0xb2, by decide⟩, .getStatic 12⟩, ⟨3, ⟨0x12, by decide⟩, .loadConstant 19⟩,
    ⟨5, ⟨0xb8, by decide⟩, .invokeStatic 6⟩, ⟨8, ⟨0xb6, by decide⟩, .invokeVirtual 18⟩,
    ⟨11, ⟨0xb1, by decide⟩, .returnVoid⟩]
  offsets := #[some 0, none, none, some 1, none, some 2, none, none, some 3, none, none, some 4]
  instructions_eq := rfl
  offsets_eq := by decide

def main : Method where
  name := "main"
  descriptor := "([Ljava/lang/String;)V"
  flags := Method.staticFlag
  signature := ⟨[.array (.reference "java/lang/String")], none⟩
  body := some mainBody
  signature_eq := rfl

def program (n : Int32) : LoadedClass := ⟨"Factorial", none, pool n, [main, factorial]⟩

def loader (n : Int32) : Loader := .ofClasses [("Factorial", program n)]

/-- The frame of `main` that is about to call `factorial`. -/
def caller (n : Int32) : Frame := ⟨program n, main, ⟨[.int n, .printStream], #[none]⟩, 2⟩

/-- A machine in which that call is the next step. -/
def calling (n : Int32) : Machine where
  mainClass := "Factorial"
  store := ⟨[("Factorial", program n)], 1⟩
  calls := ⟨Machine.defaultDepth, [caller n], 1, rfl⟩
  console := .unlimited
  log := .empty .quiet

/-- The machine `k` steps after it has entered `factorial`. -/
def called (n : Int32) (k : Nat) : Machine :=
  (((calling n).step (loader n)).2.run (loader n) k).2

end ClassVM.Factorial
