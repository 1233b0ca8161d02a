import ClassVM.Proofs.Programs.Basic

namespace ClassVM.Echo

/-- Slot 6 refers to the method `main`, slot 12 to `System.out`, and slot 17 to its `println`. -/
def pool : ConstantPool := ⟨#[
  some (.utf8 "Echo"), some (.classInfo 1), some (.utf8 "main"), some (.utf8 "()V"),
  some (.nameAndType 3 4), some (.method 2 5), some (.utf8 "java/lang/System"),
  some (.classInfo 7), some (.utf8 "out"), some (.utf8 "Ljava/io/PrintStream;"),
  some (.nameAndType 9 10), some (.field 8 11), some (.utf8 "java/io/PrintStream"),
  some (.classInfo 13), some (.utf8 "println"), some (.nameAndType 15 4), some (.method 14 16)]⟩

/-- `System.out.println(); main();` -/
def mainBody : Body where
  maxStack := 1
  maxLocals := 0
  code := [0xb2, 0x00, 0x0c, 0xb6, 0x00, 0x11, 0xb8, 0x00, 0x06, 0xb1]
  instructions := #[⟨0, .ofByte 0xb2, .getStatic 12⟩, ⟨3, .ofByte 0xb6, .invokeVirtual 17⟩,
    ⟨6, .ofByte 0xb8, .invokeStatic 6⟩, ⟨9, .ofByte 0xb1, .returnVoid⟩]
  offsets := #[some 0, none, none, some 1, none, none, some 2, none, none, some 3]
  instructions_eq := rfl
  offsets_eq := by decide

def main : Method := .procedure "main" Method.staticFlag (some mainBody)

def program : LoadedClass := ⟨"Echo", none, pool, [main]⟩

def loader : Loader := .ofClasses [("Echo", program)]

/-- A machine that may go `maxDepth` calls deep. -/
def machine (maxDepth : Nat) (console : Console) : Machine :=
  .new "Echo" maxDepth console (.empty .quiet)

/-- Such a machine after an overflow with two frames, one of which has been left since. -/
def interrupted : Machine := (((machine 2 .unlimited).start loader 10).2.run loader 1).2

end ClassVM.Echo
