import ClassVM.Proofs.Loading.Store
import ClassVM.Proofs.Programs.Basic

namespace ClassVM.Native

/-- Slot 6 refers to the method `bare` of the class `Caller`. -/
def pool : ConstantPool := ⟨#[
  some (.utf8 "Caller"), some (.classInfo 1), some (.utf8 "bare"), some (.utf8 "()V"),
  some (.nameAndType 3 4), some (.method 2 5)]⟩

def ref : MemberRef := ⟨"Caller", "bare", "()V"⟩

/-- The flags are those of a static native method. -/
def withoutBody (name : String) : Method := .procedure name 0x108 none

/-- `bare();` -/
def callingBody : Body where
  maxStack := 0
  maxLocals := 0
  code := [0xb8, 0x00, 0x06, 0xb1]
  instructions := #[⟨0, .ofByte 0xb8, .invokeStatic 6⟩, ⟨3, .ofByte 0xb1, .returnVoid⟩]
  offsets := #[some 0, none, none, some 1]
  instructions_eq := rfl
  offsets_eq := by decide

def calling : Method := .procedure "main" Method.staticFlag (some callingBody)

def caller : LoadedClass := ⟨"Caller", none, pool, [calling, withoutBody "bare"]⟩

def bodiless : LoadedClass := ⟨"Bodiless", none, ⟨#[]⟩, [withoutBody "main"]⟩

def loader : Loader := .ofClasses [("Caller", caller), ("Bodiless", bodiless)]

def machine (mainClass : String) : Machine :=
  .new mainClass Machine.defaultDepth .unlimited (.empty .quiet)

theorem load_caller : ((machine "Caller").store.load loader "Caller").result = .ok caller := by
  have hname : ClassName.internal "Caller" = "Caller" := by decide +kernel
  exact ClassStore.load_new rfl (by rw [hname]; rfl)

theorem load_bodiless : ((machine "Bodiless").store.load loader "Bodiless").result = .ok bodiless := by
  have hname : ClassName.internal "Bodiless" = "Bodiless" := by decide +kernel
  exact ClassStore.load_new rfl (by rw [hname]; rfl)

end ClassVM.Native
