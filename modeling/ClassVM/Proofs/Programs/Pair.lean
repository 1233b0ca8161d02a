import ClassVM.Proofs.Loading.Files
import ClassVM.Proofs.Programs.Basic

namespace ClassVM.Pair
open Loader

/-- Constants of two classes. Slot 9 refers to the method `main` of `B`. -/
def constants : List Constant :=
  [.utf8 "A", .classInfo 1, .utf8 "main", .utf8 "()V", .utf8 "Code", .utf8 "B", .classInfo 6,
    .nameAndType 3 4, .method 7 8]

def pool : ConstantPool := ⟨(constants.map some).toArray⟩

/-- Calls `main` of `B` and returns. -/
def callingSource : MethodSource := ⟨"main", "()V", 8, some ⟨0, 1, [0xb8, 0, 9, 0xb1]⟩⟩

def callingBody : Body where
  maxStack := 0
  maxLocals := 1
  code := [0xb8, 0, 9, 0xb1]
  instructions := #[⟨0, .ofByte 0xb8, .invokeStatic 9⟩, ⟨3, .ofByte 0xb1, .returnVoid⟩]
  offsets := #[some 0, none, none, some 1]
  instructions_eq := rfl
  offsets_eq := by decide

def calling : Method := .procedure "main" 8 (some callingBody)

def nativeSource : MethodSource := ⟨"A", "()V", 0x100, none⟩

def native : Method := .procedure "A" 0x100 none

/-- Its descriptor is none. -/
def misnamedSource : MethodSource := ⟨"main", "A", 0x100, none⟩

/-- Its code ends within an instruction. -/
def cutSource : MethodSource := ⟨"main", "()V", 8, some ⟨0, 1, [0xb8]⟩⟩

def sourceA : ClassSource := ⟨"A", pool, [callingSource]⟩

def sourceB : ClassSource := ⟨"B", pool, [nativeSource, callingSource]⟩

def sourceBroken : ClassSource := ⟨"B", pool, [nativeSource, misnamedSource, cutSource]⟩

theorem writable_of_pool {name : String} {methods : List MethodSource}
    (hname : ∃ index, pool.className index = .ok name) (hcount : methods.length < 65536)
    (hmethods : ∀ s ∈ methods,
      s = callingSource ∨ s = nativeSource ∨ s = misnamedSource ∨ s = cutSource) :
    (⟨name, pool, methods⟩ : ClassSource).Writable := by
  have hpool : pool.Fits := ConstantPool.fits_of_narrow (by decide) (by decide)
  refine ⟨hpool, hname, ⟨5, rfl⟩, hcount, ?_⟩
  intro s hs
  rcases hmethods s hs with rfl | rfl | rfl | rfl
  · exact ⟨⟨3, rfl⟩, ⟨4, rfl⟩, by decide⟩
  · exact ⟨⟨1, rfl⟩, ⟨4, rfl⟩, by decide⟩
  · exact ⟨⟨3, rfl⟩, ⟨1, rfl⟩, by decide⟩
  · exact ⟨⟨3, rfl⟩, ⟨4, rfl⟩, by decide⟩

theorem sourceA_writable : sourceA.Writable :=
  writable_of_pool ⟨2, rfl⟩ (by decide) (by simp)

theorem sourceB_writable : sourceB.Writable :=
  writable_of_pool ⟨7, rfl⟩ (by decide) (by simp)

theorem sourceBroken_writable : sourceBroken.Writable :=
  writable_of_pool ⟨7, rfl⟩ (by decide) (by simp)

def program : Program := [("A", sourceA), ("B", sourceB)]

def classes : List (String × LoadedClass) :=
  [("A", ⟨"A", none, pool, [calling]⟩), ("B", ⟨"B", none, pool, [native, calling]⟩)]

/-- A directory with the two class files. -/
def files : FileSystem :=
  (FileTree.directory [("A.class", .file sourceA.toForm.encode),
    ("B.class", .file sourceB.toForm.encode)]).toFileSystem []

def machine : Machine := .new "A" Machine.defaultDepth .unlimited (.empty .calls)

theorem builds : program.Builds classes :=
  .cons ⟨rfl, rfl⟩ (.cons ⟨rfl, rfl⟩ .nil)

theorem className_of_methodRef {index : UInt16} {ref : MemberRef}
    (h : pool.methodRef index = .ok ref) : ref.className = "B" := by
  have hmem : ∀ c, pool.constant? index = some c → c ∈ constants := by
    intro c hc
    rw [ConstantPool.constant?, ConstantPool.slot?] at hc
    split at hc
    next => cases hc
    next i hi =>
      have hentry : pool.entries[i]? = some (some c) := Option.join_eq_some_iff.mp hc
      simpa [pool] using Array.mem_of_getElem? hentry
  rw [ConstantPool.methodRef] at h
  split at h
  next owner nameAndType hc =>
    have hmethod := hmem _ hc
    simp only [constants, List.mem_cons, reduceCtorEq, Constant.method.injEq, false_or,
      List.not_mem_nil, or_false] at hmethod
    obtain ⟨rfl, rfl⟩ := hmethod
    cases h
    rfl
  next owner nameAndType hc =>
    have hmethod := hmem _ hc
    simp [constants] at hmethod
  next => cases h

theorem mem_program {name : String} {c : ClassSource} (h : (name, c) ∈ program) :
    name = "A" ∧ c = sourceA ∨ name = "B" ∧ c = sourceB := by
  simpa [program] using h

theorem stored : program.Stored "A" files ⟨["."]⟩ := by
  have hA : fileOf? files ⟨["."]⟩ "A" = some sourceA.toForm.encode := by decide +kernel
  have hB : fileOf? files ⟨["."]⟩ "B" = some sourceB.toForm.encode := by decide +kernel
  constructor
  case present =>
    intro name c h
    rcases mem_program (mem_of_lookup h) with ⟨rfl, rfl⟩ | ⟨rfl, rfl⟩
    · exact ⟨sourceA.toForm, sourceA_writable.describes, sourceA_writable.fits, hA⟩
    · exact ⟨sourceB.toForm, sourceB_writable.describes, sourceB_writable.fits, hB⟩
  case absent =>
    intro name hname hnone
    cases hname with
    | main =>
      have hname : ClassName.internal "A" = "A" := by decide +kernel
      rw [hname] at hnone
      cases hnone
    | call name c index ref hc href =>
      have hpool : c.pool = pool := by
        rcases mem_program hc with ⟨-, rfl⟩ | ⟨-, rfl⟩ <;> rfl
      rw [hpool] at href
      have hname : ClassName.internal "B" = "B" := by decide +kernel
      rw [className_of_methodRef href, hname] at hnone
      cases hnone

end ClassVM.Pair
