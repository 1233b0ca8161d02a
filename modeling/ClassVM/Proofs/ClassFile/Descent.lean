import ClassVM.Proofs.ClassFile.Nesting
import Mathlib.Logic.Function.Iterate

namespace ClassVM
open Binary Parser Reader

/-- The reading of the table in a code attribute: the bytes of the attribute, and the descents that were
begun while its table was read. -/
inductive Descent where
  | into (info : Bytes) (inner : List Descent)

/-- A parser of class files that tells which descents it begins. -/
def Recorder (α : Type) : Type := Bytes → Except FormatError (α × Bytes) × List Descent

namespace Recorder
variable {α β : Type}

instance : Monad Recorder where
  pure a := fun s => (.ok (a, s), [])
  bind x f := fun s =>
    match x s with
    | (.error e, begun) => (.error e, begun)
    | (.ok (a, rest), begun) => ((f a rest).1, begun ++ (f a rest).2)

/-- A parser that does not descend. -/
def flat (p : FileParser α) : Recorder α := fun s => (p s, [])

/-- The descent into the bytes `info`, where `x` reads the table. -/
def descend (info : Bytes) (x : Recorder α) : Recorder α := fun s => ((x s).1, [.into info (x s).2])

/-- Reads `info` in the place of what comes next, and nothing of that. -/
def inside (info : Bytes) (x : Recorder α) : Recorder α := fun s =>
  ((x info).1.map fun out => (out.1, s), (x info).2)

def many (x : Recorder α) : Nat → Recorder (List α)
  | 0 => pure []
  | n + 1 => do
    let a ← x
    let as ← many x n
    return a :: as

/-- The parser without the record. -/
def outcome (x : Recorder α) : FileParser α := fun s => (x s).1

section bind
variable {x : Recorder α} {f : α → Recorder β} {s rest : Bytes} {begun : List Descent}

theorem bind_apply (x : Recorder α) (f : α → Recorder β) (s : Bytes) :
    (x >>= f) s =
      match x s with
      | (.error e, begun) => (.error e, begun)
      | (.ok (a, rest), begun) => ((f a rest).1, begun ++ (f a rest).2) := rfl

theorem bind_ok {a : α} (h : x s = (.ok (a, rest), begun)) :
    (x >>= f) s = ((f a rest).1, begun ++ (f a rest).2) := by
  rw [bind_apply, h]

theorem bind_error {e : FormatError} (h : x s = (.error e, begun)) :
    (x >>= f) s = (.error e, begun) := by
  rw [bind_apply, h]

theorem outcome_bind (x : Recorder α) (f : α → Recorder β) :
    (x >>= f).outcome = x.outcome >>= fun a => (f a).outcome := by
  funext s
  rcases h : x s with ⟨_ | ⟨a, rest⟩, begun⟩
  · have hx : x.outcome s = .error _ := congrArg Prod.fst h
    rw [Parser.bind_error hx, outcome, bind_error h]
  · have hx : x.outcome s = .ok (a, rest) := congrArg Prod.fst h
    rw [Parser.bind_ok hx, outcome, bind_ok h]
    rfl

end bind

theorem outcome_pure (a : α) : (pure a : Recorder α).outcome = pure a := rfl

theorem outcome_flat (p : FileParser α) : (flat p).outcome = p := rfl

theorem outcome_descend (info : Bytes) (x : Recorder α) : (descend info x).outcome = x.outcome := rfl

theorem outcome_inside (info : Bytes) (x : Recorder α) :
    (inside info x).outcome = liftM ((x.outcome info).map Prod.fst) := by
  funext s
  rw [outcome, inside, outcome]
  cases (x info).1 <;> rfl

theorem outcome_many (x : Recorder α) (n : Nat) : (many x n).outcome = Parser.many n x.outcome := by
  induction n with
  | zero => rfl
  | succ n ih =>
    rw [many, many_succ, outcome_bind]
    simp only [outcome_bind, outcome_pure, ih]

end Recorder

open Recorder

namespace Attribute

/-- A code attribute up to its table. -/
structure CodeStart where
  maxStack : UInt16
  maxLocals : UInt16
  code : Bytes
  handlers : List Handler

def CodeStart.withTable (start : CodeStart) (attributes : AttributeTable) : Attribute :=
  .code start.maxStack start.maxLocals start.code start.handlers attributes

def readCodeStart : FileParser CodeStart := do
  let maxStack ← inFile u16
  let maxLocals ← inFile u16
  let length ← inFile u32
  let code ← inFile (bytes length.toNat)
  let count ← inFile u16
  let handlers ← Parser.many count.toNat readHandler
  return ⟨maxStack, maxLocals, code, handlers⟩

theorem readCode_eq (nested : FileParser AttributeTable) :
    readCode nested = do
      let start ← readCodeStart
      let attributes ← nested
      return start.withTable attributes := by
  simp [readCode, readCodeStart, CodeStart.withTable]

/-- The name of an attribute, and its bytes. -/
def readInfo (pool : ConstantPool) : FileParser (String × Bytes) := do
  let index ← inFile u16
  let name ← FormatError.ofLookup (pool.utf8 index)
  let length ← inFile u32
  let info ← inFile (bytes length.toNat)
  return (name, info)

theorem read_eq (pool : ConstantPool) (nested : FileParser AttributeTable) :
    Attribute.read pool nested = do
      let found ← readInfo pool
      let value ← ofInfo nested found.1 found.2
      return (found.1, value) := by
  simp [Attribute.read, readInfo]

def recordCode (info : Bytes) (nested : Recorder AttributeTable) : Recorder Attribute := do
  let start ← flat readCodeStart
  let attributes ← descend info nested
  return start.withTable attributes

/-- Only in an attribute with this one name there is something to descend into. -/
def recordInfo (nested : Recorder AttributeTable) (name : String) (info : Bytes) :
    Recorder Attribute :=
  if name = "Code" then inside info (recordCode info nested)
  else flat (liftM (ofInfo nested.outcome name info))

def record (pool : ConstantPool) (nested : Recorder AttributeTable) :
    Recorder (String × Attribute) := do
  let found ← flat (readInfo pool)
  let value ← recordInfo nested found.1 found.2
  return (found.1, value)

theorem outcome_recordInfo (nested : Recorder AttributeTable) (name : String) (info : Bytes) :
    (recordInfo nested name info).outcome = liftM (ofInfo nested.outcome name info) := by
  unfold recordInfo ofInfo
  split
  · rw [outcome_inside, recordCode, outcome_bind, readCode_eq]
    simp only [outcome_bind, outcome_flat, outcome_descend, outcome_pure]
  · rfl

theorem outcome_record (pool : ConstantPool) (nested : Recorder AttributeTable) :
    (record pool nested).outcome = Attribute.read pool nested.outcome := by
  rw [record, outcome_bind, read_eq]
  simp only [outcome_bind, outcome_flat, outcome_recordInfo, outcome_pure]

end Attribute

namespace AttributeTable

def recordWith (pool : ConstantPool) (nested : Recorder AttributeTable) : Recorder AttributeTable := do
  let count ← flat (inFile u16)
  let attributes ← Recorder.many (Attribute.record pool nested) count.toNat
  return attributes.reverse

/-- Tables in tables, `depth` of them below the first one. What is done below them is up to `innermost`,
but to begin it is a descent, too. -/
def record (pool : ConstantPool) (innermost : Recorder AttributeTable) (depth : Nat) :
    Recorder AttributeTable :=
  (recordWith pool)^[depth + 1] innermost

/-- The end of the recursion. -/
def refused : Recorder AttributeTable := flat fun _ => .error .truncated

theorem outcome_recordWith (pool : ConstantPool) (nested : Recorder AttributeTable) :
    (recordWith pool nested).outcome = readWith pool nested.outcome := by
  rw [recordWith, outcome_bind, readWith]
  simp only [outcome_bind, outcome_flat, outcome_many, Attribute.outcome_record, outcome_pure]

theorem record_succ (pool : ConstantPool) (innermost : Recorder AttributeTable) (depth : Nat) :
    record pool innermost (depth + 1) = recordWith pool (record pool innermost depth) :=
  Function.iterate_succ_apply' _ _ _

theorem record_succ_innermost (pool : ConstantPool) (innermost : Recorder AttributeTable) (depth : Nat) :
    record pool innermost (depth + 1) = record pool (recordWith pool innermost) depth :=
  Function.iterate_succ_apply _ _ _

theorem outcome_record (pool : ConstantPool) (depth : Nat) :
    (record pool refused depth).outcome = AttributeTable.read pool depth := by
  induction depth with
  | zero => exact outcome_recordWith pool refused
  | succ depth ih =>
    rw [record_succ, outcome_recordWith, ih]
    rfl

end AttributeTable

namespace ClassFile

/-- A field or method up to its table. -/
def readMemberStart : FileParser Member := do
  let flags ← inFile u16
  let name ← inFile u16
  let descriptor ← inFile u16
  return ⟨flags, name, descriptor, []⟩

theorem readMember_eq (tables : FileParser AttributeTable) :
    readMember tables = do
      let start ← readMemberStart
      let attributes ← tables
      return { start with attributes } := by
  simp [readMember, readMemberStart]

/-- A class file up to its fields. -/
def readStart : FileParser ClassFile := do
  readMagic
  let minor ← inFile u16
  let major ← inFile u16
  let pool ← ConstantPool.read
  let flags ← inFile u16
  let thisClass ← inFile u16
  let superClass ← inFile u16
  let count ← inFile u16
  let interfaces ← Parser.many count.toNat (inFile u16)
  return ⟨minor, major, pool, flags, thisClass, superClass, interfaces, [], [], []⟩

theorem read_eq (tables : ConstantPool → FileParser AttributeTable) :
    ClassFile.read tables = do
      let start ← readStart
      let fields ← readMembers (tables start.pool)
      let methods ← readMembers (tables start.pool)
      let attributes ← tables start.pool
      return { start with fields, methods, attributes } := by
  simp [ClassFile.read, readStart]

def recordMember (tables : Recorder AttributeTable) : Recorder Member := do
  let start ← flat readMemberStart
  let attributes ← tables
  return { start with attributes }

def recordMembers (tables : Recorder AttributeTable) : Recorder (List Member) := do
  let count ← flat (inFile u16)
  Recorder.many (recordMember tables) count.toNat

def record (tables : ConstantPool → Recorder AttributeTable) : Recorder ClassFile := do
  let start ← flat readStart
  let fields ← recordMembers (tables start.pool)
  let methods ← recordMembers (tables start.pool)
  let attributes ← tables start.pool
  return { start with fields, methods, attributes }

/-- The class file at the front of `bytes`, and all descents that were begun to read it. -/
def parseRecorded (innermost : ConstantPool → Recorder AttributeTable) (depth : Nat) (bytes : Bytes) :
    Except FormatError ClassFile × List Descent :=
  let out := record (fun pool => AttributeTable.record pool (innermost pool) depth) bytes
  (out.1.map Prod.fst, out.2)

theorem outcome_recordMember (tables : Recorder AttributeTable) :
    (recordMember tables).outcome = readMember tables.outcome := by
  rw [recordMember, outcome_bind, readMember_eq]
  simp only [outcome_bind, outcome_flat, outcome_pure]

theorem outcome_recordMembers (tables : Recorder AttributeTable) :
    (recordMembers tables).outcome = readMembers tables.outcome := by
  rw [recordMembers, outcome_bind, readMembers]
  simp only [outcome_flat, outcome_many, outcome_recordMember]

theorem outcome_record (tables : ConstantPool → Recorder AttributeTable) :
    (record tables).outcome = ClassFile.read fun pool => (tables pool).outcome := by
  rw [record, outcome_bind, read_eq]
  simp only [outcome_bind, outcome_flat, outcome_recordMembers, outcome_pure]

theorem parseRecorded_fst (bytes : Bytes) :
    (parseRecorded (fun _ => AttributeTable.refused) (bytes.length / nestingCost) bytes).1 =
      parse bytes := by
  have hrecord := outcome_record fun pool =>
    AttributeTable.record pool AttributeTable.refused (bytes.length / nestingCost)
  simp only [AttributeTable.outcome_record] at hrecord
  exact congrArg (fun p : FileParser ClassFile => (p bytes).map Prod.fst) hrecord

end ClassFile
end ClassVM
