import ClassVM.Proofs.ClassFile.Parts

namespace ClassVM
open Binary Parser

theorem spends_inFile_u16 : Spends 2 (inFile Reader.u16) := spends_fixed Reader.u16_fixed

theorem spends_inFile_u32 : Spends 4 (inFile Reader.u32) := spends_fixed Reader.u32_fixed

/-- What comes after bytes that have been cut out need only agree on as many bytes. -/
theorem agree_inFile_bytes {α : Type} {n length : Nat} {f g : Bytes → FileParser α}
    (h : ∀ info, info.length < n → f info = g info) :
    Agree n (inFile (Reader.bytes length) >>= f) (inFile (Reader.bytes length) >>= g) := by
  intro s hs
  by_cases hlength : length ≤ s.length
  · have hinfo : (s.take length).length < n := by
      rw [List.length_take]
      omega
    have hread : inFile (Reader.bytes length) s = .ok (s.take length, s.drop length) :=
      (Reader.bytes_fixed length).orThrow_ok hlength
    rw [bind_ok hread, bind_ok hread, h _ hinfo]
  · have hread : inFile (Reader.bytes length) s = .error .truncated :=
      (Reader.bytes_fixed length).orThrow_error (Nat.lt_of_not_le hlength)
    rw [bind_error hread, bind_error hread]

namespace Attribute
variable {n : Nat} {f g : FileParser AttributeTable}

theorem readCode_agree (h : Agree n f g) : Agree (n + 10) (readCode f) (readCode g) := by
  apply Agree.after (n := n + 8) spends_inFile_u16
  intro maxStack
  apply Agree.after (n := n + 6) spends_inFile_u16
  intro maxLocals
  apply Agree.after (n := n + 2) spends_inFile_u32
  intro length
  apply Agree.after (n := n + 2) (streams_inFile_bytes length.toNat).spends
  intro code
  apply Agree.after (n := n) spends_inFile_u16
  intro count
  apply Agree.after (n := n) (streams_readHandler.many count.toNat).spends
  intro handlers
  exact h.before _

theorem ofInfo_agree (h : Agree n f g) (name : String) {info : Bytes}
    (hinfo : info.length < n + 10) : ofInfo f name info = ofInfo g name info := by
  unfold ofInfo
  rw [readCode_agree h info hinfo]

theorem read_agree (pool : ConstantPool) (h : Agree n f g) :
    Agree (n + 16) (Attribute.read pool f) (Attribute.read pool g) := by
  apply Agree.after (n := n + 14) spends_inFile_u16
  intro index
  have hlift : Streams FormatError.truncated
      (liftM (FormatError.ofLookup (pool.utf8 index)) : FileParser String) := streams_lift _
  apply Agree.after (n := n + 14) hlift.spends
  intro name
  apply Agree.after (n := n + 10) spends_inFile_u32
  intro length
  apply agree_inFile_bytes
  intro info hinfo
  rw [ofInfo_agree h name hinfo]

end Attribute

namespace AttributeTable
open ClassFile (nestingCost)

variable (pool : ConstantPool)

theorem readWith_agree {n : Nat} {f g : FileParser AttributeTable} (h : Agree n f g) :
    Agree (n + nestingCost) (readWith pool f) (readWith pool g) := by
  apply Agree.after (n := n + 16) spends_inFile_u16
  intro count
  have hspends : Spends 0 (Attribute.read pool f) := (Attribute.streams_read pool f).spends
  exact (Agree.many hspends (Attribute.read_agree pool h) count.toNat).before _

/-- Two bounds on the depth do the same on input too short to reach the smaller one. -/
theorem read_agree {depth more : Nat} (h : depth ≤ more) :
    Agree (nestingCost * (depth + 1)) (AttributeTable.read pool depth)
      (AttributeTable.read pool more) := by
  induction depth generalizing more with
  | zero =>
    have hnone : ∀ f g : FileParser AttributeTable, Agree 0 f g :=
      fun f g s hs => absurd hs (Nat.not_lt_zero _)
    cases more with
    | zero => exact Agree.refl _ _
    | succ more => exact readWith_agree pool (hnone _ _)
  | succ depth ih =>
    cases more with
    | zero => exact absurd h (Nat.not_succ_le_zero depth)
    | succ more => exact readWith_agree pool (ih (Nat.le_of_succ_le_succ h))

theorem streams_read (depth : Nat) : Streams .truncated (AttributeTable.read pool depth) := by
  cases depth with
  | zero => exact streams_readWith pool _
  | succ depth => exact streams_readWith pool _

/-- A table with as deep a nesting as its bytes allow. -/
def readAll : FileParser AttributeTable := fun s => read pool (s.length / nestingCost) s

theorem read_agree_readAll (depth : Nat) :
    Agree (nestingCost * (depth + 1)) (AttributeTable.read pool depth) (readAll pool) := by
  intro s hs
  have hdepth : s.length / nestingCost ≤ depth :=
    Nat.le_of_lt_succ (Nat.div_lt_of_lt_mul hs)
  have hshort : s.length < nestingCost * (s.length / nestingCost + 1) :=
    Nat.lt_mul_div_succ s.length (by decide)
  exact (read_agree pool hdepth s hshort).symm

/-- The recursion of the format: nested tables are read like the table around them. -/
theorem readAll_eq : readAll pool = readWith pool (readAll pool) := by
  funext s
  let depth := s.length / nestingCost
  have hshort : s.length < nestingCost * (depth + 1) :=
    Nat.lt_mul_div_succ s.length (by decide)
  have hlonger : s.length < nestingCost * (depth + 1) + nestingCost :=
    Nat.lt_of_lt_of_le hshort (Nat.le_add_right _ _)
  calc
    readAll pool s = AttributeTable.read pool (depth + 1) s :=
      (read_agree_readAll pool (depth + 1) s hlonger).symm
    _ = readWith pool (AttributeTable.read pool depth) s := rfl
    _ = readWith pool (readAll pool) s :=
      readWith_agree pool (read_agree_readAll pool depth) s hlonger

theorem streams_readAll : Streams .truncated (readAll pool) := by
  rw [readAll_eq]
  exact streams_readWith pool _

end AttributeTable

namespace ClassFile

section agree
variable {n : Nat} {f g : FileParser AttributeTable}

theorem readMember_agree (h : Agree n f g) : Agree n (readMember f) (readMember g) := by
  apply Agree.after streams_inFile_u16.spends
  intro flags
  apply Agree.after streams_inFile_u16.spends
  intro name
  apply Agree.after streams_inFile_u16.spends
  intro descriptor
  exact h.before _

theorem readMembers_agree (hf : Streams .truncated f) (h : Agree n f g) :
    Agree n (readMembers f) (readMembers g) := by
  apply Agree.after streams_inFile_u16.spends
  intro count
  exact Agree.many (streams_readMember hf).spends (readMember_agree h) count.toNat

end agree

theorem read_agree {n : Nat} {f g : ConstantPool → FileParser AttributeTable}
    (hf : ∀ pool, Streams .truncated (f pool)) (h : ∀ pool, Agree n (f pool) (g pool)) :
    Agree n (ClassFile.read f) (ClassFile.read g) := by
  apply Agree.after streams_readMagic.spends
  intro _
  apply Agree.after streams_inFile_u16.spends
  intro minor
  apply Agree.after streams_inFile_u16.spends
  intro major
  apply Agree.after ConstantPool.streams_read.spends
  intro pool
  apply Agree.after streams_inFile_u16.spends
  intro flags
  apply Agree.after streams_inFile_u16.spends
  intro thisClass
  apply Agree.after streams_inFile_u16.spends
  intro superClass
  apply Agree.after streams_inFile_u16.spends
  intro count
  apply Agree.after (streams_inFile_u16.many count.toNat).spends
  intro interfaces
  have hspends : Spends 0 (readMembers (f pool)) := (streams_readMembers (hf pool)).spends
  have hmembers : Agree n (readMembers (f pool)) (readMembers (g pool)) :=
    readMembers_agree (hf pool) (h pool)
  apply Agree.bind hspends hmembers
  intro fields
  apply Agree.bind hspends hmembers
  intro methods
  exact (h pool).before _

/-- A class file with as deep a nesting of its tables as its bytes allow. -/
def readAll : FileParser ClassFile := ClassFile.read AttributeTable.readAll

theorem streams_readAll : Streams .truncated readAll := streams_read AttributeTable.streams_readAll

theorem parse_eq (bytes : Bytes) : parse bytes = (readAll bytes).map Prod.fst := by
  let depth := bytes.length / nestingCost
  have hshort : bytes.length < nestingCost * (depth + 1) :=
    Nat.lt_mul_div_succ bytes.length (by decide)
  have hagree := read_agree (fun pool => AttributeTable.streams_read pool depth)
    (fun pool => AttributeTable.read_agree_readAll pool depth) bytes hshort
  exact congrArg (Except.map Prod.fst) hagree

end ClassFile
end ClassVM
