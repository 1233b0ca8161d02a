import ClassVM.ClassFile.Parsing
import ClassVM.Proofs.Binary.Streaming

namespace ClassVM
open Binary Parser

section inFile

theorem streams_inFile_u8 : Streams .truncated (inFile Reader.u8) := streams_fixed Reader.u8_fixed

theorem streams_inFile_u16 : Streams .truncated (inFile Reader.u16) :=
  streams_fixed Reader.u16_fixed

theorem streams_inFile_u32 : Streams .truncated (inFile Reader.u32) :=
  streams_fixed Reader.u32_fixed

theorem streams_inFile_u64 : Streams .truncated (inFile Reader.u64) :=
  streams_fixed Reader.u64_fixed

theorem streams_inFile_bytes (n : Nat) : Streams .truncated (inFile (Reader.bytes n)) :=
  streams_fixed (Reader.bytes_fixed n)

end inFile

namespace ConstantPool

theorem streams_indexOf (f : UInt16 → Constant) : Streams .truncated (indexOf f) :=
  streams_inFile_u16.bind fun index => streams_pure (f index)

theorem streams_pairOf (f : UInt16 → UInt16 → Constant) : Streams .truncated (pairOf f) :=
  streams_inFile_u16.bind fun first => streams_inFile_u16.bind fun second =>
    streams_pure (f first second)

theorem streams_payload (tag : UInt8) (slot : Nat) : Streams .truncated (payload tag slot) := by
  unfold payload
  split
  case h_1 =>
    exact streams_inFile_u16.bind fun length => (streams_inFile_bytes _).bind fun bytes =>
      streams_pure _
  case h_2 | h_3 => exact streams_inFile_u32.bind fun bits => streams_pure _
  case h_4 | h_5 => exact streams_inFile_u64.bind fun bits => streams_pure _
  case h_12 =>
    exact streams_inFile_u8.bind fun kind => streams_inFile_u16.bind fun reference =>
      streams_pure _
  case h_18 => exact streams_throw _
  case h_6 | h_7 | h_13 | h_16 | h_17 => exact streams_indexOf _
  case h_8 | h_9 | h_10 | h_11 | h_14 | h_15 => exact streams_pairOf _

theorem streams_readConstant (slot : Nat) : Streams .truncated (readConstant slot) :=
  streams_inFile_u8.bind fun tag => streams_payload tag slot

/-- How the slots from `slot` on are filled once the constant `c` has been read for the first. -/
def fillAfter (left slot : Nat) (entries : Array (Option Constant)) (c : Constant) :
    FileParser (Array (Option Constant)) :=
  if c.isWide then
    match left with
    | 0 => throw (.constantPoolOverflow (.ofNat slot))
    | left + 1 => readEntries left (slot + 2) ((entries.push (some c)).push none)
  else readEntries left (slot + 1) (entries.push (some c))

theorem readEntries_succ (left slot : Nat) (entries : Array (Option Constant)) :
    readEntries (left + 1) slot entries = readConstant slot >>= fillAfter left slot entries := by
  funext s
  cases hc : readConstant slot s with
  | error e =>
    rw [bind_error hc]
    simp [readEntries, hc]
  | ok out =>
    rw [bind_ok hc]
    cases left with
    | zero =>
      simp only [readEntries, fillAfter, hc]
      cases out.1.isWide <;> rfl
    | succ left =>
      rw [readEntries]
      simp only [fillAfter, hc]
      cases out.1.isWide <;> rfl

theorem streams_readEntries (left slot : Nat) (entries : Array (Option Constant)) :
    Streams .truncated (readEntries left slot entries) := by
  induction left using Nat.strongRecOn generalizing slot entries with
  | _ left ih =>
    cases left with
    | zero => exact streams_pure entries
    | succ left =>
      rw [readEntries_succ]
      apply (streams_readConstant slot).bind
      intro c
      unfold fillAfter
      split
      · cases left with
        | zero => exact streams_throw _
        | succ left => exact ih left (by omega) _ _
      · exact ih left (by omega) _ _

theorem streams_read : Streams .truncated ConstantPool.read := by
  apply streams_inFile_u16.bind
  intro count
  apply (streams_readEntries (count.toNat - 1) 1 #[]).bind
  intro entries
  exact streams_pure _

end ConstantPool

namespace Attribute

theorem streams_readHandler : Streams .truncated readHandler := by
  apply streams_inFile_u16.bind
  intro start
  apply streams_inFile_u16.bind
  intro stop
  apply streams_inFile_u16.bind
  intro code
  apply streams_inFile_u16.bind
  intro caught
  exact streams_pure _

/-- The nested table need not stream, it is read from the attribute's own bytes. -/
theorem streams_read (pool : ConstantPool) (nested : FileParser AttributeTable) :
    Streams .truncated (Attribute.read pool nested) := by
  apply streams_inFile_u16.bind
  intro index
  apply (streams_lift _).bind
  intro name
  apply streams_inFile_u32.bind
  intro length
  apply (streams_inFile_bytes length.toNat).bind
  intro info
  apply (streams_lift _).bind
  intro value
  exact streams_pure (name, value)

end Attribute

namespace AttributeTable

theorem streams_readWith (pool : ConstantPool) (nested : FileParser AttributeTable) :
    Streams .truncated (readWith pool nested) := by
  apply streams_inFile_u16.bind
  intro count
  apply ((Attribute.streams_read pool nested).many count.toNat).bind
  intro attributes
  exact streams_pure _

end AttributeTable

namespace ClassFile

theorem streams_readMember {tables : FileParser AttributeTable} (h : Streams .truncated tables) :
    Streams .truncated (readMember tables) := by
  apply streams_inFile_u16.bind
  intro flags
  apply streams_inFile_u16.bind
  intro name
  apply streams_inFile_u16.bind
  intro descriptor
  apply h.bind
  intro attributes
  exact streams_pure _

theorem streams_readMembers {tables : FileParser AttributeTable} (h : Streams .truncated tables) :
    Streams .truncated (readMembers tables) := by
  apply streams_inFile_u16.bind
  intro count
  exact (streams_readMember h).many count.toNat

theorem streams_readMagic : Streams .truncated readMagic := by
  apply streams_inFile_u32.bind
  intro found
  split
  · exact streams_pure ()
  · exact streams_throw _

theorem streams_read {tables : ConstantPool → FileParser AttributeTable}
    (h : ∀ pool, Streams .truncated (tables pool)) :
    Streams .truncated (ClassFile.read tables) := by
  apply streams_readMagic.bind
  intro _
  apply streams_inFile_u16.bind
  intro minor
  apply streams_inFile_u16.bind
  intro major
  apply ConstantPool.streams_read.bind
  intro pool
  apply streams_inFile_u16.bind
  intro flags
  apply streams_inFile_u16.bind
  intro thisClass
  apply streams_inFile_u16.bind
  intro superClass
  apply streams_inFile_u16.bind
  intro count
  apply (streams_inFile_u16.many count.toNat).bind
  intro interfaces
  apply (streams_readMembers (h pool)).bind
  intro fields
  apply (streams_readMembers (h pool)).bind
  intro methods
  apply (h pool).bind
  intro attributes
  exact streams_pure _

end ClassFile
end ClassVM
