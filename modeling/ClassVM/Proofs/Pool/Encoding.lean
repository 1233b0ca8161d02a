import ClassVM.Pool.Section
import ClassVM.Proofs.Binary.Streaming

namespace ClassVM
open Binary Parser

namespace Text

theorem decode_encode (text : String) : decode (encode text) = text := by
  have hvalid : String.fromUTF8? text.toUTF8 = some text := dif_pos text.isValidUTF8
  have hbytes : (⟨(encode text).toArray⟩ : ByteArray) = text.toUTF8 := rfl
  rw [decode, hbytes, hvalid]

end Text

/-- A number is read back from its bytes. -/
theorem Binary.Reader.Fixed.inFile_octets {α : Type} {width n : Nat} {ofNat : Nat → α}
    {r : Reader α} (hr : r.Fixed width fun bs => ofNat (bigEndian bs)) (h : n < place width)
    (t : Bytes) : inFile r (octets width n ++ t) = .ok (ofNat n, t) := by
  have hread := hr.orThrow_append (e := FormatError.truncated) (octets_length width n) t
  rw [bigEndian_octets width n h] at hread
  exact hread

section numbers
variable (t : Bytes)

theorem inFile_u8 (n : UInt8) : inFile Reader.u8 (n :: t) = .ok (n, t) := rfl

theorem inFile_count16 {n : Nat} (h : n < 65536) :
    inFile Reader.u16 (octets 2 n ++ t) = .ok (.ofNat n, t) := Reader.u16_fixed.inFile_octets h t

theorem inFile_count32 {n : Nat} (h : n < 4294967296) :
    inFile Reader.u32 (octets 4 n ++ t) = .ok (.ofNat n, t) := Reader.u32_fixed.inFile_octets h t

theorem inFile_u16 (n : UInt16) : inFile Reader.u16 (octets 2 n.toNat ++ t) = .ok (n, t) := by
  rw [inFile_count16 t n.toNat_lt, UInt16.ofNat_toNat]

theorem inFile_u32 (n : UInt32) : inFile Reader.u32 (octets 4 n.toNat ++ t) = .ok (n, t) := by
  rw [inFile_count32 t n.toNat_lt, UInt32.ofNat_toNat]

theorem inFile_u64 (n : UInt64) : inFile Reader.u64 (octets 8 n.toNat ++ t) = .ok (n, t) := by
  rw [Reader.u64_fixed.inFile_octets n.toNat_lt t, UInt64.ofNat_toNat]

theorem inFile_bytes {length : Nat} {bs : Bytes} (h : length = bs.length) :
    inFile (Reader.bytes length) (bs ++ t) = .ok (bs, t) :=
  (Reader.bytes_fixed length).orThrow_append h.symm t

end numbers

namespace Constant

/-- The byte that tells which kind of constant follows. -/
def tag : Constant → UInt8
  | utf8 _ => 1
  | integer _ => 3
  | float _ => 4
  | long _ => 5
  | double _ => 6
  | classInfo _ => 7
  | string _ => 8
  | field _ _ => 9
  | method _ _ => 10
  | interfaceMethod _ _ => 11
  | nameAndType _ _ => 12
  | methodHandle _ _ => 15
  | methodType _ => 16
  | dynamic _ _ => 17
  | invokeDynamic _ _ => 18
  | module _ => 19
  | package _ => 20

def content : Constant → Bytes
  | utf8 text => octets 2 (Text.encode text).length ++ Text.encode text
  | integer value => octets 4 value.toUInt32.toNat
  | float bits => octets 4 bits.toNat
  | long value => octets 8 value.toUInt64.toNat
  | double bits => octets 8 bits.toNat
  | classInfo index | string index | methodType index | module index | package index =>
    octets 2 index.toNat
  | field first second | method first second | interfaceMethod first second
  | nameAndType first second | dynamic first second | invokeDynamic first second =>
    octets 2 first.toNat ++ octets 2 second.toNat
  | methodHandle kind reference => kind :: octets 2 reference.toNat

def encode (c : Constant) : Bytes := c.tag :: c.content

/-- A text is not longer than its length field can say. -/
def Fits : Constant → Prop
  | utf8 text => (Text.encode text).length < 65536
  | _ => True

instance : DecidablePred Fits := fun c =>
  match c with
  | utf8 text => inferInstanceAs (Decidable ((Text.encode text).length < 65536))
  | integer _ | float _ | long _ | double _ | classInfo _ | string _ | field _ _ | method _ _
  | interfaceMethod _ _ | nameAndType _ _ | methodHandle _ _ | methodType _ | dynamic _ _
  | invokeDynamic _ _ | module _ | package _ => .isTrue trivial

end Constant

namespace ConstantPool
open Constant

variable (t : Bytes)

theorem indexOf_octets (f : UInt16 → Constant) (index : UInt16) :
    indexOf f (octets 2 index.toNat ++ t) = .ok (f index, t) := by
  rw [indexOf, bind_ok (inFile_u16 t index)]
  rfl

theorem pairOf_octets (f : UInt16 → UInt16 → Constant) (first second : UInt16) :
    pairOf f ((octets 2 first.toNat ++ octets 2 second.toNat) ++ t) = .ok (f first second, t) := by
  rw [List.append_assoc, pairOf, bind_ok (inFile_u16 _ first), bind_ok (inFile_u16 t second)]
  rfl

theorem payload_content {c : Constant} (h : c.Fits) (slot : Nat) :
    payload c.tag slot (c.content ++ t) = .ok (c, t) := by
  cases c with
  | utf8 text =>
    have hread : payload 1 slot = (do
      let length ← inFile Reader.u16
      let bytes ← inFile (Reader.bytes length.toNat)
      return .utf8 (Text.decode bytes)) := rfl
    have hlength : (UInt16.ofNat (Text.encode text).length).toNat = (Text.encode text).length :=
      UInt16.toNat_ofNat_of_lt' h
    rw [tag, hread, content, List.append_assoc, bind_ok (inFile_count16 _ h),
      bind_ok (inFile_bytes t hlength), Text.decode_encode]
    rfl
  | integer value =>
    have hread : payload 3 slot = (do
      let bits ← inFile Reader.u32
      return .integer bits.toInt32) := rfl
    rw [tag, hread, content, bind_ok (inFile_u32 t _)]
    rfl
  | float bits =>
    have hread : payload 4 slot = (do
      let bits ← inFile Reader.u32
      return .float bits) := rfl
    rw [tag, hread, content, bind_ok (inFile_u32 t _)]
    rfl
  | long value =>
    have hread : payload 5 slot = (do
      let bits ← inFile Reader.u64
      return .long bits.toInt64) := rfl
    rw [tag, hread, content, bind_ok (inFile_u64 t _)]
    rfl
  | double bits =>
    have hread : payload 6 slot = (do
      let bits ← inFile Reader.u64
      return .double bits) := rfl
    rw [tag, hread, content, bind_ok (inFile_u64 t _)]
    rfl
  | methodHandle kind reference =>
    have hread : payload 15 slot = (do
      let kind ← inFile Reader.u8
      let reference ← inFile Reader.u16
      return .methodHandle kind reference) := rfl
    rw [tag, hread, content, List.cons_append, bind_ok (inFile_u8 _ kind),
      bind_ok (inFile_u16 t reference)]
    rfl
  | classInfo index | string index | methodType index | module index | package index =>
    exact indexOf_octets t _ index
  | field first second | method first second | interfaceMethod first second
  | nameAndType first second | dynamic first second | invokeDynamic first second =>
    exact pairOf_octets t _ first second

theorem readConstant_encode {c : Constant} (h : c.Fits) (slot : Nat) :
    readConstant slot (c.encode ++ t) = .ok (c, t) := by
  rw [readConstant, Constant.encode, List.cons_append, bind_ok (inFile_u8 _ c.tag)]
  exact payload_content t h slot

/-- No bytes stand for an unusable slot. -/
def encodeEntry : Option Constant → Bytes
  | none => []
  | some c => c.encode

/-- The slots from 1 on: there is an unusable slot after each long or double and nowhere else. -/
inductive Spaced : List (Option Constant) → Prop where
  | nil : Spaced []
  | narrow (c : Constant) (rest : List (Option Constant)) (hc : c.isWide = false)
    (hrest : Spaced rest) : Spaced (some c :: rest)
  | wide (c : Constant) (rest : List (Option Constant)) (hc : c.isWide = true)
    (hrest : Spaced rest) : Spaced (some c :: none :: rest)

theorem readEntries_encode {entries : List (Option Constant)} (h : Spaced entries)
    (hfits : ∀ c, some c ∈ entries → c.Fits) (slot : Nat) (before : Array (Option Constant)) :
    readEntries entries.length slot before (entries.flatMap encodeEntry ++ t) =
      .ok (before ++ entries.toArray, t) := by
  induction h generalizing slot before with
  | nil => simp [readEntries]
  | narrow c rest hc hrest ih =>
    have hread := readConstant_encode (rest.flatMap encodeEntry ++ t)
      (hfits c List.mem_cons_self) slot
    have hmore := ih (fun d hd => hfits d (List.mem_cons_of_mem _ hd)) (slot + 1)
      (before.push (some c))
    rw [List.flatMap_cons, encodeEntry, List.append_assoc, List.length_cons, readEntries, hread]
    simp only [hc, Bool.false_eq_true, if_false, hmore]
    simp
  | wide c rest hc hrest ih =>
    have hread := readConstant_encode (rest.flatMap encodeEntry ++ t)
      (hfits c List.mem_cons_self) slot
    have hmore := ih
      (fun d hd => hfits d (List.mem_cons_of_mem _ (List.mem_cons_of_mem _ hd))) (slot + 2)
      ((before.push (some c)).push none)
    rw [List.flatMap_cons, List.flatMap_cons, encodeEntry, encodeEntry, List.nil_append,
      List.append_assoc, List.length_cons, List.length_cons, readEntries, hread]
    simp only [hc, if_true, hmore]
    simp

/-- The section of a class file that holds the pool. -/
def encode (pool : ConstantPool) : Bytes :=
  octets 2 pool.size ++ pool.entries.toList.flatMap encodeEntry

/-- The pool can stand in a class file. -/
structure Fits (pool : ConstantPool) : Prop where
  spaced : Spaced pool.entries.toList
  size_lt : pool.size < 65536
  texts : ∀ c, some c ∈ pool.entries.toList → c.Fits

theorem spaced_map_some {constants : List Constant} (h : ∀ c ∈ constants, c.isWide = false) :
    Spaced (constants.map some) := by
  induction constants with
  | nil => exact .nil
  | cons c constants ih =>
    obtain ⟨hc, hrest⟩ := List.forall_mem_cons.mp h
    exact .narrow c _ hc (ih hrest)

/-- A pool without unusable slots. -/
theorem fits_of_narrow {constants : List Constant} (hsize : constants.length + 1 < 65536)
    (h : ∀ c ∈ constants, c.isWide = false ∧ c.Fits) :
    Fits ⟨(constants.map some).toArray⟩ := by
  refine ⟨?_, ?_, ?_⟩
  · exact spaced_map_some fun c hc => (h c hc).1
  · simpa [size] using hsize
  · intro c hc
    exact (h c (by simpa using hc)).2

theorem read_encode {pool : ConstantPool} (h : pool.Fits) :
    ConstantPool.read (pool.encode ++ t) = .ok (pool, t) := by
  have hsize : (UInt16.ofNat pool.size).toNat - 1 = pool.entries.toList.length := by
    rw [UInt16.toNat_ofNat_of_lt' h.size_lt, size, Array.length_toList, Nat.add_sub_cancel]
  rw [ConstantPool.read, ConstantPool.encode, List.append_assoc, bind_ok (inFile_count16 _ h.size_lt),
    hsize, bind_ok (readEntries_encode t h.spaced h.texts 1 #[])]
  simp [pure_apply]

end ConstantPool
end ClassVM
