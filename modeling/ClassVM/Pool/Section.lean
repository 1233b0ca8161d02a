import ClassVM.Binary.Reader
import ClassVM.Fault.FormatError
import ClassVM.Text.Utf8

namespace ClassVM
open Binary

/-- A class-file parser. -/
abbrev FileParser := Parser FormatError

/-- Reads from a class file; it is truncated if the bytes run out. -/
def inFile {α : Type} (r : Reader α) : FileParser α := r.orThrow .truncated

namespace ConstantPool
open Reader

def pairOf (f : UInt16 → UInt16 → Constant) : FileParser Constant := do
  let first ← inFile u16
  let second ← inFile u16
  return f first second

def indexOf (f : UInt16 → Constant) : FileParser Constant := do
  let index ← inFile u16
  return f index

/-- The payload that follows `tag`; `slot` is the slot being read, for the report of a tag that
does not exist. -/
def payload (tag : UInt8) (slot : Nat) : FileParser Constant :=
  match tag.toNat with
  | 1 => do
    let length ← inFile u16
    let bytes ← inFile (bytes length.toNat)
    return .utf8 (Text.decode bytes)
  | 3 => do
    let bits ← inFile u32
    return .integer bits.toInt32
  | 4 => do
    let bits ← inFile u32
    return .float bits
  | 5 => do
    let bits ← inFile u64
    return .long bits.toInt64
  | 6 => do
    let bits ← inFile u64
    return .double bits
  | 7 => indexOf .classInfo
  | 8 => indexOf .string
  | 9 => pairOf .field
  | 10 => pairOf .method
  | 11 => pairOf .interfaceMethod
  | 12 => pairOf .nameAndType
  | 15 => do
    let kind ← inFile u8
    let reference ← inFile u16
    return .methodHandle kind reference
  | 16 => indexOf .methodType
  | 17 => pairOf .dynamic
  | 18 => pairOf .invokeDynamic
  | 19 => indexOf .module
  | 20 => indexOf .package
  | _ => throw (.unknownConstantTag tag (.ofNat slot))

/-- A tag and its payload. -/
def readConstant (slot : Nat) : FileParser Constant := do
  let tag ← inFile u8
  payload tag slot

/-- Fills the `left` slots from `slot` on. A long or double that finds only one slot left is an
error, found after its payload has been read. -/
def readEntries : Nat → Nat → Array (Option Constant) → FileParser (Array (Option Constant))
  | 0, _, entries, s => .ok (entries, s)
  | left + 1, slot, entries, s =>
    match readConstant slot s with
    | .error e => .error e
    | .ok (c, rest) =>
      if c.isWide then
        match left with
        | 0 => .error (.constantPoolOverflow (.ofNat slot))
        | left + 1 => readEntries left (slot + 2) ((entries.push (some c)).push none) rest
      else readEntries left (slot + 1) (entries.push (some c)) rest

/-- The whole section. A count of 0 or 1 is a pool without constants. -/
def read : FileParser ConstantPool := do
  let count ← inFile u16
  let entries ← readEntries (count.toNat - 1) 1 #[]
  return ⟨entries⟩

end ConstantPool
end ClassVM
