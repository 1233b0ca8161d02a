namespace ClassVM

abbrev Bytes := List UInt8

namespace Binary

/-- Splits off the first `n` bytes, if there are that many. The accumulator holds them reversed. -/
def splitOff : Nat → Bytes → Bytes → Option (Bytes × Bytes)
  | 0, taken, rest => some (taken.reverse, rest)
  | _ + 1, _, [] => none
  | n + 1, taken, b :: rest => splitOff n (b :: taken) rest

theorem splitOff_eq (n : Nat) (taken bytes : Bytes) :
    splitOff n taken bytes =
      if n ≤ bytes.length then some (taken.reverse ++ bytes.take n, bytes.drop n) else none := by
  induction n generalizing taken bytes with
  | zero => simp [splitOff]
  | succ n ih => cases bytes <;> simp [splitOff, ih]

/-- Whether there are at least `n` bytes; looks no further than that. -/
def atLeast : Nat → Bytes → Bool
  | 0, _ => true
  | _ + 1, [] => false
  | n + 1, _ :: rest => atLeast n rest

theorem atLeast_iff (n : Nat) (bytes : Bytes) : atLeast n bytes = true ↔ n ≤ bytes.length := by
  induction n generalizing bytes with
  | zero => simp [atLeast]
  | succ n ih => cases bytes <;> simp [atLeast, ih]

/-- Takes what it needs from the front of a byte string; `none` if the bytes run out. -/
abbrev Reader (α : Type) := StateT Bytes Option α

namespace Reader

def u8 : Reader UInt8
  | [] => none
  | b :: rest => some (b, rest)

/-- Two bytes, the high one first. -/
def u16 : Reader UInt16
  | hi :: lo :: rest => some (.ofNat (hi.toNat * 256 + lo.toNat), rest)
  | _ => none

/-- Four bytes, the highest first. -/
def u32 : Reader UInt32
  | a :: b :: c :: d :: rest =>
    some (.ofNat (((a.toNat * 256 + b.toNat) * 256 + c.toNat) * 256 + d.toNat), rest)
  | _ => none

/-- Eight bytes, the highest first. -/
def u64 : Reader UInt64 := do
  let hi ← u32
  let lo ← u32
  return .ofNat (hi.toNat * 4294967296 + lo.toNat)

def bytes (n : Nat) : Reader Bytes := splitOff n []

end Reader

/-- A reader with causes of failure of its own. -/
abbrev Parser (ε α : Type) := StateT Bytes (Except ε) α

/-- Running out of bytes becomes the cause `e`. -/
def Reader.orThrow {ε α : Type} (e : ε) (r : Reader α) : Parser ε α := fun s =>
  match r s with
  | none => .error e
  | some out => .ok out

namespace Parser

/-- Reads `n` items one after another; `read` holds those before them, newest first. -/
def manyOnto {ε α : Type} (p : Parser ε α) : Nat → List α → Parser ε (List α)
  | 0, read, s => .ok (read.reverse, s)
  | n + 1, read, s =>
    match p s with
    | .error e => .error e
    | .ok (a, rest) => manyOnto p n (a :: read) rest

def many {ε α : Type} (n : Nat) (p : Parser ε α) : Parser ε (List α) := manyOnto p n []

end Parser
end Binary
end ClassVM
