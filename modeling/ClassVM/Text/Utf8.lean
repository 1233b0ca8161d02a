import ClassVM.Binary.Reader

namespace ClassVM.Text

/-- A character whose first bytes have been read: how many more it takes, the range of the next
byte, and the code point so far. -/
structure Pending where
  missing : Nat
  low : UInt8
  high : UInt8
  value : Nat

/-- What the first byte of a character says. -/
inductive Lead where
  | complete (c : Char)
  | partly (p : Pending)
  | invalid

/-- The narrower ranges after E0, ED, F0 and F4 leave out overlong forms, surrogates and values
above 10FFFF. -/
def Lead.ofByte (b : UInt8) : Lead :=
  let n := b.toNat
  if n < 0x80 then .complete (Char.ofNat n)
  else if n < 0xc2 then .invalid
  else if n < 0xe0 then .partly ⟨1, 0x80, 0xbf, n - 0xc0⟩
  else if n = 0xe0 then .partly ⟨2, 0xa0, 0xbf, 0⟩
  else if n = 0xed then .partly ⟨2, 0x80, 0x9f, 0xd⟩
  else if n < 0xf0 then .partly ⟨2, 0x80, 0xbf, n - 0xe0⟩
  else if n = 0xf0 then .partly ⟨3, 0x90, 0xbf, 0⟩
  else if n < 0xf4 then .partly ⟨3, 0x80, 0xbf, n - 0xf0⟩
  else if n = 0xf4 then .partly ⟨3, 0x80, 0x8f, 4⟩
  else .invalid

def replacement : Char := Char.ofNat 0xfffd

/-- Reads on with the text so far and the character under way. A byte that cannot continue a
character ends it as U+FFFD and is then looked at as a first byte. -/
def decodeOnto : Option Pending → String → Bytes → String
  | none, text, [] => text
  | some _, text, [] => text.push replacement
  | pending, text, b :: rest =>
    let fresh (text : String) :=
      match Lead.ofByte b with
      | .complete c => decodeOnto none (text.push c) rest
      | .partly p => decodeOnto (some p) text rest
      | .invalid => decodeOnto none (text.push replacement) rest
    match pending with
    | none => fresh text
    | some p =>
      if p.low ≤ b ∧ b ≤ p.high then
        let value := p.value * 64 + (b.toNat - 0x80)
        if p.missing ≤ 1 then decodeOnto none (text.push (Char.ofNat value)) rest
        else decodeOnto (some ⟨p.missing - 1, 0x80, 0xbf, value⟩) text rest
      else fresh (text.push replacement)

/-- The text of `bytes`, with U+FFFD in the place of what is not UTF-8. -/
def decode (bytes : Bytes) : String :=
  match String.fromUTF8? ⟨bytes.toArray⟩ with
  | some text => text
  | none => decodeOnto none "" bytes

/-- The UTF-8 bytes of a text. -/
def encode (text : String) : Bytes := text.toUTF8.data.toList

/-- The text that valid UTF-8 bytes encode. -/
def decode? (bytes : Bytes) : Option String := String.fromUTF8? ⟨bytes.toArray⟩

end ClassVM.Text
