import ClassVM.Proofs.Pool.Encoding

namespace ClassVM
open Binary Parser

namespace Text

theorem encode_decode {bytes : Bytes} (h : (decode? bytes).isSome) :
    encode (decode bytes) = bytes := by
  obtain ⟨text, htext⟩ := Option.isSome_iff_exists.mp h
  rw [decode, ← decode?, htext]
  rw [decode?, String.fromUTF8?] at htext
  split at htext
  · cases htext
    rfl
  · cases htext

end Text

namespace Binary
variable {ε α β : Type} {cause : ε}

theorem Reader.Fixed.of_orThrow {e : ε} {n : Nat} {value : Bytes → α} {r : Reader α} {a : α}
    {s rest : Bytes} (hr : r.Fixed n value) (h : r.orThrow e s = .ok (a, rest)) :
    ∃ taken, taken.length = n ∧ s = taken ++ rest ∧ a = value taken := by
  by_cases hs : n ≤ s.length
  · rw [hr.orThrow_ok hs] at h
    cases h
    exact ⟨s.take n, List.length_take_of_le hs, (List.take_append_drop n s).symm, rfl⟩
  · rw [hr.orThrow_error (Nat.lt_of_not_le hs)] at h
    cases h

/-- What a number has been read from are its bytes. -/
theorem Reader.Fixed.of_inFile {width : Nat} {ofNat : Nat → α} {toNat : α → Nat} {r : Reader α}
    {a : α} {s rest : Bytes} (hr : r.Fixed width fun bs => ofNat (bigEndian bs))
    (hback : ∀ n, n < place width → toNat (ofNat n) = n) (h : inFile r s = .ok (a, rest)) :
    s = octets width (toNat a) ++ rest := by
  obtain ⟨taken, rfl, rfl, rfl⟩ := hr.of_orThrow h
  rw [hback _ (bigEndian_lt taken), octets_bigEndian]

/-- The parser has one cause of failure. -/
def Parser.FailsOnly (cause : ε) (p : Parser ε α) : Prop := ∀ s e, p s = .error e → e = cause

theorem Parser.failsOnly_orThrow (cause : ε) (r : Reader α) :
    FailsOnly cause (r.orThrow cause) := by
  intro s e h
  rw [Reader.orThrow] at h
  split at h <;> cases h
  rfl

theorem Parser.failsOnly_pure (cause : ε) (a : α) : FailsOnly cause (pure a : Parser ε α) :=
  fun _ _ h => nomatch h

theorem Parser.FailsOnly.bind {p : Parser ε α} {f : α → Parser ε β} (hp : FailsOnly cause p)
    (hf : ∀ a, FailsOnly cause (f a)) : FailsOnly cause (p >>= f) := by
  intro s e h
  cases hs : p s with
  | error _ =>
    rw [bind_error hs] at h
    cases h
    exact hp s e hs
  | ok out =>
    rw [bind_ok hs] at h
    exact hf out.1 out.2 e h

end Binary

section numbers
variable {s rest : Bytes}

theorem of_inFile_u8 {n : UInt8} (h : inFile Reader.u8 s = .ok (n, rest)) : s = [n] ++ rest := by
  cases s with
  | nil => cases h
  | cons b s =>
    cases h
    rfl

theorem of_inFile_u16 {n : UInt16} (h : inFile Reader.u16 s = .ok (n, rest)) :
    s = octets 2 n.toNat ++ rest :=
  Reader.u16_fixed.of_inFile (fun _ => UInt16.toNat_ofNat_of_lt') h

theorem of_inFile_u32 {n : UInt32} (h : inFile Reader.u32 s = .ok (n, rest)) :
    s = octets 4 n.toNat ++ rest :=
  Reader.u32_fixed.of_inFile (fun _ => UInt32.toNat_ofNat_of_lt') h

theorem of_inFile_u64 {n : UInt64} (h : inFile Reader.u64 s = .ok (n, rest)) :
    s = octets 8 n.toNat ++ rest :=
  Reader.u64_fixed.of_inFile (fun _ => UInt64.toNat_ofNat_of_lt') h

theorem of_inFile_bytes {n : Nat} {taken : Bytes}
    (h : inFile (Reader.bytes n) s = .ok (taken, rest)) : taken.length = n ∧ s = taken ++ rest := by
  obtain ⟨taken, htaken, rfl, rfl⟩ := (Reader.bytes_fixed n).of_orThrow h
  exact ⟨htaken, rfl⟩

end numbers

namespace Constant

/-- The entry of a text with these bytes, UTF-8 or not. -/
def textEntry (raw : Bytes) : Bytes := 1 :: (octets 2 raw.length ++ raw)

/-- The entry of a constant as it stands in a file. -/
inductive WrittenAs : Constant → Bytes → Prop where
  | text (raw : Bytes) (hraw : raw.length < 65536) :
    WrittenAs (utf8 (Text.decode raw)) (textEntry raw)
  | other (c : Constant) (hc : ∀ text, c ≠ utf8 text) : WrittenAs c c.encode

/-- No constant has this tag. -/
def Unassigned (tag : UInt8) : Prop := ∀ c : Constant, c.tag ≠ tag

theorem Unassigned.notMem {tag : UInt8} (h : Unassigned tag) :
    tag ∉ [1, 3, 4, 5, 6, 7, 8, 9, 10, 11, 12, 15, 16, 17, 18, 19, 20] := by
  intro hmem
  have hmap : tag ∈ [utf8 "", integer 0, float 0, long 0, double 0, classInfo 0, string 0,
      field 0 0, method 0 0, interfaceMethod 0 0, nameAndType 0 0, methodHandle 0 0, methodType 0,
      dynamic 0 0, invokeDynamic 0 0, module 0, package 0].map Constant.tag := hmem
  obtain ⟨c, -, hc⟩ := List.mem_map.mp hmap
  exact h c hc

variable {c : Constant} {entry : Bytes}

/-- If its text is UTF-8, an entry is the one that would be written for the constant. -/
theorem WrittenAs.eq_encode (h : c.WrittenAs entry)
    (htext : ∀ raw, entry = textEntry raw → (Text.decode? raw).isSome) : entry = c.encode := by
  cases h with
  | text raw hraw => rw [encode, tag, content, Text.encode_decode (htext raw rfl), textEntry]
  | other c hc => rfl

end Constant

namespace ConstantPool
open Constant

/-- What follows a tag, where `p` has read it: with the tag it is the entry of the constant. -/
def Completes (tag : UInt8) (p : FileParser Constant) : Prop :=
  ∀ s c rest, p s = .ok (c, rest) → ∃ content, s = content ++ rest ∧ c.WrittenAs (tag :: content)

section fields
variable {α β : Type} {tag : UInt8} {p : FileParser α} {q : FileParser β} {write : α → Bytes}
  {write' : β → Bytes}

theorem completes_one {f : α → Constant}
    (hp : ∀ {s a rest}, p s = .ok (a, rest) → s = write a ++ rest)
    (h : ∀ a, (f a).WrittenAs (tag :: write a)) :
    Completes tag (do let a ← p; return f a) := by
  intro s c rest hread
  obtain ⟨a, middle, ha, hrest⟩ := bind_eq_ok hread
  cases hrest
  exact ⟨write a, hp ha, h a⟩

theorem completes_two {f : α → β → Constant}
    (hp : ∀ {s a rest}, p s = .ok (a, rest) → s = write a ++ rest)
    (hq : ∀ {s b rest}, q s = .ok (b, rest) → s = write' b ++ rest)
    (h : ∀ a b, (f a b).WrittenAs (tag :: (write a ++ write' b))) :
    Completes tag (do let a ← p; let b ← q; return f a b) := by
  intro s c rest hread
  obtain ⟨a, middle, ha, hmore⟩ := bind_eq_ok hread
  obtain ⟨b, last, hb, hrest⟩ := bind_eq_ok hmore
  cases hrest
  refine ⟨write a ++ write' b, ?_, h a b⟩
  rw [hp ha, hq hb, List.append_assoc]

end fields

theorem completes_text :
    Completes 1 (do
      let length ← inFile Reader.u16
      let raw ← inFile (Reader.bytes length.toNat)
      return .utf8 (Text.decode raw)) := by
  intro s c rest h
  obtain ⟨length, middle, hlength, hmore⟩ := bind_eq_ok h
  obtain ⟨raw, last, hraw, hrest⟩ := bind_eq_ok hmore
  cases hrest
  obtain ⟨hsize, rfl⟩ := of_inFile_bytes hraw
  refine ⟨octets 2 length.toNat ++ raw, ?_, ?_⟩
  · rw [of_inFile_u16 hlength, List.append_assoc]
  · rw [← hsize]
    exact .text raw (hsize ▸ length.toNat_lt)

theorem completes_payload (tag : UInt8) (slot : Nat) : Completes tag (payload tag slot) := by
  unfold payload
  split
  case h_18 => exact fun _ _ _ h => nomatch h
  -- The number that has been matched tells the tag.
  all_goals
    rename_i htag
    rw [← UInt8.ofNat_toNat (x := tag), htag]
  case h_1 => exact completes_text
  case h_2 | h_3 => exact completes_one of_inFile_u32 fun _ => .other _ nofun
  case h_4 | h_5 => exact completes_one of_inFile_u64 fun _ => .other _ nofun
  case h_12 => exact completes_two of_inFile_u8 of_inFile_u16 fun _ _ => .other _ nofun
  case h_6 | h_7 | h_13 | h_16 | h_17 =>
    exact completes_one of_inFile_u16 fun _ => .other _ nofun
  case h_8 | h_9 | h_10 | h_11 | h_14 | h_15 =>
    exact completes_two of_inFile_u16 of_inFile_u16 fun _ _ => .other _ nofun

theorem failsOnly_one {α : Type} (r : Reader α) (f : α → Constant) :
    FailsOnly .truncated (do let a ← inFile r; return f a) :=
  (failsOnly_orThrow _ r).bind fun _ => failsOnly_pure _ _

theorem failsOnly_two {α β : Type} (r : Reader α) (q : α → Reader β) (f : α → β → Constant) :
    FailsOnly .truncated (do let a ← inFile r; let b ← inFile (q a); return f a b) :=
  (failsOnly_orThrow _ r).bind fun a => (failsOnly_orThrow _ (q a)).bind fun _ => failsOnly_pure _ _

/-- A payload that cannot be read is cut short, unless there is no constant with its tag. -/
theorem failsOnly_payload (tag : UInt8) (slot : Nat) :
    FailsOnly .truncated (payload tag slot) ∨
      Unassigned tag ∧ payload tag slot = throw (.unknownConstantTag tag (.ofNat slot)) := by
  unfold payload
  split
  case h_18 =>
    refine .inr ⟨?_, rfl⟩
    rintro c rfl
    cases c <;> contradiction
  all_goals left
  case h_1 => exact failsOnly_two Reader.u16 (fun length => Reader.bytes length.toNat) _
  case h_2 | h_3 | h_4 | h_5 | h_6 | h_7 | h_13 | h_16 | h_17 => exact failsOnly_one _ _
  case h_8 | h_9 | h_10 | h_11 | h_12 | h_14 | h_15 => exact failsOnly_two _ (fun _ => _) _

theorem payload_unassigned {tag : UInt8} (h : Unassigned tag) (slot : Nat) :
    payload tag slot = throw (.unknownConstantTag tag (.ofNat slot)) := by
  have htag := h.notMem
  unfold payload
  split
  case h_18 => rfl
  all_goals
    rename_i hnumber
    rw [← UInt8.ofNat_toNat (x := tag), hnumber] at htag
    exact absurd (by decide) htag

/-- All that can come of reading a constant. -/
theorem readConstant_cases (slot : Nat) (s : Bytes) :
    (∃ c entry rest, s = entry ++ rest ∧ c.WrittenAs entry ∧
      readConstant slot s = .ok (c, rest)) ∨
    readConstant slot s = .error .truncated ∨
    ∃ tag rest, s = tag :: rest ∧ Unassigned tag ∧
      readConstant slot s = .error (.unknownConstantTag tag (.ofNat slot)) := by
  cases s with
  | nil => exact .inr (.inl rfl)
  | cons tag s =>
    have hread : readConstant slot (tag :: s) = payload tag slot s := bind_ok (inFile_u8 s tag)
    rw [hread]
    cases hpayload : payload tag slot s with
    | ok out =>
      obtain ⟨content, hs, hentry⟩ := completes_payload tag slot s out.1 out.2 hpayload
      exact .inl ⟨out.1, tag :: content, out.2, by rw [hs, List.cons_append], hentry, rfl⟩
    | error e =>
      rcases failsOnly_payload tag slot with hfails | ⟨hunassigned, hthrow⟩
      · exact .inr (.inl (by rw [hfails s e hpayload]))
      · rw [hthrow] at hpayload
        cases hpayload
        exact .inr (.inr ⟨tag, s, rfl, hunassigned, rfl⟩)

/-- An entry is read whatever follows it. -/
theorem readConstant_entry {c : Constant} {entry : Bytes} (h : c.WrittenAs entry) (slot : Nat)
    (t : Bytes) : readConstant slot (entry ++ t) = .ok (c, t) := by
  cases h with
  | text raw hraw =>
    have hread : payload 1 slot = (do
      let length ← inFile Reader.u16
      let bytes ← inFile (Reader.bytes length.toNat)
      return .utf8 (Text.decode bytes)) := rfl
    have hlength : (UInt16.ofNat raw.length).toNat = raw.length := UInt16.toNat_ofNat_of_lt' hraw
    rw [readConstant, textEntry, List.cons_append, bind_ok (inFile_u8 _ 1), hread,
      List.append_assoc, bind_ok (inFile_count16 _ hraw), bind_ok (inFile_bytes t hlength)]
    rfl
  | other c hc =>
    refine readConstant_encode t ?_ slot
    cases c <;> first | trivial | exact absurd rfl (hc _)

theorem readConstant_unassigned {tag : UInt8} (h : Unassigned tag) (slot : Nat) (t : Bytes) :
    readConstant slot (tag :: t) = .error (.unknownConstantTag tag (.ofNat slot)) := by
  rw [readConstant, bind_ok (inFile_u8 t tag), payload_unassigned h]
  rfl

end ConstantPool
end ClassVM
