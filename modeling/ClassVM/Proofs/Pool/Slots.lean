import ClassVM.Proofs.Pool.Decoding
import Mathlib.Data.List.Forall2

namespace ClassVM
open Binary Parser

namespace Constant

/-- The number of slots a constant takes. -/
def width (c : Constant) : Nat := if c.isWide then 2 else 1

def slots (c : Constant) : List (Option Constant) := if c.isWide then [some c, none] else [some c]

theorem slots_length (c : Constant) : c.slots.length = c.width := by
  rw [slots, width]
  split <;> rfl

theorem flatMap_slots (c : Constant) : c.slots.flatMap ConstantPool.encodeEntry = c.encode := by
  rw [slots]
  split <;> simp [ConstantPool.encodeEntry]

end Constant

namespace ConstantPool
open Constant

/-- The slots that constants fill one after another. -/
def layout (constants : List Constant) : List (Option Constant) := constants.flatMap slots

/-- How many slots those are. -/
def extent : List Constant → Nat
  | [] => 0
  | c :: constants => c.width + extent constants

/-- What follows a section's entries when `left` slots are left from `slot` on, and what becomes of
the section. -/
inductive Stops : Nat → Nat → Bytes → Except FormatError Bytes → Prop where
  | filled (slot : Nat) (after : Bytes) : Stops 0 slot after (.ok after)
  | truncated (left slot : Nat) (after : Bytes) (h : readConstant slot after = .error .truncated) :
    Stops (left + 1) slot after (.error .truncated)
  | unknown (left slot : Nat) (tag : UInt8) (rest : Bytes) (h : Unassigned tag) :
    Stops (left + 1) slot (tag :: rest) (.error (.unknownConstantTag tag (.ofNat slot)))
  | overflow (slot : Nat) (c : Constant) (entry rest : Bytes) (h : c.WrittenAs entry)
    (hwide : c.isWide = true) :
    Stops 1 slot (entry ++ rest) (.error (.constantPoolOverflow (.ofNat slot)))

section layout
variable {constants : List Constant}

theorem layout_cons (c : Constant) (constants : List Constant) :
    layout (c :: constants) = c.slots ++ layout constants := List.flatMap_cons

theorem layout_length (constants : List Constant) :
    (layout constants).length = extent constants := by
  induction constants with
  | nil => rfl
  | cons c constants ih => rw [layout_cons, List.length_append, slots_length, ih, extent]

/-- A slot without a constant is the second one of a long or double, and nothing else is. -/
theorem layout_unusable (constants : List Constant) :
    (layout constants)[0]? ≠ some none ∧
    ∀ i, (layout constants)[i + 1]? = some none ↔
      ∃ c, (layout constants)[i]? = some (some c) ∧ c.isWide = true := by
  induction constants with
  | nil => simp [layout]
  | cons c constants ih =>
    obtain ⟨hfirst, hlater⟩ := ih
    rw [layout_cons, slots]
    cases hwide : c.isWide with
    | false =>
      refine ⟨by simp, fun i => ?_⟩
      cases i with
      | zero => simpa [hwide] using hfirst
      | succ i => simpa using hlater i
    | true =>
      refine ⟨by simp, fun i => ?_⟩
      match i with
      | 0 => simp [hwide]
      | 1 => simpa using hfirst
      | i + 2 => simpa using hlater i

/-- If all texts are UTF-8, the slots are written as the entries they have been read from. -/
theorem flatMap_layout {pieces : List Bytes} (h : List.Forall₂ WrittenAs constants pieces)
    (htext : ∀ raw, textEntry raw ∈ pieces → (Text.decode? raw).isSome) :
    (layout constants).flatMap encodeEntry = pieces.flatten := by
  induction h with
  | nil => rfl
  | @cons c entry constants pieces hentry _ ih =>
    have hsame : entry = c.encode :=
      hentry.eq_encode fun raw hraw => htext raw (hraw ▸ List.mem_cons_self)
    rw [layout_cons, List.flatMap_append, flatMap_slots, List.flatten_cons, hsame,
      ih fun raw hraw => htext raw (List.mem_cons_of_mem _ hraw)]

end layout

section entries
variable {left slot : Nat} {s after : Bytes} {result : Except FormatError Bytes}

/-- Reading an entry fills its slots, if there are as many left. -/
theorem readEntries_entry {c : Constant} {entry : Bytes} (h : c.WrittenAs entry) (left slot : Nat)
    (entries : Array (Option Constant)) (t : Bytes) :
    readEntries (c.width + left) slot entries (entry ++ t) =
      readEntries left (slot + c.width) (entries ++ c.slots.toArray) t := by
  cases hwide : c.isWide with
  | false =>
    have hwidth : c.width = 1 := by simp [width, hwide]
    rw [hwidth, Nat.add_comm, readEntries, readConstant_entry h]
    simp [hwide, slots]
  | true =>
    have hwidth : c.width = 2 := by simp [width, hwide]
    have hpush : (entries.push (some c)).push none = entries ++ [some c, none].toArray := by
      apply Array.ext'
      simp
    rw [hwidth, Nat.add_comm, readEntries, readConstant_entry h]
    simp only [hwide, slots, if_true, hpush]

theorem readEntries_pieces {constants : List Constant} {pieces : List Bytes}
    (h : List.Forall₂ WrittenAs constants pieces) (left slot : Nat)
    (entries : Array (Option Constant)) (t : Bytes) :
    readEntries (extent constants + left) slot entries (pieces.flatten ++ t) =
      readEntries left (slot + extent constants) (entries ++ (layout constants).toArray) t := by
  induction h generalizing slot entries with
  | nil => simp [extent, layout]
  | cons hentry _ ih =>
    rw [extent, layout_cons, List.flatten_cons, List.append_assoc, Nat.add_assoc,
      readEntries_entry hentry, ih, Nat.add_assoc, Array.append_assoc]
    simp only [List.append_toArray]

theorem readEntries_of_stops (h : Stops left slot after result)
    (entries : Array (Option Constant)) :
    readEntries left slot entries after = result.map fun rest => (entries, rest) := by
  cases h with
  | filled => rfl
  | truncated left slot after h =>
    rw [readEntries, h]
    rfl
  | unknown left slot tag rest h =>
    rw [readEntries, readConstant_unassigned h]
    rfl
  | overflow slot c entry rest h hwide =>
    rw [readEntries, readConstant_entry h]
    simp [hwide, Except.map]

/-- Whatever the bytes are, there are entries at their front up to where the section stops. -/
theorem exists_stops (left slot : Nat) (s : Bytes) :
    ∃ constants pieces left' after result, List.Forall₂ WrittenAs constants pieces ∧
      s = pieces.flatten ++ after ∧ left = extent constants + left' ∧
      Stops left' (slot + extent constants) after result := by
  induction left using Nat.strongRecOn generalizing slot s with
  | _ left ih =>
    obtain _ | left := left
    · exact ⟨[], [], 0, s, .ok s, .nil, rfl, rfl, .filled slot s⟩
    rcases readConstant_cases slot s with
      ⟨c, entry, rest, rfl, hentry, -⟩ | htruncated | ⟨tag, rest, rfl, htag, -⟩
    · by_cases hfits : c.width ≤ left + 1
      · obtain ⟨more, hmore⟩ := Nat.exists_eq_add_of_le hfits
        have hpos : 0 < c.width := by
          rw [width]
          split <;> decide
        obtain ⟨constants, pieces, left', after, result, hwritten, rfl, rfl, hstops⟩ :=
          ih more (by omega) (slot + c.width) rest
        refine ⟨c :: constants, entry :: pieces, left', after, result, .cons hentry hwritten, ?_, ?_,
          ?_⟩
        · rw [List.flatten_cons, List.append_assoc]
        · rw [hmore, extent, Nat.add_assoc]
        · rwa [extent, ← Nat.add_assoc]
      · have hwide : c.isWide = true ∧ left = 0 := by
          rw [width] at hfits
          split at hfits
          next hwide => exact ⟨hwide, by omega⟩
          next => omega
        obtain ⟨hwide, rfl⟩ := hwide
        exact ⟨[], [], 1, _, _, .nil, rfl, rfl, .overflow slot c entry rest hentry hwide⟩
    · exact ⟨[], [], left + 1, s, _, .nil, rfl, (Nat.zero_add _).symm,
        .truncated left slot s htruncated⟩
    · exact ⟨[], [], left + 1, _, _, .nil, rfl, (Nat.zero_add _).symm,
        .unknown left slot tag rest htag⟩

end entries

/-- The bytes begin with a section's count and with the entries of these constants. -/
structure Begins (bytes : Bytes) (count : Nat) (constants : List Constant) (pieces : List Bytes)
    (after : Bytes) : Prop where
  count_lt : count < 65536
  bytes_eq : bytes = octets 2 count ++ (pieces.flatten ++ after)
  written : List.Forall₂ WrittenAs constants pieces

section sections
variable {bytes after rest : Bytes} {count left : Nat} {slot : UInt16} {constants : List Constant}
  {pieces : List Bytes} {result : Except FormatError Bytes} {pool : ConstantPool} {tag : UInt8}

theorem Begins.read_eq (h : Begins bytes count constants pieces after)
    (hleft : count - 1 = extent constants + left)
    (hstops : Stops left (1 + extent constants) after result) :
    ConstantPool.read bytes =
      result.map fun rest => (⟨(layout constants).toArray⟩, rest) := by
  have hcount : (UInt16.ofNat count).toNat = count := UInt16.toNat_ofNat_of_lt' h.count_lt
  have hentries : readEntries (count - 1) 1 #[] (pieces.flatten ++ after) =
      result.map fun rest => ((layout constants).toArray, rest) := by
    rw [hleft, readEntries_pieces h.written, readEntries_of_stops hstops, Array.empty_append]
  rw [ConstantPool.read, h.bytes_eq, bind_ok (inFile_count16 _ h.count_lt), hcount]
  cases result with
  | error e => exact bind_error hentries
  | ok rest => exact bind_ok hentries

/-- A section that is not cut short is read up to where it stops. -/
theorem exists_begins {outcome : Except FormatError (ConstantPool × Bytes)}
    (h : ConstantPool.read bytes = outcome) (hne : outcome ≠ .error .truncated) :
    ∃ count constants pieces left after result, Begins bytes count constants pieces after ∧
      count - 1 = extent constants + left ∧ Stops left (1 + extent constants) after result ∧
      outcome = result.map fun rest => (⟨(layout constants).toArray⟩, rest) := by
  cases hcount : inFile Reader.u16 bytes with
  | error e =>
    rw [ConstantPool.read, bind_error hcount, failsOnly_orThrow _ _ _ _ hcount] at h
    exact absurd h.symm hne
  | ok out =>
    obtain ⟨count, s⟩ := out
    obtain ⟨constants, pieces, left, after, result, hwritten, rfl, hleft, hstops⟩ :=
      exists_stops (count.toNat - 1) 1 s
    have hbegins : Begins bytes count.toNat constants pieces after :=
      ⟨count.toNat_lt, of_inFile_u16 hcount, hwritten⟩
    exact ⟨count.toNat, constants, pieces, left, after, result, hbegins, hleft, hstops,
      h.symm.trans (hbegins.read_eq hleft hstops)⟩

theorem read_eq_ok_iff :
    ConstantPool.read bytes = .ok (pool, rest) ↔
      ∃ count constants pieces, Begins bytes count constants pieces rest ∧
        extent constants = count - 1 ∧ pool.entries.toList = layout constants := by
  constructor
  · intro h
    obtain ⟨count, constants, pieces, left, after, result, hbegins, hleft, hstops, hresult⟩ :=
      exists_begins h nofun
    cases hstops <;> cases hresult
    exact ⟨count, constants, pieces, hbegins, hleft.symm, rfl⟩
  · rintro ⟨count, constants, pieces, hbegins, hextent, hpool⟩
    have hstops : Stops 0 (1 + extent constants) rest (.ok rest) := .filled _ rest
    rw [hbegins.read_eq hextent.symm hstops, Except.map, ← hpool]

/-- The number of a slot that the count announces is not cut off. -/
theorem Begins.toNat_ofNat (h : Begins bytes count constants pieces after) {n : Nat}
    (hn : n < count) : (UInt16.ofNat n).toNat = n :=
  UInt16.toNat_ofNat_of_lt' (Nat.lt_trans hn h.count_lt)

/-- A tag that no constant has is reported with the slot it stands at. -/
theorem read_eq_unknownConstantTag_iff :
    ConstantPool.read bytes = .error (.unknownConstantTag tag slot) ↔
      ∃ count constants pieces after, Begins bytes count constants pieces (tag :: after) ∧
        Unassigned tag ∧ slot.toNat = 1 + extent constants ∧ slot.toNat < count := by
  constructor
  · intro h
    obtain ⟨count, constants, pieces, left, after, result, hbegins, hleft, hstops, hresult⟩ :=
      exists_begins h nofun
    cases hstops <;> cases hresult
    next left after htag =>
      have hlt : 1 + extent constants < count := by omega
      have hslot := hbegins.toNat_ofNat hlt
      exact ⟨count, constants, pieces, after, hbegins, htag, hslot, by omega⟩
  · rintro ⟨count, constants, pieces, after, hbegins, htag, hslot, hcount⟩
    rw [hslot] at hcount
    obtain ⟨left, rfl⟩ := Nat.exists_eq_add_of_lt hcount
    rw [hbegins.read_eq (by omega) (.unknown left _ tag after htag), ← hslot, UInt16.ofNat_toNat]
    rfl

/-- A long or double in the last slot is reported with that slot. -/
theorem read_eq_constantPoolOverflow_iff :
    ConstantPool.read bytes = .error (.constantPoolOverflow slot) ↔
      ∃ count constants pieces, ∃ c : Constant, ∃ entry after,
        Begins bytes count constants pieces (entry ++ after) ∧ c.WrittenAs entry ∧
        c.isWide = true ∧ slot.toNat = 1 + extent constants ∧ slot.toNat + 1 = count := by
  constructor
  · intro h
    obtain ⟨count, constants, pieces, left, after, result, hbegins, hleft, hstops, hresult⟩ :=
      exists_begins h nofun
    cases hstops <;> cases hresult
    next c entry after hentry hwide =>
      have hslot := hbegins.toNat_ofNat (by omega : 1 + extent constants < count)
      exact ⟨count, constants, pieces, c, entry, after, hbegins, hentry, hwide, hslot, by omega⟩
  · rintro ⟨count, constants, pieces, c, entry, after, hbegins, hentry, hwide, hslot, rfl⟩
    rw [hbegins.read_eq (by omega) (.overflow _ c entry after hentry hwide), ← hslot,
      UInt16.ofNat_toNat]
    rfl

end sections

section usable
variable {constants : List Constant} {pool : ConstantPool} {i : UInt16}

theorem toNat_succ (h : i.toNat + 1 < 65536) : (i + 1).toNat = i.toNat + 1 := by
  rw [UInt16.toNat_add]
  exact Nat.mod_eq_of_lt h

theorem slot?_of_toNat {k : Nat} (h : i.toNat = k + 1) : pool.slot? i = pool.entries[k]? := by
  rw [slot?, h]

theorem constant?_eq_some_iff {c : Constant} :
    pool.constant? i = some c ↔ pool.slot? i = some (some c) := by
  rw [constant?, Option.join_eq_some_iff]

theorem lt_size_of_slot? {entry : Option Constant} (h : pool.slot? i = some entry) :
    i.toNat < pool.size := by
  cases hnat : i.toNat with
  | zero => exact Nat.succ_pos _
  | succ k =>
    rw [slot?_of_toNat hnat] at h
    exact Nat.succ_lt_succ (Array.getElem?_eq_some_iff.mp h).1

variable (hpool : pool.entries.toList = layout constants)
include hpool

theorem slot?_of_layout {k : Nat} (h : i.toNat = k + 1) :
    pool.slot? i = (layout constants)[k]? := by
  rw [slot?_of_toNat h, ← hpool, Array.getElem?_toList]

theorem size_of_layout : pool.size = extent constants + 1 := by
  rw [size, ← Array.length_toList, hpool, layout_length]

/-- An unusable slot is the second one of a long or double. -/
theorem slot?_unusable_iff (hi : i.toNat + 1 < 65536) :
    pool.slot? (i + 1) = some none ↔ ∃ c, pool.constant? i = some c ∧ c.isWide = true := by
  have hnext := toNat_succ hi
  obtain ⟨hfirst, hlater⟩ := layout_unusable constants
  simp only [constant?_eq_some_iff, slot?_of_layout hpool hnext]
  cases hnat : i.toNat with
  | zero =>
    have hslot : pool.slot? i = some none := by rw [slot?, hnat]
    simp [hslot, hfirst]
  | succ k => rw [slot?_of_layout hpool hnat, hlater]

end usable

/-- A section that is accepted fills the slots its count announces; one that is rejected for an entry is
rejected with the slot where that entry begins. -/
theorem read_slots (bytes : Bytes) :
    (∀ pool rest, ConstantPool.read bytes = .ok (pool, rest) →
      ∃ count constants pieces, Begins bytes count constants pieces rest ∧
        pool.entries.toList = layout constants ∧ pool.size = max 1 count ∧
        pool.slot? 0 = some none ∧
        (∀ i : UInt16, i.toNat + 1 < pool.size →
          (pool.slot? (i + 1) = some none ↔ ∃ c, pool.constant? i = some c ∧ c.isWide = true)) ∧
        (∀ i c, pool.constant? i = some c → c.isWide = true → i.toNat + 1 < pool.size) ∧
        ((∀ raw, textEntry raw ∈ pieces → (Text.decode? raw).isSome) →
          bytes = octets 2 count ++ pool.entries.toList.flatMap encodeEntry ++ rest)) ∧
    (∀ tag slot, ConstantPool.read bytes = .error (.unknownConstantTag tag slot) ↔
      ∃ count constants pieces after, Begins bytes count constants pieces (tag :: after) ∧
        Unassigned tag ∧ slot.toNat = 1 + extent constants ∧ slot.toNat < count) ∧
    (∀ slot, ConstantPool.read bytes = .error (.constantPoolOverflow slot) ↔
      ∃ count constants pieces, ∃ c : Constant, ∃ entry after,
        Begins bytes count constants pieces (entry ++ after) ∧ c.WrittenAs entry ∧
        c.isWide = true ∧ slot.toNat = 1 + extent constants ∧ slot.toNat + 1 = count) := by
  refine ⟨?_, fun _ _ => read_eq_unknownConstantTag_iff, fun _ => read_eq_constantPoolOverflow_iff⟩
  intro pool rest h
  obtain ⟨count, constants, pieces, hbegins, hextent, hpool⟩ := read_eq_ok_iff.mp h
  have hsize := size_of_layout hpool
  have hcount := hbegins.count_lt
  refine ⟨count, constants, pieces, hbegins, hpool, by omega, rfl, ?_, ?_, ?_⟩
  · intro i hi
    exact slot?_unusable_iff hpool (by omega)
  · intro i c hc hwide
    have hi := lt_size_of_slot? (constant?_eq_some_iff.mp hc)
    have hlt : i.toNat + 1 < 65536 := by omega
    have hunusable := (slot?_unusable_iff hpool hlt).mpr ⟨c, hc, hwide⟩
    rw [← toNat_succ hlt]
    exact lt_size_of_slot? hunusable
  · intro htext
    rw [hpool, flatMap_layout hbegins.written htext, List.append_assoc]
    exact hbegins.bytes_eq

/-- Four slots: the long takes slots 1 and 2, the text slot 3. -/
theorem read_slots_long_text :
    let bytes : Bytes := [0, 4, 5, 0, 0, 0, 0, 0, 0, 0, 7, 1, 0, 1, 65, 9]
    let pool : ConstantPool := ⟨#[some (.long 7), none, some (.utf8 "A")]⟩
    ConstantPool.read bytes = .ok (pool, [9]) ∧
      ∃ count constants pieces, Begins bytes count constants pieces [9] ∧
        pool.entries.toList = layout constants ∧ pool.size = max 1 count := by
  have hread : ConstantPool.read [0, 4, 5, 0, 0, 0, 0, 0, 0, 0, 7, 1, 0, 1, 65, 9] =
      .ok (⟨#[some (.long 7), none, some (.utf8 "A")]⟩, [9]) := by decide
  obtain ⟨count, constants, pieces, hbegins, hpool, hsize, -⟩ := (read_slots _).1 _ _ hread
  exact ⟨hread, count, constants, pieces, hbegins, hpool, hsize⟩

/-- With one slot less, the long that follows the integer has only one slot. -/
example : ConstantPool.read [0, 3, 3, 0, 0, 0, 1, 5, 0, 0, 0, 0, 0, 0, 0, 7] =
    .error (.constantPoolOverflow 2) := by
  decide

end ConstantPool
end ClassVM
