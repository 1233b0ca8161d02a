import ClassVM.Binary.Reader

namespace ClassVM.Binary

/-- The weight of a byte that `k` others follow. -/
def place : Nat → Nat
  | 0 => 1
  | k + 1 => place k * 256

theorem place_pos (k : Nat) : 0 < place k := by
  induction k with
  | zero => exact Nat.one_pos
  | succ k ih => exact Nat.mul_pos ih (by decide)

/-- The number that bytes stand for. -/
def bigEndian : Bytes → Nat
  | [] => 0
  | b :: bs => b.toNat * place bs.length + bigEndian bs

/-- The number that bytes stand for in two's complement. -/
def signed (bs : Bytes) : Int := (bigEndian bs : Int).bmod (place bs.length)

/-- The `k` bytes of a number below `place k`. -/
def octets : Nat → Nat → Bytes
  | 0, _ => []
  | k + 1, n => .ofNat (n / place k) :: octets k (n % place k)

theorem octets_length (k n : Nat) : (octets k n).length = k := by
  induction k generalizing n with
  | zero => rfl
  | succ k ih => simp [octets, ih]

theorem bigEndian_lt (bs : Bytes) : bigEndian bs < place bs.length := by
  induction bs with
  | nil => exact place_pos 0
  | cons b bs ih =>
    have hb : b.toNat + 1 ≤ 256 := b.toNat_lt
    have hm := Nat.mul_le_mul_right (place bs.length) hb
    rw [Nat.add_mul] at hm
    simp only [bigEndian, List.length_cons, place]
    omega

theorem bigEndian_octets (k n : Nat) (h : n < place k) : bigEndian (octets k n) = n := by
  induction k generalizing n with
  | zero =>
    rw [place] at h
    simp only [octets, bigEndian]
    omega
  | succ k ih =>
    have hpos : 0 < place k := place_pos _
    have hq : n / place k < 256 := by
      rw [Nat.div_lt_iff_lt_mul hpos, Nat.mul_comm, ← place]
      exact h
    have hb : (UInt8.ofNat (n / place k)).toNat = n / place k := UInt8.toNat_ofNat_of_lt' hq
    rw [octets, bigEndian, octets_length, ih _ (Nat.mod_lt _ hpos), hb, Nat.mul_comm]
    exact Nat.div_add_mod n (place k)

theorem octets_bigEndian (bs : Bytes) : octets bs.length (bigEndian bs) = bs := by
  induction bs with
  | nil => rfl
  | cons b bs ih =>
    have hlt := bigEndian_lt bs
    have hpos : 0 < place bs.length := place_pos _
    have hq : (b.toNat * place bs.length + bigEndian bs) / place bs.length = b.toNat := by
      rw [Nat.mul_comm, Nat.mul_add_div hpos, Nat.div_eq_of_lt hlt, Nat.add_zero]
    have hr : (b.toNat * place bs.length + bigEndian bs) % place bs.length = bigEndian bs := by
      rw [Nat.mul_comm, Nat.mul_add_mod, Nat.mod_eq_of_lt hlt]
    rw [List.length_cons, octets, bigEndian, hq, hr, ih, UInt8.ofNat_toNat]

theorem place_add (j k : Nat) : place (j + k) = place j * place k := by
  induction k with
  | zero => simp [place]
  | succ k ih => rw [← Nat.add_assoc, place, place, ih, Nat.mul_assoc]

theorem bigEndian_append (as bs : Bytes) :
    bigEndian (as ++ bs) = bigEndian as * place bs.length + bigEndian bs := by
  induction as with
  | nil => simp [bigEndian]
  | cons a as ih =>
    rw [List.cons_append, bigEndian, ih, bigEndian, List.length_append, place_add, Nat.add_mul,
      Nat.mul_assoc, Nat.add_assoc]

theorem bigEndian_take_lt {k : Nat} {bs : Bytes} (h : k ≤ bs.length) :
    bigEndian (bs.take k) < place k := by
  have hlt := bigEndian_lt (bs.take k)
  rw [List.length_take_of_le h] at hlt
  exact hlt

theorem octets_bigEndian_take {k : Nat} {bs : Bytes} (h : k ≤ bs.length) :
    octets k (bigEndian (bs.take k)) = bs.take k := by
  have hback := octets_bigEndian (bs.take k)
  rw [List.length_take_of_le h] at hback
  exact hback

theorem octets_inj {k m n : Nat} (hm : m < place k) (hn : n < place k)
    (h : octets k m = octets k n) : m = n := by
  rw [← bigEndian_octets k m hm, ← bigEndian_octets k n hn, h]

theorem u16_lt_place (n : UInt16) : n.toNat < place 2 := n.toNat_lt

theorem u32_lt_place (n : UInt32) : n.toNat < place 4 := n.toNat_lt

theorem toInt8_toInt {bs : Bytes} (h : bs.length = 1) :
    (UInt8.ofNat (bigEndian bs)).toInt8.toInt = signed bs := by
  have hsize : place bs.length = Int8.size := congrArg place h
  rw [UInt8.toInt8_ofNat', Int8.toInt_ofNat', signed, hsize]

theorem toInt16_toInt {bs : Bytes} (h : bs.length = 2) :
    (UInt16.ofNat (bigEndian bs)).toInt16.toInt = signed bs := by
  have hsize : place bs.length = Int16.size := congrArg place h
  rw [UInt16.toInt16_ofNat', Int16.toInt_ofNat', signed, hsize]

theorem toInt32_toInt {bs : Bytes} (h : bs.length = 4) :
    (UInt32.ofNat (bigEndian bs)).toInt32.toInt = signed bs := by
  have hsize : place bs.length = Int32.size := congrArg place h
  rw [UInt32.toInt32_ofNat', Int32.toInt_ofNat', signed, hsize]

theorem toInt8_toInt32 {bs : Bytes} (h : bs.length = 1) :
    (UInt8.ofNat (bigEndian bs)).toInt8.toInt32 = .ofInt (signed bs) := by
  rw [← Int32.ofInt_int8ToInt, toInt8_toInt h]

theorem toInt16_toInt32 {bs : Bytes} (h : bs.length = 2) :
    (UInt16.ofNat (bigEndian bs)).toInt16.toInt32 = .ofInt (signed bs) := by
  rw [← Int32.ofInt_int16ToInt, toInt16_toInt h]

theorem toUInt16_ofNat {bs : Bytes} (h : bs.length = 1) :
    (UInt8.ofNat (bigEndian bs)).toUInt16 = .ofNat (bigEndian bs) := by
  have hlt := bigEndian_lt bs
  rw [h] at hlt
  change bigEndian bs < 256 at hlt
  have hwide : bigEndian bs < UInt16.size := Nat.lt_trans hlt (by decide)
  apply UInt16.toNat_inj.mp
  rw [UInt8.toNat_toUInt16, UInt8.toNat_ofNat_of_lt' hlt, UInt16.toNat_ofNat_of_lt' hwide]

namespace Reader

theorem u8_eq (s : Bytes) :
    u8 s = if 1 ≤ s.length then some (.ofNat (bigEndian (s.take 1)), s.drop 1) else none := by
  match s with
  | [] => rfl
  | b :: rest => simp [u8, bigEndian, place]

theorem u16_eq (s : Bytes) :
    u16 s = if 2 ≤ s.length then some (.ofNat (bigEndian (s.take 2)), s.drop 2) else none := by
  match s with
  | [] | [_] => rfl
  | a :: b :: rest => simp [u16, bigEndian, place]

theorem u32_eq (s : Bytes) :
    u32 s = if 4 ≤ s.length then some (.ofNat (bigEndian (s.take 4)), s.drop 4) else none := by
  match s with
  | [] | [_] | [_, _] | [_, _, _] => rfl
  | a :: b :: c :: d :: rest =>
    have hsum : ((a.toNat * 256 + b.toNat) * 256 + c.toNat) * 256 + d.toNat =
        bigEndian [a, b, c, d] := by
      simp [bigEndian, place]
      omega
    simp [u32, hsum]

theorem u64_eq (s : Bytes) :
    u64 s = if 8 ≤ s.length then some (.ofNat (bigEndian (s.take 8)), s.drop 8) else none := by
  have hu64 : u64 s = (u32 s).bind fun hi => (u32 hi.2).bind fun lo =>
      some (.ofNat (hi.1.toNat * 4294967296 + lo.1.toNat), lo.2) := rfl
  rw [hu64, u32_eq]
  by_cases h4 : 4 ≤ s.length
  · rw [if_pos h4, Option.bind_some, u32_eq, List.length_drop]
    by_cases h8 : 8 ≤ s.length
    · have hlow : 4 ≤ (s.drop 4).length := by
        rw [List.length_drop]
        omega
      have hhi := bigEndian_take_lt h4
      have hlo := bigEndian_take_lt hlow
      have hsplit : s.take 8 = s.take 4 ++ (s.drop 4).take 4 :=
        List.take_add (i := 4) (j := 4)
      have hsum : bigEndian (s.take 8) =
          bigEndian (s.take 4) * 4294967296 + bigEndian ((s.drop 4).take 4) := by
        rw [hsplit, bigEndian_append, List.length_take_of_le hlow]
        rfl
      rw [if_pos h8, if_pos (by omega), Option.bind_some, hsum, UInt32.toNat_ofNat_of_lt' hhi,
        UInt32.toNat_ofNat_of_lt' hlo, List.drop_drop]
    · rw [if_neg h8, if_neg (by omega), Option.bind_none]
  · rw [if_neg h4, if_neg (by omega), Option.bind_none]

theorem bytes_eq (n : Nat) (s : Bytes) :
    bytes n s = if n ≤ s.length then some (s.take n, s.drop n) else none := by
  simp [bytes, splitOff_eq]

end Reader
end ClassVM.Binary
