import ClassVM.Proofs.Assembly.Reading

namespace ClassVM
open Binary

namespace Item

def assemble (xs : List Item) : Bytes := xs.flatMap encode

/-- The items follow one another from `pc` on, each well-formed at its offset. -/
def WellLaid : Nat → List Item → Prop
  | _, [] => True
  | pc, x :: xs => x.WellFormed pc ∧ WellLaid (pc + x.encode.length) xs

/-- All branches lead into the `size` bytes of the code. -/
def TargetsWithin (size : Nat) : Nat → List Item → Prop
  | _, [] => True
  | pc, x :: xs =>
    (∀ t, x.target? pc = some t → 0 ≤ t ∧ t < size) ∧ TargetsWithin size (pc + x.encode.length) xs

instance decidableWellLaid : (pc : Nat) → (xs : List Item) → Decidable (WellLaid pc xs)
  | _, [] => inferInstanceAs (Decidable True)
  | pc, x :: xs =>
    have := decidableWellLaid (pc + x.encode.length) xs
    inferInstanceAs (Decidable (_ ∧ _))

instance decidableTargetsWithin (size : Nat) :
    (pc : Nat) → (xs : List Item) → Decidable (TargetsWithin size pc xs)
  | _, [] => inferInstanceAs (Decidable True)
  | pc, x :: xs =>
    have := decidableTargetsWithin size (pc + x.encode.length) xs
    have : Decidable (∀ t, x.target? pc = some t → 0 ≤ t ∧ t < size) :=
      inferInstanceAs (Decidable (∀ t ∈ x.target? pc, _))
    inferInstanceAs (Decidable (_ ∧ _))

def listing : Nat → List Item → List Instruction
  | _, [] => []
  | pc, x :: xs => x.instruction pc :: listing (pc + x.encode.length) xs

theorem assemble_append (xs ys : List Item) : assemble (xs ++ ys) = assemble xs ++ assemble ys :=
  List.flatMap_append

theorem WellLaid.append {pc : Nat} {xs ys : List Item} (hx : WellLaid pc xs)
    (hy : WellLaid (pc + (assemble xs).length) ys) : WellLaid pc (xs ++ ys) := by
  induction xs generalizing pc with
  | nil => exact hy
  | cons x xs ih =>
    refine ⟨hx.1, ih hx.2 ?_⟩
    rwa [Nat.add_assoc, ← List.length_append]

theorem TargetsWithin.append {size pc : Nat} {xs ys : List Item} (hx : TargetsWithin size pc xs)
    (hy : TargetsWithin size (pc + (assemble xs).length) ys) :
    TargetsWithin size pc (xs ++ ys) := by
  induction xs generalizing pc with
  | nil => exact hy
  | cons x xs ih =>
    refine ⟨hx.1, ih hx.2 ?_⟩
    rwa [Nat.add_assoc, ← List.length_append]

theorem listing_append (pc : Nat) (xs ys : List Item) :
    listing pc (xs ++ ys) = listing pc xs ++ listing (pc + (assemble xs).length) ys := by
  induction xs generalizing pc with
  | nil => rfl
  | cons x xs ih =>
    rw [List.cons_append, listing, ih, listing, List.cons_append, Nat.add_assoc,
      ← List.length_append]
    rfl

theorem assemble_inj {pc : Nat} {xs ys : List Item} (hx : WellLaid pc xs) (hy : WellLaid pc ys)
    (h : assemble xs = assemble ys) : xs = ys := by
  induction xs generalizing pc ys with
  | nil =>
    cases ys with
    | nil => rfl
    | cons y ys => exact absurd (congrArg List.length h) (by simp [assemble, encode])
  | cons x xs ih =>
    cases ys with
    | nil => exact absurd (congrArg List.length h) (by simp [assemble, encode])
    | cons y ys =>
      obtain ⟨rfl, hrest⟩ := encode_inj hx.1 hy.1 h
      rw [ih hx.2 hy.2 hrest]

end Item

namespace Code
open Item

theorem checked_eq_ok {size pc : Nat} {x : Item}
    (ht : ∀ t, x.target? pc = some t → 0 ≤ t ∧ t < size) :
    checked size pc x = .ok (x.instruction pc, x.rest.length) := by
  unfold checked
  cases h : x.target? pc with
  | none => rfl
  | some t => exact if_pos (ht t h)

theorem of_checked {size pc : Nat} {x : Item} {out : Instruction × Nat}
    (h : checked size pc x = .ok out) :
    out = (x.instruction pc, x.rest.length) ∧ ∀ t, x.target? pc = some t → 0 ≤ t ∧ t < size := by
  unfold checked at h
  split at h
  case h_1 hnone =>
    refine ⟨(Except.ok.inj h).symm, ?_⟩
    intro t ht
    rw [hnone] at ht
    cases ht
  case h_2 t hsome =>
    split at h
    case isTrue hin =>
      refine ⟨(Except.ok.inj h).symm, ?_⟩
      intro u hu
      rw [hsome] at hu
      exact Option.some.inj hu ▸ hin
    case isFalse => cases h

/-- The operand bytes of an instruction are passed over. -/
theorem decodeFrom_append (size pc : Nat) (s r : Bytes) (found : List Instruction) :
    decodeFrom size pc s.length (s ++ r) found = decodeFrom size (pc + s.length) 0 r found := by
  induction s generalizing pc with
  | nil => rfl
  | cons b s ih =>
    rw [List.length_cons, List.cons_append, decodeFrom, ih, Nat.add_assoc, Nat.add_comm 1]

theorem decodeFrom_item {size pc : Nat} {x : Item} (hx : x.WellFormed pc)
    (ht : ∀ t, x.target? pc = some t → 0 ≤ t ∧ t < size) (r : Bytes) (found : List Instruction) :
    decodeFrom size pc 0 (x.encode ++ r) found =
      decodeFrom size (pc + x.encode.length) 0 r (x.instruction pc :: found) := by
  rw [encode, List.cons_append, decodeFrom, instruction_of_item hx, checked_eq_ok ht]
  change decodeFrom size (pc + 1) x.rest.length (x.rest ++ r) _ = _
  rw [decodeFrom_append, List.length_cons, Nat.add_assoc, Nat.add_comm 1]

/-- Items at the front of the bytes are read one after another. -/
theorem decodeFrom_front {size pc : Nat} {xs : List Item} (hx : WellLaid pc xs)
    (ht : TargetsWithin size pc xs) (r : Bytes) (found : List Instruction) :
    decodeFrom size pc 0 (assemble xs ++ r) found =
      decodeFrom size (pc + (assemble xs).length) 0 r ((listing pc xs).reverse ++ found) := by
  induction xs generalizing pc found with
  | nil => rfl
  | cons x xs ih =>
    rw [assemble, List.flatMap_cons, ← assemble, List.append_assoc, decodeFrom_item hx.1 ht.1,
      ih hx.2 ht.2, listing, List.reverse_cons, List.append_assoc, List.singleton_append,
      List.length_append, Nat.add_assoc]

theorem decodeFrom_assemble {size pc : Nat} {xs : List Item} (hx : WellLaid pc xs)
    (ht : TargetsWithin size pc xs) (found : List Instruction) :
    decodeFrom size pc 0 (assemble xs) found = .ok (found.reverse ++ listing pc xs) := by
  rw [← List.append_nil (assemble xs), decodeFrom_front hx ht, decodeFrom, List.reverse_append,
    List.reverse_reverse]

/-- Any bytes are items, up to the end or to where no item can be read. -/
theorem exists_front (size pc : Nat) (bytes : Bytes) :
    ∃ xs rest, WellLaid pc xs ∧ TargetsWithin size pc xs ∧ assemble xs ++ rest = bytes ∧
      (rest = [] ∨ ∃ byte more e, rest = byte :: more ∧
        instruction size (pc + (assemble xs).length) byte more = .error e) := by
  -- Each item takes at least one byte, so what is left gets shorter.
  induction hn : bytes.length using Nat.strongRecOn generalizing pc bytes with
  | ind n ih =>
    cases bytes with
    | nil => exact ⟨[], [], trivial, trivial, rfl, .inl rfl⟩
    | cons byte rest =>
      cases hi : instruction size pc byte rest with
      | error e => exact ⟨[], byte :: rest, trivial, trivial, rfl, .inr ⟨byte, rest, e, rfl, hi⟩⟩
      | ok out =>
        obtain ⟨x, r, hx, hbytes⟩ := item_of_instruction hi
        obtain ⟨rfl, hrest⟩ : byte = x.lead ∧ rest = x.rest ++ r := List.cons.inj hbytes
        subst hrest
        rw [instruction_of_item hx] at hi
        obtain ⟨-, ht⟩ := of_checked hi
        have hshort : r.length < n := by
          rw [← hn, List.length_cons, List.length_append]
          omega
        obtain ⟨xs, back, hxs, hts, rfl, hend⟩ := ih r.length hshort (pc + x.encode.length) r rfl
        refine ⟨x :: xs, back, ⟨hx, hxs⟩, ⟨ht, hts⟩, ?_, ?_⟩
        · rw [hbytes, assemble, List.flatMap_cons, ← assemble, List.append_assoc]
        · rwa [assemble, List.flatMap_cons, ← assemble, List.length_append, ← Nat.add_assoc]

theorem exists_items {size pc : Nat} {bytes : Bytes} {found is : List Instruction}
    (h : decodeFrom size pc 0 bytes found = .ok is) :
    ∃ xs, WellLaid pc xs ∧ TargetsWithin size pc xs ∧ assemble xs = bytes := by
  obtain ⟨xs, rest, hx, ht, rfl, rfl | ⟨byte, more, e, rfl, he⟩⟩ := exists_front size pc bytes
  · exact ⟨xs, hx, ht, (List.append_nil _).symm⟩
  · rw [decodeFrom_front hx ht, decodeFrom, he] at h
    cases h

theorem decode_assemble {xs : List Item} (hx : WellLaid 0 xs)
    (ht : TargetsWithin (assemble xs).length 0 xs) : decode (assemble xs) = .ok (listing 0 xs) := by
  rw [decode, decodeFrom_assemble hx ht]
  rfl

theorem items_of_decode {code : Bytes} {is : List Instruction} (h : decode code = .ok is) :
    ∃ xs, WellLaid 0 xs ∧ TargetsWithin code.length 0 xs ∧ assemble xs = code ∧
      listing 0 xs = is := by
  obtain ⟨xs, hx, ht, rfl⟩ := exists_items h
  rw [decode_assemble hx ht] at h
  exact ⟨xs, hx, ht, rfl, Except.ok.inj h⟩

/-- Decoding inverts assembling: it gives the instructions of the items that the code is laid out by, and
there is one list of such items at most. -/
theorem decode_eq_ok_iff (code : Bytes) (is : List Instruction) :
    (decode code = .ok is ↔ ∃ xs, WellLaid 0 xs ∧ TargetsWithin code.length 0 xs ∧
      assemble xs = code ∧ listing 0 xs = is) ∧
    ∀ xs ys, WellLaid 0 xs → WellLaid 0 ys → assemble xs = code → assemble ys = code → xs = ys := by
  refine ⟨⟨items_of_decode, ?_⟩, ?_⟩
  · rintro ⟨xs, hx, ht, rfl, rfl⟩
    exact decode_assemble hx ht
  · intro xs ys hx hy hxs hys
    exact assemble_inj hx hy (hxs.trans hys.symm)

end Code
end ClassVM
