import ClassVM.Proofs.Binary.BigEndian

namespace ClassVM.Binary

namespace Reader
variable {ε α : Type} {n : Nat} {value : Bytes → α} {r : Reader α} {s : Bytes}

/-- The reader takes `n` bytes, whatever they are. -/
def Fixed (n : Nat) (value : Bytes → α) (r : Reader α) : Prop :=
  ∀ s, r s = if n ≤ s.length then some (value (s.take n), s.drop n) else none

theorem u8_fixed : Fixed 1 (fun bs => .ofNat (bigEndian bs)) u8 := u8_eq

theorem u16_fixed : Fixed 2 (fun bs => .ofNat (bigEndian bs)) u16 := u16_eq

theorem u32_fixed : Fixed 4 (fun bs => .ofNat (bigEndian bs)) u32 := u32_eq

theorem u64_fixed : Fixed 8 (fun bs => .ofNat (bigEndian bs)) u64 := u64_eq

theorem bytes_fixed (n : Nat) : Fixed n id (bytes n) := bytes_eq n

theorem Fixed.orThrow_ok {e : ε} (hr : r.Fixed n value) (hs : n ≤ s.length) :
    r.orThrow e s = .ok (value (s.take n), s.drop n) := by
  simp [orThrow, hr s, hs]

theorem Fixed.orThrow_append {e : ε} (hr : r.Fixed n value) {bs : Bytes} (hbs : bs.length = n)
    (t : Bytes) : r.orThrow e (bs ++ t) = .ok (value bs, t) := by
  have hlong : n ≤ (bs ++ t).length := by
    rw [List.length_append]
    omega
  rw [hr.orThrow_ok hlong, List.take_left' hbs, List.drop_left' hbs]

theorem Fixed.orThrow_error {e : ε} (hr : r.Fixed n value) (hs : s.length < n) :
    r.orThrow e s = .error e := by
  simp [orThrow, hr s, Nat.not_le.mpr hs]

end Reader

namespace Parser

section sequence
variable {ε α β : Type} {p : Parser ε α} {f : α → Parser ε β} {s rest : Bytes}

theorem bind_ok {a : α} (h : p s = .ok (a, rest)) : (p >>= f) s = f a rest := by
  change (p s >>= fun out => f out.1 out.2) = _
  rw [h]
  rfl

theorem bind_error {e : ε} (h : p s = .error e) : (p >>= f) s = .error e := by
  change (p s >>= fun out => f out.1 out.2) = _
  rw [h]
  rfl

theorem bind_eq_ok {b : β} (h : (p >>= f) s = .ok (b, rest)) :
    ∃ a middle, p s = .ok (a, middle) ∧ f a middle = .ok (b, rest) := by
  cases hp : p s with
  | error e =>
    rw [bind_error hp] at h
    cases h
  | ok out =>
    rw [bind_ok hp] at h
    exact ⟨out.1, out.2, rfl, h⟩

theorem pure_apply (a : α) (s : Bytes) : (pure a : Parser ε α) s = .ok (a, s) := rfl

theorem manyOnto_eq (n : Nat) (read : List α) (s : Bytes) :
    manyOnto p n read s = (many n p s).map fun out => (read.reverse ++ out.1, out.2) := by
  induction n generalizing read s with
  | zero => simp [many, manyOnto, Except.map]
  | succ n ih =>
    rw [many, manyOnto, manyOnto]
    cases p s with
    | error e => rfl
    | ok out =>
      simp only [ih (out.1 :: read), ih [out.1]]
      cases many n p out.2 <;> simp [Except.map]

theorem many_succ (n : Nat) :
    many (n + 1) p = do
      let a ← p
      let as ← many n p
      return a :: as := by
  funext s
  rw [many, manyOnto]
  cases hp : p s with
  | error e => rw [bind_error hp]
  | ok out =>
    rw [bind_ok hp]
    simp only [manyOnto_eq n [out.1]]
    cases hmany : many n p out.2 with
    | error e => rw [bind_error hmany]; rfl
    | ok found => rw [bind_ok hmany]; rfl

/-- Items written one after another are read back one after another. -/
theorem many_flatMap {γ : Type} {write : γ → Bytes} {value : γ → α} {items : List γ}
    (h : ∀ x ∈ items, ∀ t, p (write x ++ t) = .ok (value x, t)) (t : Bytes) :
    many items.length p (items.flatMap write ++ t) = .ok (items.map value, t) := by
  induction items with
  | nil => rfl
  | cons x items ih =>
    have hx := h x List.mem_cons_self (items.flatMap write ++ t)
    have hitems := ih fun y hy => h y (List.mem_cons_of_mem x hy)
    rw [List.length_cons, many_succ, List.flatMap_cons, List.append_assoc, bind_ok hx,
      bind_ok hitems]
    rfl

theorem many_flatMap_self {write : α → Bytes} {items : List α}
    (h : ∀ x ∈ items, ∀ t, p (write x ++ t) = .ok (x, t)) (t : Bytes) :
    many items.length p (items.flatMap write ++ t) = .ok (items, t) := by
  have hread := many_flatMap h t
  rw [List.map_id'] at hread
  exact hread

end sequence

/-- The parser takes `used` and gives `a`, whatever follows; of a part of `used` it says that the
bytes have run out. -/
structure Takes {ε α : Type} (short : ε) (p : Parser ε α) (used : Bytes) (a : α) : Prop where
  whole : ∀ t, p (used ++ t) = .ok (a, t)
  cut : ∀ j < used.length, p (used.take j) = .error short

/-- The parser looks at no more than it takes, and an error other than `short` stays when there are
more bytes. -/
structure Streams {ε α : Type} (short : ε) (p : Parser ε α) : Prop where
  takes : ∀ s a rest, p s = .ok (a, rest) → ∃ used, s = used ++ rest ∧ Takes short p used a
  fails : ∀ s e, p s = .error e → e ≠ short → ∀ t, p (s ++ t) = .error e

section streams
variable {ε α β : Type} {short : ε}

theorem Takes.bind {p : Parser ε α} {f : α → Parser ε β} {used more : Bytes} {a : α} {b : β}
    (hp : Takes short p used a) (hf : Takes short (f a) more b) :
    Takes short (p >>= f) (used ++ more) b := by
  constructor
  · intro t
    rw [List.append_assoc, bind_ok (hp.whole _)]
    exact hf.whole t
  · intro j hj
    rw [List.length_append] at hj
    by_cases hin : j < used.length
    · rw [List.take_append_of_le_length (Nat.le_of_lt hin)]
      exact bind_error (hp.cut j hin)
    · have hle : used.length ≤ j := Nat.le_of_not_lt hin
      rw [List.take_append, List.take_of_length_le hle, bind_ok (hp.whole _)]
      apply hf.cut
      omega

theorem Streams.bind {p : Parser ε α} {f : α → Parser ε β} (hp : Streams short p)
    (hf : ∀ a, Streams short (f a)) : Streams short (p >>= f) := by
  constructor
  · intro s b rest h
    obtain ⟨a, middle, ha, hb⟩ := bind_eq_ok h
    obtain ⟨used, rfl, hused⟩ := hp.takes s a middle ha
    obtain ⟨more, rfl, hmore⟩ := (hf a).takes middle b rest hb
    exact ⟨used ++ more, (List.append_assoc ..).symm, hused.bind hmore⟩
  · intro s e h hne t
    cases hs : p s with
    | error cause =>
      rw [bind_error hs] at h
      cases h
      exact bind_error (hp.fails s e hs hne t)
    | ok out =>
      rw [bind_ok hs] at h
      obtain ⟨used, hused, htakes⟩ := hp.takes s out.1 out.2 hs
      rw [hused, List.append_assoc, bind_ok (htakes.whole _)]
      exact (hf out.1).fails out.2 e h hne t

theorem streams_pure (a : α) : Streams short (pure a : Parser ε α) := by
  constructor
  · intro s b rest h
    rw [pure_apply] at h
    cases h
    exact ⟨[], rfl, fun t => rfl, fun j hj => absurd hj (Nat.not_lt_zero j)⟩
  · intro s e h
    cases h

theorem streams_throw (e : ε) : Streams short (throw e : Parser ε α) := by
  constructor
  · intro s a rest h
    cases h
  · intro s cause h hne t
    cases h
    rfl

theorem streams_lift (r : Except ε α) : Streams short (liftM r : Parser ε α) := by
  cases r with
  | error e => exact streams_throw e
  | ok a => exact streams_pure a

theorem Streams.many {p : Parser ε α} (hp : Streams short p) (n : Nat) :
    Streams short (Parser.many n p) := by
  induction n with
  | zero => exact streams_pure []
  | succ n ih =>
    rw [many_succ]
    exact hp.bind fun a => ih.bind fun as => streams_pure (a :: as)

theorem streams_fixed {r : Reader α} {n : Nat} {value : Bytes → α} (hr : r.Fixed n value) :
    Streams short (r.orThrow short) := by
  constructor
  · intro s a rest h
    have hn : n ≤ s.length := by
      apply Nat.le_of_not_lt
      intro hlt
      rw [hr.orThrow_error hlt] at h
      cases h
    rw [hr.orThrow_ok hn] at h
    cases h
    have hlength : (s.take n).length = n := List.length_take_of_le hn
    refine ⟨s.take n, (List.take_append_drop n s).symm, ?_, ?_⟩
    · intro t
      exact hr.orThrow_append hlength t
    · intro j hj
      apply hr.orThrow_error
      rw [List.length_take]
      omega
  · intro s e h hne t
    by_cases hn : n ≤ s.length
    · rw [hr.orThrow_ok hn] at h
      cases h
    · rw [hr.orThrow_error (Nat.lt_of_not_le hn)] at h
      cases h
      exact absurd rfl hne

end streams

/-- The parser gives back at least `k` bytes less than it got. -/
def Spends {ε α : Type} (k : Nat) (p : Parser ε α) : Prop :=
  ∀ s a rest, p s = .ok (a, rest) → rest.length + k ≤ s.length

/-- Two parsers do the same on fewer than `n` bytes. -/
def Agree {ε α : Type} (n : Nat) (p q : Parser ε α) : Prop := ∀ s, s.length < n → p s = q s

section agree
variable {ε α β : Type} {n k : Nat}

theorem Streams.spends {short : ε} {p : Parser ε α} (hp : Streams short p) : Spends 0 p := by
  intro s a rest h
  obtain ⟨used, rfl, -⟩ := hp.takes s a rest h
  rw [List.length_append]
  omega

theorem spends_fixed {e : ε} {r : Reader α} {value : Bytes → α} (hr : r.Fixed k value) :
    Spends k (r.orThrow e) := by
  intro s a rest h
  by_cases hk : k ≤ s.length
  · rw [hr.orThrow_ok hk] at h
    cases h
    rw [List.length_drop]
    omega
  · rw [hr.orThrow_error (Nat.lt_of_not_le hk)] at h
    cases h

theorem spends_pure (a : α) : Spends 0 (pure a : Parser ε α) := by
  intro s b rest h
  rw [pure_apply] at h
  cases h
  exact Nat.le_refl _

theorem Spends.bind {p : Parser ε α} {f : α → Parser ε β} {m : Nat} (hp : Spends k p)
    (hf : ∀ a, Spends m (f a)) : Spends (m + k) (p >>= f) := by
  intro s b rest h
  obtain ⟨a, middle, ha, hb⟩ := bind_eq_ok h
  have hfirst := hp s a middle ha
  have hsecond := hf a middle b rest hb
  omega

theorem Agree.refl (n : Nat) (p : Parser ε α) : Agree n p p := fun _ _ => rfl

/-- What the first parser spends, the others need not agree on. -/
theorem Agree.bind {p q : Parser ε α} {f g : α → Parser ε β} (hp : Spends k p)
    (hpq : Agree (n + k) p q) (hfg : ∀ a, Agree n (f a) (g a)) :
    Agree (n + k) (p >>= f) (q >>= g) := by
  intro s hs
  have hq := hpq s hs
  cases h : p s with
  | error e => rw [bind_error h, bind_error (hq ▸ h)]
  | ok out =>
    have hspent := hp s out.1 out.2 h
    rw [bind_ok h, bind_ok (hq ▸ h)]
    apply hfg
    omega

theorem Agree.after {p : Parser ε α} {f g : α → Parser ε β} (hp : Spends k p)
    (hfg : ∀ a, Agree n (f a) (g a)) : Agree (n + k) (p >>= f) (p >>= g) :=
  Agree.bind hp (Agree.refl _ p) hfg

theorem Agree.before {p q : Parser ε α} (h : Agree n p q) (f : α → Parser ε β) :
    Agree n (p >>= f) (q >>= f) := by
  intro s hs
  change (p s >>= fun out => f out.1 out.2) = (q s >>= fun out => f out.1 out.2)
  rw [h s hs]

theorem Agree.many {p q : Parser ε α} (hp : Spends 0 p) (h : Agree n p q) (count : Nat) :
    Agree n (Parser.many count p) (Parser.many count q) := by
  induction count with
  | zero => exact Agree.refl n _
  | succ count ih =>
    rw [many_succ, many_succ]
    apply Agree.bind hp h
    intro a
    exact ih.before _

end agree
end Parser
end ClassVM.Binary
