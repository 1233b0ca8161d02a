import ClassVM.Proofs.ClassFile.Shrinking

namespace ClassVM
open Binary Parser Reader

/-- The greatest measure of an item, or 0 if there is none. -/
def deepest {α : Type} (w : α → Nat) : List α → Nat
  | [] => 0
  | a :: as => max (w a) (deepest w as)

section deepest
variable {α : Type} {w : α → Nat}

theorem deepest_append (as bs : List α) :
    deepest w (as ++ bs) = max (deepest w as) (deepest w bs) := by
  induction as with
  | nil => simp [deepest]
  | cons a as ih => rw [List.cons_append, deepest, deepest, ih, Nat.max_assoc]

theorem deepest_reverse (as : List α) : deepest w as.reverse = deepest w as := by
  induction as with
  | nil => rfl
  | cons a as ih =>
    rw [List.reverse_cons, deepest_append, ih, deepest, deepest, deepest, Nat.max_zero, Nat.max_comm]

theorem le_deepest {a : α} {as : List α} (h : a ∈ as) : w a ≤ deepest w as := by
  induction as with
  | nil => cases h
  | cons b as ih =>
    rw [deepest]
    rcases List.mem_cons.mp h with rfl | h
    · exact Nat.le_max_left _ _
    · exact Nat.le_trans (ih h) (Nat.le_max_right _ _)

theorem deepest_le {as : List α} {n : Nat} (h : ∀ a ∈ as, w a ≤ n) : deepest w as ≤ n := by
  induction as with
  | nil => exact Nat.zero_le n
  | cons a as ih =>
    obtain ⟨ha, has⟩ := List.forall_mem_cons.mp h
    exact Nat.max_le.mpr ⟨ha, ih has⟩

end deepest

-- As for the forms of attributes, recursion through a list needs a function for lists of its own.
mutual

/-- How many descents are nested in each other, this one included. -/
def Descent.nesting : Descent → Nat
  | into _ inner => Descent.nestingAll inner + 1

def Descent.nestingAll : List Descent → Nat
  | [] => 0
  | d :: ds => max d.nesting (Descent.nestingAll ds)

end

theorem Descent.nestingAll_eq (ds : List Descent) : nestingAll ds = deepest nesting ds := by
  induction ds with
  | nil => rfl
  | cons d ds ih => rw [nestingAll, deepest, ih]

theorem Descent.Shrinks.nesting_le {size : Nat} {d : Descent} (h : d.Shrinks size) :
    d.nesting ≤ size / ClassFile.nestingCost := by
  induction h with
  | @into size info inner hinfo _ ih =>
    have hinner : nestingAll inner ≤ info.length / ClassFile.nestingCost := by
      rw [nestingAll_eq]
      exact deepest_le ih
    rw [nesting]
    rw [ClassFile.nestingCost] at hinfo hinner ⊢
    omega

namespace Recorder
variable {α β : Type}

/-- As long as the descents of `x` are nested `depth` deep at most, `y` does what `x` does. -/
def Settles (depth : Nat) (x y : Recorder α) : Prop :=
  ∀ s, (∀ d ∈ (x s).2, d.nesting ≤ depth) → y s = x s

section settles
variable {depth : Nat} {x y : Recorder α}

theorem Settles.refl (depth : Nat) (x : Recorder α) : Settles depth x x := fun _ _ => rfl

theorem Settles.bind {f g : α → Recorder β} (hx : Settles depth x y)
    (hf : ∀ a, Settles depth (f a) (g a)) : Settles depth (x >>= f) (y >>= g) := by
  intro s hs
  have hy := hx s
  rcases h : x s with ⟨_ | ⟨a, rest⟩, begun⟩
  · rw [bind_error h] at hs ⊢
    rw [h] at hy
    rw [bind_error (hy hs)]
  · rw [bind_ok h] at hs ⊢
    rw [h] at hy
    obtain ⟨hbegun, hrest⟩ := List.forall_mem_append.mp hs
    rw [bind_ok (hy hbegun), hf a rest hrest]

theorem Settles.before (h : Settles depth x y) (f : α → Recorder β) :
    Settles depth (x >>= f) (y >>= f) := h.bind fun a => Settles.refl depth (f a)

theorem Settles.after {f g : α → Recorder β} (p : FileParser α) (h : ∀ a, Settles depth (f a) (g a)) :
    Settles depth (flat p >>= f) (flat p >>= g) := (Settles.refl depth (flat p)).bind h

theorem Settles.many (h : Settles depth x y) (n : Nat) : Settles depth (many x n) (many y n) := by
  induction n with
  | zero => exact Settles.refl depth _
  | succ n ih =>
    apply h.bind
    intro a
    exact ih.before _

theorem Settles.inside (h : Settles depth x y) (info : Bytes) :
    Settles depth (inside info x) (inside info y) := by
  intro s hs
  rw [Recorder.inside, Recorder.inside, h info hs]

theorem Settles.descend (h : Settles depth x y) (info : Bytes) :
    Settles (depth + 1) (descend info x) (descend info y) := by
  intro s hs
  have hall : Descent.nestingAll (x s).2 ≤ depth :=
    Nat.le_of_succ_le_succ (hs (.into info (x s).2) List.mem_cons_self)
  rw [Descent.nestingAll_eq] at hall
  have hinner : ∀ d ∈ (x s).2, d.nesting ≤ depth := fun d hd => Nat.le_trans (le_deepest hd) hall
  rw [Recorder.descend, Recorder.descend, h s hinner]

/-- To descend at all is one level. -/
theorem settles_descend_zero (info : Bytes) (x y : Recorder α) :
    Settles 0 (descend info x) (descend info y) := by
  intro s hs
  exact absurd (hs (.into info (x s).2) List.mem_cons_self) (Nat.not_succ_le_zero _)

end settles
end Recorder

open Recorder

section levels
variable {depth : Nat} {x y : Recorder AttributeTable}

theorem Attribute.settles_recordInfo (h : ∀ info, Settles depth (descend info x) (descend info y))
    (name : String) (info : Bytes) :
    Settles depth (recordInfo x name info) (recordInfo y name info) := by
  unfold recordInfo
  split
  · apply Settles.inside
    apply Settles.after
    intro start
    exact (h info).before _
  · next hname =>
    have hsame : ofInfo x.outcome name info = ofInfo y.outcome name info := by
      unfold ofInfo
      rw [if_neg hname, if_neg hname]
    rw [hsame]
    exact Settles.refl depth _

variable (pool : ConstantPool)

theorem Attribute.settles_record (h : ∀ info, Settles depth (descend info x) (descend info y)) :
    Settles depth (record pool x) (record pool y) := by
  apply Settles.after
  intro found
  exact (settles_recordInfo h found.1 found.2).before _

theorem AttributeTable.settles_recordWith
    (h : ∀ info, Settles depth (descend info x) (descend info y)) :
    Settles depth (recordWith pool x) (recordWith pool y) := by
  apply Settles.after
  intro count
  exact ((Attribute.settles_record pool h).many count.toNat).before _

/-- What is done below the levels does not matter where nothing is nested deeper. -/
theorem AttributeTable.settles_record (x y : Recorder AttributeTable) (depth : Nat) :
    Settles depth (record pool x depth) (record pool y depth) := by
  induction depth with
  | zero => exact settles_recordWith pool fun info => settles_descend_zero info x y
  | succ depth ih =>
    rw [record_succ, record_succ]
    exact settles_recordWith pool ih.descend

end levels

namespace ClassFile

theorem settles_recordMembers {depth : Nat} {x y : Recorder AttributeTable} (h : Settles depth x y) :
    Settles depth (recordMembers x) (recordMembers y) := by
  have hmember : Settles depth (recordMember x) (recordMember y) := by
    apply Settles.after
    intro start
    exact h.before _
  apply Settles.after
  intro count
  exact hmember.many count.toNat

theorem settles_record {depth : Nat} {x y : ConstantPool → Recorder AttributeTable}
    (h : ∀ pool, Settles depth (x pool) (y pool)) : Settles depth (record x) (record y) := by
  apply Settles.after
  intro start
  apply (settles_recordMembers (h start.pool)).bind
  intro fields
  apply (settles_recordMembers (h start.pool)).bind
  intro methods
  exact (h start.pool).before _

theorem parseRecorded_succ (innermost : ConstantPool → Recorder AttributeTable) (depth : Nat)
    (bytes : Bytes) :
    parseRecorded innermost (depth + 1) bytes =
      parseRecorded (fun pool => AttributeTable.recordWith pool (innermost pool)) depth bytes := by
  simp only [parseRecorded, AttributeTable.record_succ_innermost]

/-- No descent asks for more levels than there are bytes for. -/
theorem parseRecorded_settled {bytes : Bytes} {depth : Nat} (h : bytes.length / nestingCost ≤ depth)
    (innermost : ConstantPool → Recorder AttributeTable) :
    parseRecorded innermost depth bytes =
      parseRecorded (fun _ => AttributeTable.refused) (bytes.length / nestingCost) bytes := by
  induction h generalizing innermost with
  | refl =>
    have hsettles := settles_record fun pool =>
      AttributeTable.settles_record pool AttributeTable.refused (innermost pool)
        (bytes.length / nestingCost)
    have hshrinks := shrinks_of_parseRecorded (bytes.length / nestingCost) bytes
    have hrecord := hsettles bytes fun d hd => (hshrinks d hd).nesting_le
    exact congrArg (fun out => (out.1.map Prod.fst, out.2)) hrecord
  | step _ ih =>
    rw [parseRecorded_succ]
    exact ih _

end ClassFile
end ClassVM
