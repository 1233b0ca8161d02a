import ClassVM.Code.LoadedClass
import ClassVM.Proofs.Machine.Effect
import Mathlib.Data.List.Forall2

namespace ClassVM

/-- The operations do the same in their methods: branches on one condition name the same position, or
both name none, and other operations are equal. -/
inductive Op.Corresponds (m n : Method) : Op → Op → Prop where
  | same {op : Op} (hop : op.target? = none) : Corresponds m n op op
  | branchIf (condition : Condition) {target other : Nat}
    (h : m.indexOf? target = n.indexOf? other) :
    Corresponds m n (.branchIf condition target) (.branchIf condition other)
  | branchCompare (condition : Condition) {target other : Nat}
    (h : m.indexOf? target = n.indexOf? other) :
    Corresponds m n (.branchCompare condition target) (.branchCompare condition other)
  | jump {target other : Nat} (h : m.indexOf? target = n.indexOf? other) :
    Corresponds m n (.jump target) (.jump other)

/-- The methods differ at most in how their code is laid out, and in what does not matter to a run. -/
structure Method.Corresponds (m n : Method) : Prop where
  name : m.name = n.name
  descriptor : m.descriptor = n.descriptor
  maxLocals : m.maxLocals = n.maxLocals
  body : m.body.isSome = n.body.isSome
  size : m.instructions.size = n.instructions.size
  ops : ∀ (position : Nat) (i j : Instruction), m.instructions[position]? = some i →
    n.instructions[position]? = some j → i.op.Corresponds m n j.op

structure LoadedClass.Corresponds (c d : LoadedClass) : Prop where
  name : c.name = d.name
  pool : c.pool = d.pool
  methods : List.Forall₂ Method.Corresponds c.methods d.methods

theorem Op.Corresponds.refl (m : Method) (op : Op) : op.Corresponds m m op := by
  cases op with
  | branchIf condition => exact .branchIf condition rfl
  | branchCompare condition => exact .branchCompare condition rfl
  | jump => exact .jump rfl
  | _ => exact .same rfl

namespace Method.Corresponds
variable {m n : Method}

theorem refl (m : Method) : m.Corresponds m where
  name := rfl
  descriptor := rfl
  maxLocals := rfl
  body := rfl
  size := rfl
  ops position i j hi hj := by
    obtain rfl : i = j := Option.some.inj (hi.symm.trans hj)
    exact .refl m i.op

/-- The descriptor says how many parameters there are. -/
theorem parameterCount (h : m.Corresponds n) : m.parameterCount = n.parameterCount := by
  have hm := m.signature_eq
  rw [h.descriptor, n.signature_eq] at hm
  rw [Method.parameterCount, Method.parameterCount, Except.ok.inj hm]

theorem bodies (h : m.Corresponds n) :
    (m.body = none ∧ n.body = none) ∨ ∃ body body', m.body = some body ∧ n.body = some body' := by
  have hbody := h.body
  cases hm : m.body <;> cases hn : n.body <;> simp [hm, hn] at hbody ⊢

/-- At every position both methods have an instruction, or neither has. -/
theorem instruction (h : m.Corresponds n) (position : Nat) :
    Option.Rel (fun i j => i.op.Corresponds m n j.op) m.instructions[position]?
      n.instructions[position]? := by
  by_cases hlt : position < m.instructions.size
  · have hi := Array.getElem?_eq_getElem hlt
    have hj := Array.getElem?_eq_getElem (h.size ▸ hlt)
    rw [hi, hj]
    exact .some (h.ops position _ _ hi hj)
  · rw [Array.getElem?_eq_none (Nat.le_of_not_lt hlt),
      Array.getElem?_eq_none (h.size ▸ Nat.le_of_not_lt hlt)]
    exact .none

end Method.Corresponds

section lists
variable {α β : Type} {R : α → β → Prop}

theorem rel_cases {a : Option α} {b : Option β} (h : Option.Rel R a b) :
    (a = none ∧ b = none) ∨ ∃ x y, a = some x ∧ b = some y ∧ R x y := by
  cases h with
  | none => exact .inl ⟨rfl, rfl⟩
  | some hxy => exact .inr ⟨_, _, rfl, rfl, hxy⟩

theorem find?_rel {xs : List α} {ys : List β} (h : List.Forall₂ R xs ys) {p : α → Bool}
    {q : β → Bool} (hp : ∀ a b, R a b → p a = q b) : Option.Rel R (xs.find? p) (ys.find? q) := by
  induction h with
  | nil => exact .none
  | @cons a b xs ys hab hrest ih =>
    rw [List.find?_cons, List.find?_cons, hp a b hab]
    cases q b with
    | true => exact .some hab
    | false => exact ih

theorem lookup_rel {xs : List (String × α)} {ys : List (String × β)}
    (h : List.Forall₂ (fun p q => p.1 = q.1 ∧ R p.2 q.2) xs ys) (key : String) :
    Option.Rel R (xs.lookup key) (ys.lookup key) := by
  induction h with
  | nil => exact .none
  | @cons p q xs ys hpq hrest ih =>
    obtain ⟨name, a⟩ := p
    obtain ⟨other, b⟩ := q
    obtain ⟨rfl, hab⟩ : name = other ∧ R a b := hpq
    rw [List.lookup_cons, List.lookup_cons]
    cases key == name with
    | true => exact .some hab
    | false => exact ih

end lists

namespace LoadedClass.Corresponds
variable {c d : LoadedClass}

theorem method? (h : c.Corresponds d) (name : String) :
    Option.Rel Method.Corresponds (c.method? name) (d.method? name) :=
  find?_rel h.methods fun m n hmn => by rw [hmn.name]

theorem findMethod? (h : c.Corresponds d) (name descriptor : String) :
    Option.Rel Method.Corresponds (c.findMethod? name descriptor) (d.findMethod? name descriptor) :=
  find?_rel h.methods fun m n hmn => by rw [hmn.name, hmn.descriptor]

end LoadedClass.Corresponds
end ClassVM
