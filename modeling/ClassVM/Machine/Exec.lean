import ClassVM.Fault.RunError

namespace ClassVM

/-- An effect on a state of type `σ` that gives an `α` or fails. What it has done before it fails stays. -/
abbrev Exec (σ α : Type) := ExceptT RunError (StateM σ) α

namespace Exec

/-- An answer that does not touch the state. -/
def ofExcept {σ α : Type} (r : Except RunError α) : Exec σ α := fun s => (r, s)

theorem pure_apply {σ α : Type} (a : α) (s : σ) : (pure a : Exec σ α) s = (.ok a, s) := rfl

theorem throw_apply {σ α : Type} (e : RunError) (s : σ) :
    (throw e : Exec σ α) s = (.error e, s) := rfl

theorem bind_apply {σ α β : Type} (x : Exec σ α) (f : α → Exec σ β) (s : σ) :
    (x >>= f) s =
      match x s with
      | (.ok a, s) => f a s
      | (.error e, s) => (.error e, s) := by
  rcases h : x s with ⟨_ | a, s⟩ <;>
    simp only [bind, ExceptT.bind, ExceptT.mk, StateT.bind, ExceptT.bindCont, h]
  rfl

end Exec
end ClassVM
