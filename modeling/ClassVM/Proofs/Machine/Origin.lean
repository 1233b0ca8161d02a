import ClassVM.Proofs.Loading.Store
import ClassVM.Proofs.Machine.Step

namespace ClassVM

/-- The class is an answer of the loader to some request. -/
def Loader.Gives (loader : Loader) (c : LoadedClass) : Prop :=
  ∃ request name, (loader.find request name).answer = .ok (some c)

namespace Machine

variable {loader : Loader}

theorem store_of_step (loader : Loader) (m : Machine) :
    (m.step loader).2.store = m.store ∨
      ∃ name, (m.step loader).2.store = (m.store.load loader name).store := by
  have htouched := touched_of_step loader m
  generalize m.step loader = out at htouched ⊢
  cases htouched with
  | halted | frames | console => exact .inl rfl
  | store name => exact .inr ⟨name, rfl⟩

/-- All classes of the machine have come from the loader. -/
structure ServedBy (loader : Loader) (m : Machine) : Prop where
  store : m.store.From loader
  owners : ∀ f ∈ m.calls.frames, loader.Gives f.owner

theorem ServedBy.step {m m' : Machine} (h : m.ServedBy loader)
    (hstep : m.step loader = (some (.ok ()), m')) : m'.ServedBy loader := by
  have hstore : m'.store.From loader := by
    have hafter := store_of_step loader m
    rw [hstep] at hafter
    rcases hafter with hsame | ⟨name, hload⟩
    · rw [hsame]
      exact h.store
    · rw [hload]
      exact h.store.load name
  refine ⟨hstore, ?_⟩
  cases hf : m.calls.frames with
  | nil =>
    have hhalted : m.fetch? = none := by simp [fetch?_eq_none_iff, hf]
    rw [step_halted hhalted] at hstep
    cases hstep
  | cons f below =>
    have howners := h.owners
    rw [hf] at howners
    obtain ⟨hfirst, hbelow⟩ := List.forall_mem_cons.mp howners
    obtain ⟨i, hi, hframes⟩ := frameStep_of_step hf hstep
    generalize m'.calls.frames = frames at hframes
    cases hframes with
    | stay w cursor hop => exact List.forall_mem_cons.mpr ⟨hfirst, hbelow⟩
    | call index ref owner method hop href hload hmethod hbody hn =>
      obtain ⟨request, hanswer⟩ := h.store.answer_of_load hload
      exact List.forall_mem_cons.mpr
        ⟨⟨request, _, hanswer⟩, List.forall_mem_cons.mpr ⟨hfirst, hbelow⟩⟩
    | returnVoid hop => exact hbelow
    | returnValue v rest hop hstack => exact forall_resume (fun _ _ h => h) hbelow (some v)

theorem servedBy_of_boot {m m' : Machine} (hstore : m.store.From loader)
    (hboot : boot loader m = (.ok (), m')) : m'.ServedBy loader := by
  obtain ⟨owner, method, hload, -, -, rfl⟩ := of_boot_ok hboot
  refine ⟨hstore.load m.mainClass, ?_⟩
  intro f hf
  cases List.mem_singleton.mp hf
  obtain ⟨request, hanswer⟩ := hstore.answer_of_load hload
  exact ⟨request, _, hanswer⟩

end Machine
end ClassVM
