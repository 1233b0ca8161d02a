import ClassVM.Loading.ClassStore

namespace ClassVM

theorem mem_of_lookup {α β : Type} [BEq α] [LawfulBEq α] {entries : List (α × β)} {key : α}
    {value : β} (h : entries.lookup key = some value) : (key, value) ∈ entries := by
  obtain ⟨before, after, rfl, -⟩ := List.lookup_eq_some_iff.mp h
  exact List.mem_append_right before List.mem_cons_self

theorem Loader.mem_of_answer {classes : List (String × LoadedClass)} {request : Nat} {name : String}
    {c : LoadedClass} (h : ((ofClasses classes).find request name).answer = .ok (some c)) :
    (name, c) ∈ classes :=
  mem_of_lookup (Except.ok.inj h)

namespace ClassStore

/-- The outcomes of loading the class whose internal name is `internal`. -/
inductive Loads (loader : Loader) (internal : String) (store : ClassStore) : Loading → Prop where
  | known (found : LoadedClass) (hknown : store.loaded.lookup internal = some found) :
    Loads loader internal store ⟨.ok found, store, [.alreadyLoaded internal]⟩
  | malformed (cause : FormatError) (events : List Event)
    (hnew : store.loaded.lookup internal = none)
    (hanswer : (loader.find store.requests internal).answer = .error cause) :
    Loads loader internal store
      ⟨.error (.malformed cause), { store with requests := store.requests + 1 }, events⟩
  | missing (events : List Event) (hnew : store.loaded.lookup internal = none)
    (hanswer : (loader.find store.requests internal).answer = .ok none) :
    Loads loader internal store
      ⟨.error (.classNotFound internal), { store with requests := store.requests + 1 }, events⟩
  | added (found : LoadedClass) (events : List Event)
    (hnew : store.loaded.lookup internal = none)
    (hanswer : (loader.find store.requests internal).answer = .ok (some found)) :
    Loads loader internal store
      ⟨.ok found, ⟨store.loaded ++ [(internal, found)], store.requests + 1⟩, events⟩

theorem load_loads (loader : Loader) (name : String) (store : ClassStore) :
    Loads loader (ClassName.internal name) store (store.load loader name) := by
  unfold load
  simp only
  split
  case h_1 found hknown => exact .known found hknown
  case h_2 hnew =>
    split
    case h_1 cause hanswer => exact .malformed cause _ hnew hanswer
    case h_2 hanswer => exact .missing _ hnew hanswer
    case h_3 found hanswer => exact .added found _ hnew hanswer

/-- Loaders that now say the same of a class do the same to a store, and so do all loaders if the class
is loaded. -/
theorem load_congr {loader other : Loader} {store : ClassStore} {name : String}
    (h : store.find? name = none → loader.find store.requests (ClassName.internal name) =
      other.find store.requests (ClassName.internal name)) :
    store.load loader name = store.load other name := by
  cases hknown : store.loaded.lookup (ClassName.internal name) with
  | some found => simp only [load, hknown]
  | none => simp only [load, hknown, h hknown]

/-- A load adds the class that it gives, if this is a new one, and changes nothing else. -/
theorem loaded_of_load (loader : Loader) (name : String) (store : ClassStore) :
    (store.load loader name).store.loaded = store.loaded ∨
      ∃ c, (store.load loader name).result = .ok c ∧ store.find? name = none ∧
        (store.load loader name).store.loaded =
          store.loaded ++ [(ClassName.internal name, c)] := by
  have hload := store.load_loads loader name
  generalize store.load loader name = loading at hload ⊢
  cases hload with
  | known | malformed | missing => exact .inl rfl
  | added found events hnew hanswer => exact .inr ⟨found, rfl, hnew, rfl⟩

/-- All loaded classes have come from the loader, whichever request it was. -/
def From (loader : Loader) (store : ClassStore) : Prop :=
  ∀ name c, (name, c) ∈ store.loaded → ∃ request, (loader.find request name).answer = .ok (some c)

theorem from_empty (loader : Loader) : From loader .empty := by
  intro name c h
  cases h

variable {loader : Loader} {store : ClassStore}

theorem From.load (h : store.From loader) (name : String) :
    (store.load loader name).store.From loader := by
  have hload := store.load_loads loader name
  generalize store.load loader name = loading at hload ⊢
  cases hload with
  | known | malformed | missing => exact h
  | added found events hnew hanswer =>
    intro other c hc
    rcases List.mem_append.mp hc with hc | hc
    · exact h other c hc
    · cases List.mem_singleton.mp hc
      exact ⟨_, hanswer⟩

theorem From.answer_of_find? (h : store.From loader) {name : String} {c : LoadedClass}
    (hc : store.find? name = some c) :
    ∃ request, (loader.find request (ClassName.internal name)).answer = .ok (some c) :=
  h _ c (mem_of_lookup hc)

theorem From.answer_of_load (h : store.From loader) {name : String} {c : LoadedClass}
    (hc : (store.load loader name).result = .ok c) :
    ∃ request, (loader.find request (ClassName.internal name)).answer = .ok (some c) := by
  have hload := store.load_loads loader name
  generalize store.load loader name = loading at hload hc
  cases hload with
  | known found hknown =>
    cases hc
    exact h.answer_of_find? hknown
  | malformed | missing => cases hc
  | added found events hnew hanswer =>
    cases hc
    exact ⟨_, hanswer⟩

theorem load_known {name : String} {c : LoadedClass} (h : store.find? name = some c)
    (loader : Loader) :
    store.load loader name = ⟨.ok c, store, [.alreadyLoaded (ClassName.internal name)]⟩ := by
  have hlookup : store.loaded.lookup (ClassName.internal name) = some c := h
  simp only [load, hlookup]

theorem load_new {name : String} {c : LoadedClass} (hnew : store.find? name = none)
    (hanswer : (loader.find store.requests (ClassName.internal name)).answer = .ok (some c)) :
    (store.load loader name).result = .ok c := by
  have hlookup : store.loaded.lookup (ClassName.internal name) = none := hnew
  simp only [load, hlookup, hanswer]

theorem load_missing {name : String} (hnew : store.find? name = none)
    (hanswer : (loader.find store.requests (ClassName.internal name)).answer = .ok none) :
    (store.load loader name).result = .error (.classNotFound (ClassName.internal name)) := by
  have hlookup : store.loaded.lookup (ClassName.internal name) = none := hnew
  simp only [load, hlookup, hanswer]

/-- A class that the loader has at every request can be loaded. -/
theorem load_ok (store : ClassStore) {name : String} (hfind : ∀ request, ∃ c,
    (loader.find request (ClassName.internal name)).answer = .ok (some c)) :
    ∃ c, (store.load loader name).result = .ok c := by
  obtain ⟨c, hc⟩ := hfind store.requests
  have hload := store.load_loads loader name
  generalize store.load loader name = loading at hload ⊢
  cases hload with
  | known found | added found => exact ⟨found, rfl⟩
  | malformed cause events hnew hanswer =>
    rw [hanswer] at hc
    cases hc
  | missing events hnew hanswer =>
    rw [hanswer] at hc
    cases hc

/-- A class that has been loaded stays what it is, whatever else is loaded. -/
theorem find?_load {name : String} {c : LoadedClass} (h : store.find? name = some c)
    (other : String) : (store.load loader other).store.find? name = some c := by
  have hload := store.load_loads loader other
  generalize store.load loader other = loading at hload ⊢
  cases hload with
  | known | malformed | missing => exact h
  | added found events hnew hanswer =>
    have hlookup : store.loaded.lookup (ClassName.internal name) = some c := h
    simp only [find?, List.lookup_append, hlookup, Option.some_or]

theorem find?_of_load {name : String} {c : LoadedClass}
    (h : (store.load loader name).result = .ok c) :
    (store.load loader name).store.find? name = some c := by
  have hload := store.load_loads loader name
  generalize store.load loader name = loading at hload h ⊢
  cases hload with
  | known found hknown =>
    cases h
    exact hknown
  | malformed | missing => cases h
  | added found events hnew hanswer =>
    cases h
    simp [find?, List.lookup_append, hnew]

/-- Loading a class adds no other to those that can be found. -/
theorem find?_after_load {name other : String} {c : LoadedClass}
    (h : (store.load loader name).store.find? other = some c) :
    store.find? other = some c ∨
      ClassName.internal other = ClassName.internal name ∧
        (store.load loader name).result = .ok c := by
  have hload := store.load_loads loader name
  generalize store.load loader name = loading at hload h ⊢
  cases hload with
  | known | malformed | missing => exact .inl h
  | added found events hnew hanswer =>
    rw [find?, List.lookup_append] at h
    rcases Option.or_eq_some_iff.mp h with hold | ⟨-, hlast⟩
    · exact .inl hold
    · right
      rw [List.lookup_cons] at hlast
      split at hlast
      next hname =>
        cases hlast
        exact ⟨by simpa using hname, rfl⟩
      next => cases hlast

end ClassStore
end ClassVM
