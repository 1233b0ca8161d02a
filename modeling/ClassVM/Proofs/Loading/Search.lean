import ClassVM.Loading.Loader

namespace ClassVM

/-- The event tells how the search for a class file went. -/
def Event.isSearch : Event → Bool
  | .found .. | .notIn .. => true
  | _ => false

namespace Loader
variable {files files' : FileSystem} {name entry : String}

theorem search_passes {reason : Option String}
    (h : files.readFile (classFilePath entry name) = .error reason) (entries : List String) :
    search files name (entry :: entries) =
      ⟨passed name entry reason ++ (search files name entries).events,
        (search files name entries).answer⟩ := by
  rw [search, h]

theorem search_stops {bytes : Bytes} (h : files.readFile (classFilePath entry name) = .ok bytes)
    (entries : List String) :
    search files name (entry :: entries) =
      ⟨[.found name entry], (defineClass bytes).map some⟩ := by
  rw [search, h]

/-- What files hold matters only in the directories that are searched. -/
theorem search_congr {entries : List String}
    (h : ∀ entry ∈ entries,
      files.readFile (classFilePath entry name) = files'.readFile (classFilePath entry name)) :
    search files name entries = search files' name entries := by
  induction entries with
  | nil => rfl
  | cons entry entries ih =>
    obtain ⟨hentry, hentries⟩ := List.forall_mem_cons.mp h
    simp only [search, hentry, ih hentries]

theorem mem_passed {reason : Option String} {e : Event} :
    e ∈ passed name entry reason ↔ ∃ text, reason = some text ∧ e = .notIn name entry text := by
  cases reason <;> simp [passed]

theorem search_events (files : FileSystem) (name : String) (entries : List String) :
    ∀ e ∈ (search files name entries).events, e.isSearch = true := by
  induction entries with
  | nil => simp [search]
  | cons entry entries ih =>
    cases h : files.readFile (classFilePath entry name) with
    | error reason =>
      rw [search_passes h]
      refine List.forall_mem_append.mpr ⟨?_, ih⟩
      intro e he
      obtain ⟨text, -, rfl⟩ := mem_passed.mp he
      rfl
    | ok bytes =>
      rw [search_stops h]
      exact List.forall_mem_singleton.mpr rfl

end Loader
end ClassVM
