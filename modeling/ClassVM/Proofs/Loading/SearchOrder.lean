import ClassVM.Proofs.Loading.Paths
import ClassVM.Proofs.Loading.Search
import ClassVM.Proofs.Programs.Pair

namespace ClassVM

def Event.isFound : Event → Bool
  | .found .. => true
  | _ => false

namespace Loader
variable {files : FileSystem} {name entry : String}

/-- The file for the class in this directory can be read, whatever it holds. -/
def readable (files : FileSystem) (name entry : String) : Bool :=
  (files.readFile (classFilePath entry name)).isOk

theorem readable_eq_false_iff : readable files name entry = false ↔
    ∃ reason, files.readFile (classFilePath entry name) = .error reason := by
  rw [readable]
  cases files.readFile (classFilePath entry name) <;> simp [Except.isOk, Except.toBool]

theorem readable_eq_true_iff : readable files name entry = true ↔
    ∃ bytes, files.readFile (classFilePath entry name) = .ok bytes := by
  rw [readable]
  cases files.readFile (classFilePath entry name) <;> simp [Except.isOk, Except.toBool]

theorem search_append (files : FileSystem) (name : String) (p q : List String) :
    search files name (p ++ q) =
      match (search files name p).answer with
      | .ok none => ⟨(search files name p).events ++ (search files name q).events,
          (search files name q).answer⟩
      | .ok (some _) | .error _ => search files name p := by
  induction p with
  | nil => rfl
  | cons entry p ih =>
    cases h : files.readFile (classFilePath entry name) with
    | error reason =>
      rw [List.cons_append, search_passes h, search_passes h, ih]
      rcases hp : (search files name p).answer with e | _ | c <;> simp only [hp, List.append_assoc]
    | ok bytes =>
      rw [List.cons_append, search_stops h, search_stops h]
      cases defineClass bytes <;> rfl

/-- A malformed file is no missing one. -/
theorem search_eq_none_iff {entries : List String} :
    (search files name entries).answer = .ok none ↔
      ∀ entry ∈ entries, readable files name entry = false := by
  induction entries with
  | nil => simp [search]
  | cons entry entries ih =>
    rw [List.forall_mem_cons]
    cases h : files.readFile (classFilePath entry name) with
    | error reason =>
      rw [search_passes h, ih, and_iff_right (readable_eq_false_iff.mpr ⟨reason, h⟩)]
    | ok bytes =>
      rw [search_stops h, readable_eq_true_iff.mpr ⟨bytes, h⟩]
      cases defineClass bytes <;> simp [Except.map]

/-- Directories without a readable file change neither the answer nor where it comes from. -/
theorem search_filter_readable (files : FileSystem) (name : String) (entries : List String) :
    let held := search files name (entries.filter (readable files name))
    held.answer = (search files name entries).answer ∧
      held.events = (search files name entries).events.filter Event.isFound := by
  induction entries with
  | nil => exact ⟨rfl, rfl⟩
  | cons entry entries ih =>
    cases h : files.readFile (classFilePath entry name) with
    | error reason =>
      have hunread : readable files name entry = false := readable_eq_false_iff.mpr ⟨reason, h⟩
      have hsilent : (passed name entry reason).filter Event.isFound = [] := by
        cases reason <;> rfl
      rw [List.filter_cons_of_neg (by simp [hunread]), search_passes h, List.filter_append, hsilent]
      exact ih
    | ok bytes =>
      have hread : readable files name entry = true := readable_eq_true_iff.mpr ⟨bytes, h⟩
      rw [List.filter_cons_of_pos hread, search_stops h, search_stops h]
      exact ⟨rfl, rfl⟩

/-- The first directory with a readable file decides, whatever comes behind it. -/
theorem search_first {before : List String} {bytes : Bytes}
    (hbefore : ∀ earlier ∈ before, readable files name earlier = false)
    (h : files.readFile (classFilePath entry name) = .ok bytes) (after : List String) :
    search files name (before ++ entry :: after) =
      ⟨(search files name before).events ++ [.found name entry], (defineClass bytes).map some⟩ := by
  rw [search_append, search_eq_none_iff.mpr hbefore]
  simp only [search_stops h]

/-- The search goes on exactly while no file can be read; the first readable file decides, and neither
later directories nor ones without a readable file change the answer. -/
theorem search_order (files : FileSystem) (name : String) (request : Nat) :
    let find := fun entries => (ofClassPath files ⟨entries⟩).find request name
    let file := fun entry => files.readFile (classFilePath entry name)
    (∀ p q, find (p ++ q) =
      match (find p).answer with
      | .ok none => ⟨(find p).events ++ (find q).events, (find q).answer⟩
      | .ok (some _) | .error _ => find p) ∧
    (∀ p, (find p).answer = .ok none ↔ ∀ entry ∈ p, readable files name entry = false) ∧
    (∀ before entry after bytes, (∀ earlier ∈ before, readable files name earlier = false) →
      file entry = .ok bytes →
      find (before ++ entry :: after) =
        ⟨(find before).events ++ [.found name entry], (defineClass bytes).map some⟩ ∧
      ∀ (files' : FileSystem) (after' : List String),
        (∀ earlier ∈ before ++ [entry],
          files'.readFile (classFilePath earlier name) = file earlier) →
        (ofClassPath files' ⟨before ++ entry :: after'⟩).find request name =
          find (before ++ entry :: after)) ∧
    ∀ p q, p.filter (readable files name) = q.filter (readable files name) →
      (find p).answer = (find q).answer ∧
      (find p).events.filter Event.isFound = (find q).events.filter Event.isFound := by
  intro find file
  refine ⟨search_append files name, fun p => search_eq_none_iff, ?_, ?_⟩
  · intro before entry after bytes hbefore hentry
    have hfirst := search_first hbefore hentry after
    refine ⟨hfirst, ?_⟩
    intro files' after' hsame
    obtain ⟨hsameBefore, hsameEntry⟩ := List.forall_mem_append.mp hsame
    have hearlier := search_congr hsameBefore
    have hbefore' : ∀ earlier ∈ before, readable files' name earlier = false := by
      rw [← search_eq_none_iff, hearlier]
      exact search_eq_none_iff.mpr hbefore
    have hentry' : files'.readFile (classFilePath entry name) = .ok bytes :=
      (hsameEntry entry List.mem_cons_self).trans hentry
    have hfirst' := search_first hbefore' hentry' after'
    rw [hearlier] at hfirst'
    exact hfirst'.trans hfirst.symm
  · intro p q hsame
    obtain ⟨hanswer, hevents⟩ := search_filter_readable files name p
    obtain ⟨hanswer', hevents'⟩ := search_filter_readable files name q
    rw [hsame] at hanswer hevents
    exact ⟨hanswer.symm.trans hanswer', hevents.symm.trans hevents'⟩

/-- A directory without files, one with a malformed file for the class `A`, and one that holds these. -/
def malformedBefore (good : List (String × FileTree)) : FileSystem :=
  (FileTree.directory [("none", .empty),
    ("bad", .directory [("A.class", .file [0xde, 0xad, 0xbe, 0xef])]),
    ("good", .directory good)]).toFileSystem []

/-- The malformed file is reported, whether or not there is a good one behind it. -/
theorem search_order_malformed :
    let stored := malformedBefore [("A.class", .file Pair.sourceA.toForm.encode)]
    let emptied := malformedBefore []
    let file := fun files entry => FileSystem.readFile files (classFilePath entry "A")
    let find := fun files entries => (ofClassPath files ⟨entries⟩).find 0 "A"
    (∀ earlier ∈ ["none"], readable stored "A" earlier = false) ∧
    file stored "bad" = .ok [0xde, 0xad, 0xbe, 0xef] ∧
    (∀ earlier ∈ ["none"] ++ ["bad"], file emptied earlier = file stored earlier) ∧
    (find stored ["good"]).answer.isOk = true ∧
    find stored ["none", "bad", "good"] = ⟨[.found "A" "bad"], .error (.badMagic 0xdeadbeef)⟩ ∧
    find emptied ["none", "bad", "good"] = find stored ["none", "bad", "good"] ∧
    ["none", "bad", "none", "good"].filter (readable stored "A") =
      ["bad", "good"].filter (readable stored "A") ∧
    (find stored ["none", "bad", "none", "good"]).answer = (find stored ["bad", "good"]).answer := by
  intro stored emptied file find
  have hmissing : file stored "none" = .error none :=
    FileTree.readFile_eq_error_iff.mpr (by decide +kernel)
  have hmissing' : file emptied "none" = .error none :=
    FileTree.readFile_eq_error_iff.mpr (by decide +kernel)
  have hbad : file stored "bad" = .ok [0xde, 0xad, 0xbe, 0xef] :=
    FileTree.readFile_eq_ok_iff.mpr (by decide +kernel)
  have hbad' : file emptied "bad" = .ok [0xde, 0xad, 0xbe, 0xef] :=
    FileTree.readFile_eq_ok_iff.mpr (by decide +kernel)
  have hnone : ∀ earlier ∈ ["none"], readable stored "A" earlier = false :=
    List.forall_mem_singleton.mpr (readable_eq_false_iff.mpr ⟨none, hmissing⟩)
  have hsame : ∀ earlier ∈ ["none"] ++ ["bad"], file emptied earlier = file stored earlier :=
    List.forall_mem_cons.mpr
      ⟨hmissing'.trans hmissing.symm, List.forall_mem_singleton.mpr (hbad'.trans hbad.symm)⟩
  have hfilter : ["none", "bad", "none", "good"].filter (readable stored "A") =
      ["bad", "good"].filter (readable stored "A") := by decide +kernel
  obtain ⟨-, -, hfirst, hreadable⟩ := search_order stored "A" 0
  obtain ⟨hfound, hlater⟩ := hfirst ["none"] "bad" ["good"] _ hnone hbad
  have hbefore : find stored ["none"] = ⟨[], .ok none⟩ := search_passes hmissing []
  have hmagic : defineClass [0xde, 0xad, 0xbe, 0xef] = .error (.badMagic 0xdeadbeef) := rfl
  have hreported : find stored ["none", "bad", "good"] =
      ⟨(find stored ["none"]).events ++ [.found "A" "bad"],
        (defineClass [0xde, 0xad, 0xbe, 0xef]).map some⟩ := hfound
  rw [hmagic, hbefore] at hreported
  exact ⟨hnone, hbad, hsame, by decide +kernel, hreported, hlater emptied ["good"] hsame, hfilter,
    (hreadable _ _ hfilter).1⟩

end Loader
end ClassVM
