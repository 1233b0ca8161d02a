import ClassVM.Proofs.Loading.Store
import ClassVM.Proofs.Loading.Paths
import ClassVM.Proofs.Loading.Search

namespace ClassVM

namespace ClassName

theorem dot_not_mem_internal (name : String) : '.' ∉ (internal name).toList := by
  rw [internal_toList, List.mem_map]
  rintro ⟨c, -, hc⟩
  split at hc
  next => cases hc
  next hne => exact hne hc

/-- The names whose internal form is an absolute path. -/
theorem isAbsolute_internal (name : String) :
    Path.isAbsolute (internal name) = true ↔
      name.toList.head? = some '/' ∨ name.toList.head? = some '.' := by
  rw [Path.isAbsolute_iff, internal_toList, List.head?_map]
  cases name.toList.head? with
  | none => simp
  | some c => by_cases hc : c = '.' <;> simp [hc]

end ClassName

namespace Path
open Text

theorem parts_append {suffix : String} (h : '/' ∉ suffix.toList) (path : String) :
    ∃ pieces last, parts path = pieces ++ [last] ∧
      parts (path ++ suffix) = pieces ++ [last ++ suffix] := by
  obtain ⟨pieces, last, hpath, hall⟩ := splitChars_append h path.toList
  refine ⟨pieces.map String.ofList, String.ofList last, by simp [parts, hpath], ?_⟩
  simp [parts, hall, String.ofList_append]

theorem mem_of_mem_parts {path part : String} (h : part ∈ parts path) {c : Char}
    (hc : c ∈ part.toList) : c ∈ path.toList := by
  obtain ⟨piece, hpiece, rfl⟩ := List.mem_map.mp h
  exact mem_of_mem_splitChars hpiece (by simpa using hc)

theorem up_not_mem_parts {path : String} (h : ".." ∉ components path) : ".." ∉ parts path := by
  intro hmem
  exact h (List.mem_filter.mpr ⟨hmem, by decide⟩)

end Path

namespace Loader

/-- A class file's name, as a path of its own. -/
theorem classFile_parts {internal : String} (h : '.' ∉ internal.toList) :
    ".." ∉ Path.parts (internal ++ ".class") ∧ Path.components (internal ++ ".class") ≠ [] := by
  obtain ⟨pieces, last, hinternal, hfile⟩ :=
    Path.parts_append (by decide : '/' ∉ ".class".toList) internal
  have hlong : (last ++ ".class").toList.length = last.toList.length + 6 := by simp
  constructor
  · rw [hfile, List.mem_append, List.mem_singleton]
    rintro (hmem | hlast)
    · exact h (Path.mem_of_mem_parts (by simp [hinternal, hmem]) (by decide : '.' ∈ "..".toList))
    · rw [← hlast] at hlong
      exact absurd hlong (by simp)
  · have hmem : last ++ ".class" ∈ Path.components (internal ++ ".class") := by
      refine List.mem_filter.mpr ⟨by simp [hfile], decide_eq_true ⟨?_, ?_⟩⟩
      all_goals
        intro hshort
        rw [hshort] at hlong
        exact absurd hlong (by simp)
    exact List.ne_nil_of_mem hmem

theorem isAbsolute_classFile (internal : String) :
    Path.isAbsolute (internal ++ ".class") = Path.isAbsolute internal := by
  by_cases hempty : internal = ""
  · subst hempty
    decide +kernel
  · exact Path.isAbsolute_append hempty ".class"

/-- The file for a class whose internal name is no absolute path lies below the directory. -/
theorem classFilePath_below (entry : String) {name : String}
    (h : Path.isAbsolute (ClassName.internal name) = false) :
    Path.Below entry (classFilePath entry (ClassName.internal name)) := by
  obtain ⟨hup, hsome⟩ := classFile_parts (ClassName.dot_not_mem_internal name)
  exact Path.below_join entry ((isAbsolute_classFile _).trans h) hsome hup

/-- The search for such a class sees no more of a tree of files than the directories it searches. -/
theorem readFile_of_directories {root root' : FileTree} {current current' : List String}
    {entry name : String} (hentry : entry ≠ "")
    (hname : Path.isAbsolute (ClassName.internal name) = false)
    (h : root.find? current entry = root'.find? current' entry) :
    (root.toFileSystem current).readFile (classFilePath entry (ClassName.internal name)) =
      (root'.toFileSystem current').readFile (classFilePath entry (ClassName.internal name)) := by
  obtain ⟨hup, -⟩ := classFile_parts (ClassName.dot_not_mem_internal name)
  have hrelative := (isAbsolute_classFile _).trans hname
  simp only [FileTree.toFileSystem, classFilePath]
  rw [FileTree.find?_join root current hentry hrelative hup,
    FileTree.find?_join root' current' hentry hrelative hup, h]

end Loader

namespace ClassStore
open Loader

/-- Unless the name begins with a slash or a dot, files matter only below the entries of the class path;
if it does, no entry is part of the path that is read. -/
theorem load_confined (path : ClassPath) (name : String) (store : ClassStore) :
    let internal := ClassName.internal name
    let load := fun files => store.load (.ofClassPath files path) name
    (∀ files files' : FileSystem,
      (∀ entry ∈ path.entries, files.readFile (classFilePath entry internal) =
        files'.readFile (classFilePath entry internal)) → load files = load files') ∧
    (Path.isAbsolute internal = false →
      (∀ entry, Path.Below entry (classFilePath entry internal) ∧
        Path.components (classFilePath entry internal) =
          Path.components entry ++ Path.components (internal ++ ".class")) ∧
      (∀ files files' : FileSystem,
        (∀ entry ∈ path.entries, ∀ file, Path.Below entry file →
          files.readFile file = files'.readFile file) → load files = load files') ∧
      ∀ (root root' : FileTree) (current current' : List String), "" ∉ path.entries →
        (∀ entry ∈ path.entries, root.find? current entry = root'.find? current' entry) →
        load (root.toFileSystem current) = load (root'.toFileSystem current')) ∧
    (Path.isAbsolute internal = true → ∀ entry, classFilePath entry internal = internal ++ ".class") ∧
    (Path.isAbsolute internal = true ↔
      name.toList.head? = some '/' ∨ name.toList.head? = some '.') := by
  intro internal load
  have hcongr : ∀ files files' : FileSystem,
      (∀ entry ∈ path.entries, files.readFile (classFilePath entry internal) =
        files'.readFile (classFilePath entry internal)) → load files = load files' :=
    fun files files' h => load_congr fun _ => search_congr h
  refine ⟨hcongr, ?_, ?_, ClassName.isAbsolute_internal name⟩
  · intro hrelative
    have hbelow := fun entry => classFilePath_below entry hrelative
    refine ⟨fun entry => ⟨hbelow entry, ?_⟩, ?_, ?_⟩
    · exact Path.components_join entry ((isAbsolute_classFile internal).trans hrelative)
    · intro files files' h
      exact hcongr files files' fun entry hentry => h entry hentry _ (hbelow entry)
    · intro root root' current current' hnamed h
      apply hcongr
      intro entry hentry
      have hne : entry ≠ "" := fun hempty => hnamed (hempty ▸ hentry)
      exact readFile_of_directories hne hrelative (h entry hentry)
  · intro habsolute entry
    exact Path.join_of_absolute ((isAbsolute_classFile internal).trans habsolute)

/-- The bytes of a class without any members. -/
def memberlessClass : Bytes :=
  [0xca, 0xfe, 0xba, 0xbe, 0, 0, 0, 0x34, 0, 3, 1, 0, 1, 0x59, 7, 0, 1, 0, 0x21, 0, 2, 0, 0, 0, 0, 0,
    0, 0, 0, 0, 0]

/-- A directory with a class file. -/
def packageOfY : FileTree := .directory [("Y.class", .file memberlessClass)]

/-- A working directory with a class path entry in it, and whatever there is beside it. -/
def around (outside : List (String × FileTree)) : FileTree :=
  .directory (("work", .directory [("cp", .directory [("x", packageOfY)])]) :: outside)

theorem find?_around (outside : List (String × FileTree)) {path : String} (hne : path ≠ "")
    (h : Path.isAbsolute path = false) (hup : ".." ∉ Path.parts path) :
    (around outside).find? ["work"] path = (around []).find? ["work"] path := by
  rw [FileTree.find?_relative _ _ hne h hup, FileTree.find?_relative _ _ hne h hup]
  rfl

/-- What is put beside the working directory changes nothing for `x.Y`, while `.x.Y` leads there. -/
theorem load_confined_beside :
    let bare := around []
    let planted := around [("x", packageOfY)]
    let load := fun (tree : FileTree) =>
      ClassStore.empty.load (.ofClassPath (tree.toFileSystem ["work"]) ⟨["cp"]⟩) "x.Y"
    "" ∉ ["cp"] ∧ Path.isAbsolute (ClassName.internal "x.Y") = false ∧
    (∀ entry ∈ ["cp"], planted.find? ["work"] entry = bare.find? ["work"] entry) ∧
    load planted = load bare ∧ (load bare).result.isOk = true ∧
    Path.Below "cp" (classFilePath "cp" "x/Y") ∧ classFilePath "cp" "x/Y" = "cp/x/Y.class" ∧
    Path.isAbsolute (ClassName.internal ".x.Y") = true ∧ classFilePath "cp" "/x/Y" = "/x/Y.class" := by
  intro bare planted load
  have hinternal : ClassName.internal "x.Y" = "x/Y" := by decide +kernel
  have hescaped : ClassName.internal ".x.Y" = "/x/Y" := by decide +kernel
  have hnamed : "" ∉ ["cp"] := by decide
  have hsame : ∀ entry ∈ ["cp"], planted.find? ["work"] entry = bare.find? ["work"] entry := by
    intro entry hentry
    cases List.mem_singleton.mp hentry
    exact find?_around _ (by decide) (by decide +kernel) (by decide +kernel)
  obtain ⟨-, hconfined, -, -⟩ := load_confined ⟨["cp"]⟩ "x.Y" .empty
  obtain ⟨-, -, habsolute, hescapes⟩ := load_confined ⟨["cp"]⟩ ".x.Y" .empty
  have hrelative : Path.isAbsolute (ClassName.internal "x.Y") = false := by decide +kernel
  have hleads : Path.isAbsolute (ClassName.internal ".x.Y") = true := hescapes.mpr (by decide +kernel)
  obtain ⟨hbelow, -, htrees⟩ := hconfined hrelative
  have hfile := habsolute hleads "cp"
  rw [hescaped] at hfile
  have hunder := (hbelow "cp").1
  rw [hinternal] at hunder
  exact ⟨hnamed, hrelative, hsame, htrees planted bare ["work"] ["work"] hnamed hsame,
    by decide +kernel, hunder, by decide +kernel, hleads, hfile⟩

/-- The files outside of the working directory are not seen by paths that lead down from it. -/
theorem readFile_around (outside : List (String × FileTree)) {file : String}
    (h : Path.Below "cp" file) :
    ((around outside).toFileSystem ["work"]).readFile file =
      ((around []).toFileSystem ["work"]).readFile file := by
  obtain ⟨hrelative, rest, hrest, hup, hfile⟩ := h
  have hdown : ".." ∉ Path.components file := by
    rw [hfile, List.mem_append]
    rintro (hcp | hmem)
    · exact absurd hcp (by decide +kernel)
    · exact hup hmem
  have hne : file ≠ "" := by
    rintro rfl
    exact absurd hfile (by simp [Path.components, Path.parts, Text.splitChars])
  have hrelative : Path.isAbsolute file = false := hrelative.trans (by decide +kernel)
  simp only [FileTree.toFileSystem]
  rw [find?_around outside hne hrelative (Path.up_not_mem_parts hdown)]

/-- A class outside of the class path is loaded by a name that begins with a slash, although the file
systems agree on the class path; and the class under that name in the class path is not found. -/
theorem absolute_name_escapes :
    let bare := (around []).toFileSystem ["work"]
    let planted := (around [("x", packageOfY)]).toFileSystem ["work"]
    let load := fun files => ClassStore.empty.load (.ofClassPath files ⟨["cp"]⟩) "/x/Y"
    (∀ entry ∈ ["cp"], ∀ file, Path.Below entry file → planted.readFile file = bare.readFile file) ∧
    bare.readFile "cp//x/Y.class" = .ok memberlessClass ∧
    (load bare).result = .error (.classNotFound "/x/Y") ∧
    (load planted).result.isOk = true := by
  intro bare planted load
  have hstored : bare.readFile "cp//x/Y.class" = .ok memberlessClass :=
    FileTree.readFile_eq_ok_iff.mpr (by decide +kernel)
  have hinternal : ClassName.internal "/x/Y" = "/x/Y" := by decide +kernel
  have hanswer : ((ofClassPath bare ⟨["cp"]⟩).find 0 (ClassName.internal "/x/Y")).answer =
      .ok none := by
    have hread : bare.readFile (classFilePath "cp" "/x/Y") = .error none :=
      FileTree.readFile_eq_error_iff.mpr (by decide +kernel)
    rw [hinternal]
    exact congrArg Lookup.answer (search_passes hread [])
  have hmissing : (load bare).result = .error (.classNotFound (ClassName.internal "/x/Y")) :=
    load_missing rfl hanswer
  rw [hinternal] at hmissing
  refine ⟨?_, hstored, hmissing, by decide +kernel⟩
  intro entry hentry file hbelow
  cases List.mem_singleton.mp hentry
  exact readFile_around _ hbelow

end ClassStore
end ClassVM
