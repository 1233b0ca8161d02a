import ClassVM.Loading.FileSystem

namespace ClassVM

namespace Text

theorem splitChars_append_sep (sep : Char) (xs ys : List Char) :
    splitChars sep (xs ++ sep :: ys) = splitChars sep xs ++ splitChars sep ys := by
  induction xs with
  | nil => simp [splitChars]
  | cons c xs ih =>
    by_cases hc : c = sep
    · simp [splitChars, hc, ih]
    · simp only [List.cons_append, splitChars, if_neg hc, ih]
      cases hxs : splitChars sep xs with
      | nil => exact absurd hxs (splitChars_ne_nil sep xs)
      | cons piece pieces => simp

/-- Text without separators goes to the last piece. -/
theorem splitChars_append {sep : Char} {ys : List Char} (hys : sep ∉ ys) (xs : List Char) :
    ∃ pieces last, splitChars sep xs = pieces ++ [last] ∧
      splitChars sep (xs ++ ys) = pieces ++ [last ++ ys] := by
  induction xs with
  | nil =>
    refine ⟨[], [], by simp [splitChars], ?_⟩
    induction ys with
    | nil => simp [splitChars]
    | cons c ys ih =>
      obtain ⟨hc, hys⟩ := not_or.mp (mt List.mem_cons.mpr hys)
      have hrest := ih hys
      simp only [List.nil_append] at hrest ⊢
      simp [splitChars, Ne.symm hc, hrest]
  | cons c xs ih =>
    obtain ⟨pieces, last, hxs, hall⟩ := ih
    by_cases hc : c = sep
    · exact ⟨[] :: pieces, last, by simp [splitChars, hc, hxs], by simp [splitChars, hc, hall]⟩
    · cases pieces with
      | nil => exact ⟨[], c :: last, by simp [splitChars, hc, hxs], by simp [splitChars, hc, hall]⟩
      | cons piece pieces =>
        exact ⟨(c :: piece) :: pieces, last, by simp [splitChars, hc, hxs],
          by simp [splitChars, hc, hall]⟩

theorem mem_of_mem_splitChars {sep : Char} {cs piece : List Char} (h : piece ∈ splitChars sep cs)
    {c : Char} (hc : c ∈ piece) : c ∈ cs := by
  induction cs generalizing piece with
  | nil => simp_all [splitChars]
  | cons first cs ih =>
    unfold splitChars at h
    split at h
    · rcases List.mem_cons.mp h with rfl | h
      · cases hc
      · exact List.mem_cons_of_mem _ (ih h hc)
    · split at h
      next hnil => exact absurd hnil (splitChars_ne_nil sep cs)
      next initial pieces hsplit =>
        rcases List.mem_cons.mp h with rfl | h
        · rcases List.mem_cons.mp hc with rfl | hc
          · exact List.mem_cons_self
          · exact List.mem_cons_of_mem _ (ih (by simp [hsplit]) hc)
        · exact List.mem_cons_of_mem _ (ih (by simp [hsplit, h]) hc)

end Text

namespace Path
open Text

/-- Whether a path starts at the root, wherever one is. -/
def isAbsolute (path : String) : Bool := path.startsWith "/"

/-- The names along a path, without the parts that lead nowhere. -/
def components (path : String) : List String :=
  (parts path).filter fun part => part ≠ "" ∧ part ≠ "."

/-- Whether a path leads down from another one, as far as the names along them tell. -/
def Below (base path : String) : Prop :=
  isAbsolute path = isAbsolute base ∧
    ∃ rest, rest ≠ [] ∧ ".." ∉ rest ∧ components path = components base ++ rest

theorem isAbsolute_iff {path : String} :
    isAbsolute path = true ↔ path.toList.head? = some '/' := by
  rw [isAbsolute, String.startsWith_string_iff]
  cases h : path.toList with
  | nil => simp
  | cons c cs => simp [List.cons_prefix_cons, eq_comm]

theorem isAbsolute_append {base : String} (hbase : base ≠ "") (name : String) :
    isAbsolute (base ++ name) = isAbsolute base := by
  have hne : base.toList ≠ [] := by simpa using hbase
  obtain ⟨c, cs, hbase⟩ := List.exists_cons_of_ne_nil hne
  rw [Bool.eq_iff_iff, isAbsolute_iff, isAbsolute_iff, String.toList_append, hbase,
    List.cons_append, List.head?_cons, List.head?_cons]

theorem parts_ne_nil (path : String) : parts path ≠ [] := by
  simp [parts, splitChars_ne_nil]

theorem join_of_absolute {base name : String} (h : isAbsolute name = true) :
    join base name = name := if_pos h

/-- Joining keeps the parts of both paths, but for an empty part at the end of the first. -/
theorem parts_join (base : String) {name : String} (h : isAbsolute name = false) :
    ∃ before, (parts base = before ∨ parts base = before ++ [""]) ∧
      parts (join base name) = before ++ parts name := by
  have hrelative : ¬name.startsWith "/" = true := by simpa [isAbsolute] using h
  rw [join, if_neg hrelative]
  by_cases hempty : base = ""
  · subst hempty
    exact ⟨[], .inr (by simp [parts, splitChars]), by simp⟩
  by_cases hslash : "/".toList <:+ base.toList
  · obtain ⟨cs, hcs⟩ := hslash
    have hends : base.endsWith "/" = true := by
      rw [← String.endsWith_toSlice, String.Slice.endsWith_string_iff, String.copy_toSlice]
      exact ⟨cs, hcs⟩
    have hbase : base.toList = cs ++ '/' :: [] := hcs.symm
    refine ⟨(splitChars '/' cs).map String.ofList, .inr ?_, ?_⟩
    · simp [parts, hbase, splitChars_append_sep, splitChars]
    · simp [parts, hbase, hends, splitChars_append_sep]
  · have hends : base.endsWith "/" = false := by
      rw [← String.endsWith_toSlice, String.Slice.endsWith_string_eq_false_iff, String.copy_toSlice]
      exact hslash
    refine ⟨parts base, .inl rfl, ?_⟩
    simp [parts, hends, hempty, splitChars_append_sep]

theorem components_join (base : String) {name : String} (h : isAbsolute name = false) :
    components (join base name) = components base ++ components name := by
  obtain ⟨before, hbase, hjoin⟩ := parts_join base h
  rcases hbase with hbase | hbase <;> simp [components, hjoin, hbase]

theorem isAbsolute_join (base : String) {name : String} (h : isAbsolute name = false) :
    isAbsolute (join base name) = isAbsolute base := by
  have hrelative : ¬name.startsWith "/" = true := by simpa [isAbsolute] using h
  rw [join, if_neg hrelative]
  by_cases hempty : base = ""
  · subst hempty
    rw [if_pos (by simp), String.empty_append, h]
    rfl
  · split
    · exact isAbsolute_append hempty name
    · rw [String.append_assoc]
      exact isAbsolute_append hempty _

/-- A relative name that has a component and goes up nowhere stays below what it is joined to. -/
theorem below_join (base : String) {name : String} (h : isAbsolute name = false)
    (hname : components name ≠ []) (hup : ".." ∉ parts name) : Below base (join base name) :=
  ⟨isAbsolute_join base h, components name, hname, fun hmem => hup (List.mem_filter.mp hmem).1,
    components_join base h⟩

theorem length_le_join (base : String) {name : String} (h : isAbsolute name = false) :
    base.utf8ByteSize ≤ (join base name).utf8ByteSize := by
  have hrelative : ¬name.startsWith "/" = true := by simpa [isAbsolute] using h
  rw [join, if_neg hrelative]
  split
  · rw [String.utf8ByteSize_append]
    omega
  · rw [String.append_assoc, String.utf8ByteSize_append]
    omega

end Path

namespace FileTree

/-- Where a way that never goes up leads does not depend on what is above its start. -/
theorem follow_down (here : FileTree) (above : List FileTree) {names : List String}
    (h : ".." ∉ names) : follow (here :: above) names = follow [here] names := by
  induction names generalizing here above with
  | nil => rfl
  | cons name names ih =>
    obtain ⟨hname, hnames⟩ := not_or.mp (mt List.mem_cons.mpr h)
    cases here with
    | file content => rfl
    | directory entries =>
      simp only [follow, if_neg (Ne.symm hname)]
      split
      · exact ih _ _ hnames
      · split
        · rfl
        · rw [ih _ _ hnames, ih _ [directory entries] hnames]

/-- A way down that comes after another way starts where that one ends. -/
theorem follow_append (trail : List FileTree) (before : List String) {names : List String}
    (h : ".." ∉ names) :
    follow trail (before ++ names) =
      (follow trail before).bind fun place => follow [place] names := by
  fun_induction follow trail before with
  | case1 => simp [follow]
  | case2 here above => exact follow_down here above h
  | case3 => simp [follow]
  | case4 entries above name before hstay ih => simp [follow, hstay, ih]
  | case5 entries before _ ih => simp [follow, ih]
  | case6 entries above before habove _ ih => simp [follow, habove, ih]
  | case7 entries above name before hstay hup hnone => simp [follow, hstay, hup, hnone]
  | case8 entries above name before hstay hup next hnext ih =>
    simp [follow, hstay, hup, hnext, ih]

/-- An empty part in the middle of a way leads nowhere. -/
theorem follow_empty_part (trail : List FileTree) (before : List String) {names : List String}
    (h : names ≠ []) : follow trail (before ++ [""] ++ names) = follow trail (before ++ names) := by
  obtain ⟨first, rest, rfl⟩ := List.exists_cons_of_ne_nil h
  fun_induction follow trail before with
  | case1 => simp [follow]
  | case2 here above => cases here <;> simp [follow]
  | case3 => simp [follow]
  | case4 entries above name before hstay ih => simp_all [follow]
  | case5 entries before _ ih => simp_all [follow]
  | case6 entries above before habove _ ih => simp_all [follow]
  | case7 entries above name before hstay hup hnone => simp [follow, hstay, hup, hnone]
  | case8 entries above name before hstay hup next hnext ih => simp_all [follow]

theorem find?_of_ne_empty (root : FileTree) (current : List String) {path : String}
    (h : path ≠ "") :
    root.find? current path =
      if Path.maxLength < path.utf8ByteSize then none
      else follow [root] ((if Path.isAbsolute path then [] else current) ++ Path.parts path) := by
  have hempty : path.isEmpty = false := by simpa using h
  unfold find?
  rw [hempty, Bool.false_or]
  by_cases hlong : Path.maxLength < path.utf8ByteSize
  · rw [if_pos (decide_eq_true hlong), if_pos hlong]
  · rw [if_neg (by simpa using hlong), if_neg hlong]
    by_cases habsolute : path.startsWith "/" = true
    · rw [if_pos habsolute, Path.isAbsolute, if_pos habsolute, List.nil_append]
    · rw [if_neg habsolute, Path.isAbsolute, if_neg habsolute]

/-- What a relative path without `..` names depends on the current directory alone. -/
theorem find?_relative (root : FileTree) (current : List String) {path : String} (hne : path ≠ "")
    (h : Path.isAbsolute path = false) (hup : ".." ∉ Path.parts path) :
    root.find? current path =
      if Path.maxLength < path.utf8ByteSize then none
      else (follow [root] current).bind fun place => follow [place] (Path.parts path) := by
  rw [find?_of_ne_empty root current hne, h, ← follow_append _ _ hup]
  rfl

/-- What a relative name without `..` names in a directory depends on that directory alone. -/
theorem find?_join (root : FileTree) (current : List String) {base name : String} (hbase : base ≠ "")
    (h : Path.isAbsolute name = false) (hup : ".." ∉ Path.parts name) :
    root.find? current (Path.join base name) =
      if Path.maxLength < (Path.join base name).utf8ByteSize then none
      else (root.find? current base).bind fun place => follow [place] (Path.parts name) := by
  have hlength := Path.length_le_join base h
  have hjoin : Path.join base name ≠ "" := by
    intro hempty
    rw [hempty, String.utf8ByteSize_empty, Nat.le_zero, String.utf8ByteSize_eq_zero_iff] at hlength
    exact hbase hlength
  rw [find?_of_ne_empty root current hjoin, find?_of_ne_empty root current hbase,
    Path.isAbsolute_join base h]
  by_cases hlong : Path.maxLength < (Path.join base name).utf8ByteSize
  · rw [if_pos hlong, if_pos hlong]
  · have hshort : ¬Path.maxLength < base.utf8ByteSize := by omega
    rw [if_neg hlong, if_neg hlong, if_neg hshort, ← follow_append _ _ hup]
    obtain ⟨before, hbefore | hbefore, hparts⟩ := Path.parts_join base h
    · rw [hparts, hbefore, List.append_assoc]
    · rw [hparts, hbefore, ← List.append_assoc, ← List.append_assoc,
        follow_empty_part _ _ (Path.parts_ne_nil name)]

theorem readFile_eq_ok_iff {root : FileTree} {current : List String} {path : String} {bytes : Bytes} :
    (root.toFileSystem current).readFile path = .ok bytes ↔
      (root.find? current path).bind content? = some bytes := by
  simp only [toFileSystem]
  split <;> simp [*]

theorem readFile_eq_error_iff {root : FileTree} {current : List String} {path : String} :
    (root.toFileSystem current).readFile path = .error none ↔
      (root.find? current path).bind content? = none := by
  simp only [toFileSystem]
  split <;> simp [*]

end FileTree
end ClassVM
