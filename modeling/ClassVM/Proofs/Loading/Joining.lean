import ClassVM.Loading.ClassPath
import ClassVM.Proofs.Loading.Paths

namespace ClassVM

namespace Text

theorem splitChars_of_not_mem {sep : Char} {cs : List Char} (h : sep ∉ cs) :
    splitChars sep cs = [cs] := by
  induction cs with
  | nil => rfl
  | cons c cs ih =>
    obtain ⟨hc, hcs⟩ := not_or.mp (mt List.mem_cons.mpr h)
    simp [splitChars, Ne.symm hc, ih hcs]

theorem flatten_splitChars (sep : Char) (cs : List Char) :
    (splitChars sep cs).flatten = cs.filter (· ≠ sep) := by
  induction cs with
  | nil => rfl
  | cons c cs ih =>
    by_cases hc : c = sep
    · simp [splitChars, hc, ih]
    · cases hcs : splitChars sep cs with
      | nil => exact absurd hcs (splitChars_ne_nil sep cs)
      | cons piece pieces =>
        rw [hcs, List.flatten_cons] at ih
        simp [splitChars, hc, hcs, ih]

end Text

namespace ClassPath
open Text

/-- A text that can be an entry. -/
def IsEntry (entry : String) : Prop := entry ≠ "" ∧ separator ∉ entry.toList

instance (entry : String) : Decidable (IsEntry entry) :=
  inferInstanceAs (Decidable (entry ≠ "" ∧ separator ∉ entry.toList))

def separators (count : Nat) : String := String.ofList (List.replicate count separator)

/-- The entries joined by a separator each, with so many more in front of an entry as stand beside it,
and `after` more at the end. -/
def joined (items : List (Nat × String)) (after : Nat) : String :=
  ":".intercalate (items.map fun item => separators item.1 ++ item.2) ++ separators after

section parse

theorem entries_append (a b : String) :
    (parse (a ++ ":" ++ b)).entries = (parse a).entries ++ (parse b).entries := by
  have hsplit : splitChars separator (a ++ ":" ++ b).toList =
      splitChars separator a.toList ++ splitChars separator b.toList := by
    rw [← splitChars_append_sep]
    simp [separator]
  rw [parse, piecesAt, hsplit, List.filter_append, List.map_append]
  rfl

theorem entries_empty : (parse "").entries = [] := by
  simp [parse, piecesAt, splitChars]

theorem entries_entry {entry : String} (h : IsEntry entry) : (parse entry).entries = [entry] := by
  have hne : entry.toList ≠ [] := by simpa using h.1
  simp [parse, piecesAt, splitChars_of_not_mem h.2, hne]

theorem separators_succ (count : Nat) : separators (count + 1) = ":" ++ separators count := by
  apply String.toList_injective
  simp [separators, List.replicate_succ, separator]

theorem separators_succ_last (count : Nat) : separators (count + 1) = separators count ++ ":" := by
  apply String.toList_injective
  simp [separators, List.replicate_succ', separator]

theorem entries_separators_append (count : Nat) (text : String) :
    (parse (separators count ++ text)).entries = (parse text).entries := by
  induction count with
  | zero => simp [separators]
  | succ count ih =>
    have hsplit : separators (count + 1) ++ text = "" ++ ":" ++ (separators count ++ text) := by
      rw [separators_succ, String.empty_append, String.append_assoc]
    rw [hsplit, entries_append, entries_empty, List.nil_append, ih]

theorem entries_append_separators (count : Nat) (text : String) :
    (parse (text ++ separators count)).entries = (parse text).entries := by
  induction count with
  | zero => simp [separators]
  | succ count ih =>
    have hsplit : text ++ separators (count + 1) = (text ++ separators count) ++ ":" ++ "" := by
      rw [separators_succ_last, String.append_empty, String.append_assoc]
    rw [hsplit, entries_append, entries_empty, List.append_nil, ih]

end parse

section joined
variable (rest : List (Nat × String)) (after : Nat)

theorem joined_nil : joined [] after = separators after := by
  simp [joined]

theorem joined_extra (extra : Nat) (entry : String) :
    joined ((extra, entry) :: rest) after = separators extra ++ joined ((0, entry) :: rest) after := by
  simp [joined, separators, String.append_assoc]

theorem joined_append (front entry : String) :
    joined ((0, front ++ entry) :: rest) after = front ++ joined ((0, entry) :: rest) after := by
  simp [joined, separators, String.append_assoc]

theorem joined_cons (entry : String) (next : Nat × String) :
    joined ((0, entry) :: next :: rest) after = entry ++ ":" ++ joined (next :: rest) after := by
  simp [joined, separators, String.append_assoc]

theorem joined_single (entry : String) : joined [(0, entry)] after = entry ++ separators after := by
  simp [joined, separators]

end joined

theorem joined_without_more (entries : List String) :
    joined (entries.map fun entry => (0, entry)) 0 = ":".intercalate entries := by
  simp [joined, separators, Function.comp_def]

theorem entries_joined {items : List (Nat × String)} (h : ∀ item ∈ items, IsEntry item.2)
    (after : Nat) : (parse (joined items after)).entries = items.map Prod.snd := by
  induction items with
  | nil =>
    have hempty := entries_append_separators after ""
    rw [String.empty_append, entries_empty] at hempty
    rw [joined_nil, hempty, List.map_nil]
  | cons item rest ih =>
    obtain ⟨extra, entry⟩ := item
    have hentry := entries_entry (h (extra, entry) List.mem_cons_self)
    rw [joined_extra, entries_separators_append]
    cases rest with
    | nil => rw [joined_single, entries_append_separators, hentry, List.map_singleton]
    | cons next rest =>
      have hrest := ih fun item hitem => h item (List.mem_cons_of_mem _ hitem)
      rw [joined_cons, entries_append, hentry, hrest]
      rfl

section front
variable {items : List (Nat × String)}

/-- A separator in front goes to those before the first entry. -/
theorem exists_joined_separator (h : ∀ item ∈ items, IsEntry item.2) (after : Nat) :
    ∃ items' after', (∀ item ∈ items', IsEntry item.2) ∧
      ":" ++ joined items after = joined items' after' := by
  cases items with
  | nil =>
    refine ⟨[], after + 1, h, ?_⟩
    rw [joined_nil, joined_nil, separators_succ]
  | cons item rest =>
    refine ⟨(item.1 + 1, item.2) :: rest, after, by simpa using h, ?_⟩
    rw [joined_extra, joined_extra rest after (item.1 + 1), separators_succ, String.append_assoc]

/-- Another character in front begins an entry: the first one if no separator stands between them. -/
theorem exists_joined_character (h : ∀ item ∈ items, IsEntry item.2) (after : Nat) {c : Char}
    (hc : c ≠ separator) :
    ∃ items' after', (∀ item ∈ items', IsEntry item.2) ∧
      String.singleton c ++ joined items after = joined items' after' := by
  have hentry : IsEntry (String.singleton c) := ⟨by simp, by simpa using Ne.symm hc⟩
  rcases items with _ | ⟨⟨extra, entry⟩, rest⟩
  · refine ⟨[(0, String.singleton c)], after, by simpa using hentry, ?_⟩
    rw [joined_nil, joined_single]
  · obtain ⟨hfirst, hrest⟩ := List.forall_mem_cons.mp h
    cases extra with
    | zero =>
      have hlonger : IsEntry (String.singleton c ++ entry) :=
        ⟨by simp, by simpa [Ne.symm hc] using hfirst.2⟩
      exact ⟨(0, String.singleton c ++ entry) :: rest, after,
        List.forall_mem_cons.mpr ⟨hlonger, hrest⟩, (joined_append rest after _ _).symm⟩
    | succ extra =>
      refine ⟨(0, String.singleton c) :: (extra, entry) :: rest, after,
        List.forall_mem_cons.mpr ⟨hentry, List.forall_mem_cons.mpr ⟨hfirst, hrest⟩⟩, ?_⟩
      rw [joined_cons, joined_extra, joined_extra rest after extra, separators_succ]
      simp only [String.append_assoc]

end front

theorem exists_joined (cs : List Char) :
    ∃ items after, (∀ item ∈ items, IsEntry item.2) ∧ String.ofList cs = joined items after := by
  induction cs with
  | nil => exact ⟨[], 0, List.forall_mem_nil _, rfl⟩
  | cons c cs ih =>
    obtain ⟨items, after, hitems, hcs⟩ := ih
    rw [String.ofList_cons, hcs]
    by_cases hc : c = separator
    · have hsep : String.singleton c = ":" := by
        rw [hc]
        rfl
      rw [hsep]
      exact exists_joined_separator hitems after
    · exact exists_joined_character hitems after hc

/-- No character but the separators is lost, and the others stay in their order. -/
theorem entries_toList (text : String) :
    (parse text).entries.flatMap String.toList = text.toList.filter (· ≠ separator) := by
  have hpieces : (parse text).entries =
      ((splitChars separator text.toList).filter (· ≠ [])).map String.ofList := rfl
  rw [hpieces, List.flatMap_map, ← flatten_splitChars, ← List.flatten_filter_ne_nil]
  simp only [String.toList_ofList]
  exact List.flatMap_id

/-- Splitting at the separators undoes joining, however many more of them there are, and every text is
made of its entries in this way. -/
theorem parse_inverts_joining :
    (∀ entries, (∀ entry ∈ entries, IsEntry entry) →
      (parse (":".intercalate entries)).entries = entries) ∧
    (∀ items after, (∀ item ∈ items, IsEntry item.2) →
      (parse (joined items after)).entries = items.map Prod.snd) ∧
    (∀ a b, (parse (a ++ ":" ++ b)).entries = (parse a).entries ++ (parse b).entries) ∧
    ∀ text, (∀ entry ∈ (parse text).entries, IsEntry entry) ∧
      (parse text).entries.flatMap String.toList = text.toList.filter (· ≠ separator) ∧
      ∃ items after, items.map Prod.snd = (parse text).entries ∧ text = joined items after := by
  refine ⟨?_, fun items after h => entries_joined h after, entries_append, ?_⟩
  · intro entries h
    have hitems : ∀ item ∈ entries.map fun entry => (0, entry), IsEntry item.2 := by
      simpa using h
    rw [← joined_without_more, entries_joined hitems, List.map_map]
    exact List.map_id _
  · intro text
    obtain ⟨items, after, hitems, htext⟩ := exists_joined text.toList
    rw [String.ofList_toList] at htext
    have hentries : (parse text).entries = items.map Prod.snd := by
      rw [htext, entries_joined hitems]
    refine ⟨?_, entries_toList text, items, after, hentries.symm, htext⟩
    rw [hentries]
    exact List.forall_mem_map.mpr hitems

theorem parse_inverts_joining_spaces :
    (∀ entry ∈ ["lib", " b "], IsEntry entry) ∧
    (parse (":".intercalate ["lib", " b "])).entries = ["lib", " b "] ∧
    (∀ item ∈ [(2, "lib"), (1, " b ")], IsEntry item.2) ∧
    joined [(2, "lib"), (1, " b ")] 1 = "::lib:: b :" ∧
    (parse "::lib:: b :").entries = ["lib", " b "] := by
  have hentries : ∀ entry ∈ ["lib", " b "], IsEntry entry := by decide
  have hitems : ∀ item ∈ [(2, "lib"), (1, " b ")], IsEntry item.2 := by decide
  have htext : joined [(2, "lib"), (1, " b ")] 1 = "::lib:: b :" := by decide
  have hmore := parse_inverts_joining.2.1 _ 1 hitems
  rw [htext] at hmore
  exact ⟨hentries, parse_inverts_joining.1 _ hentries, hitems, htext, hmore⟩

end ClassPath
end ClassVM
