import ClassVM.Code.Method
import Mathlib.Data.List.TakeDrop

namespace ClassVM

theorem BaseType.letter_of_ofLetter? {c : Char} {kind : BaseType} (h : ofLetter? c = some kind) :
    kind.letter = c := by
  unfold ofLetter? at h
  split at h
  case h_9 => cases h
  all_goals
    cases h
    rfl

theorem BaseType.letter_ne (kind : BaseType) :
    kind.letter ≠ '[' ∧ kind.letter ≠ 'L' ∧ kind.letter ≠ 'V' := by
  cases kind <;> decide

namespace FieldType

/-- Every class name in the type can be written down: it is not empty, and it holds neither the
semicolon that ends it nor the character `barred`. -/
def Avoids (barred : Char) : FieldType → Prop
  | base _ => True
  | reference name => name ≠ "" ∧ ';' ∉ name.toList ∧ barred ∉ name.toList
  | array component => component.Avoids barred

instance decidableAvoids (barred : Char) : (t : FieldType) → Decidable (t.Avoids barred)
  | base _ => .isTrue trivial
  | reference name =>
    inferInstanceAs (Decidable (name ≠ "" ∧ ';' ∉ name.toList ∧ barred ∉ name.toList))
  | array component => decidableAvoids barred component

/-- The characters that stand in a written type outside class names. -/
def marks : List Char := ['B', 'C', 'D', 'F', 'I', 'J', 'S', 'Z', 'L', '[', ';']

variable {barred : Char}

theorem barred_not_mem_chars (hmark : barred ∉ marks) {t : FieldType} (h : t.Avoids barred) :
    barred ∉ t.chars := by
  induction t with
  | base kind =>
    have hletter : kind.letter ∈ marks := by cases kind <;> decide
    intro hmem
    cases List.mem_singleton.mp hmem
    exact hmark hletter
  | reference name =>
    intro hmem
    simp only [chars, List.mem_cons, List.mem_append, List.not_mem_nil, or_false] at hmem
    rcases hmem with rfl | hname | rfl
    · exact hmark (by decide)
    · exact h.2.2 hname
    · exact hmark (by decide)
  | array component ih =>
    intro hmem
    rcases List.mem_cons.mp hmem with rfl | hmem
    · exact hmark (by decide)
    · exact ih h hmem

theorem chars_ne_void (t : FieldType) : t.chars ≠ ['V'] := by
  cases t with
  | base kind =>
    intro h
    exact (BaseType.letter_ne kind).2.2 (List.cons.inj h).1
  | reference name | array component =>
    intro h
    exact absurd (List.cons.inj h).1 (by decide)

theorem arrayOf_chars (dimensions : Nat) (t : FieldType) :
    (arrayOf dimensions t).chars = List.replicate dimensions '[' ++ t.chars := by
  induction dimensions generalizing t with
  | zero => rfl
  | succ dimensions ih => simp [arrayOf, ih, chars, List.replicate_succ']

theorem arrayOf_avoids (dimensions : Nat) (t : FieldType) :
    (arrayOf dimensions t).Avoids barred ↔ t.Avoids barred := by
  induction dimensions generalizing t with
  | zero => rfl
  | succ dimensions ih => exact ih (.array t)

theorem reference_chars (name : List Char) :
    (reference (String.ofList name)).chars = 'L' :: (name ++ [';']) := by
  simp [chars]

/-- What has been read of the type under way. -/
def Place.chars : Place → List Char
  | .before dimensions => List.replicate dimensions '['
  | .inside dimensions name => List.replicate dimensions '[' ++ 'L' :: name.reverse

/-- The class name under way can be part of one. -/
def Place.Avoids (barred : Char) : Place → Prop
  | .before _ => True
  | .inside _ name => ';' ∉ name ∧ barred ∉ name

theorem listOfCharsOnto_name (dimensions : Nat) (name found : List Char)
    (types : List FieldType) (rest : List Char) (h : ';' ∉ name) (hne : found ++ name ≠ []) :
    listOfCharsOnto (.inside dimensions found.reverse) types (name ++ ';' :: rest) =
      listOfCharsOnto (.before 0)
        (arrayOf dimensions (.reference (String.ofList (found ++ name))) :: types) rest := by
  induction name generalizing found with
  | nil =>
    have hfound : found ≠ [] := by simpa using hne
    simp [listOfCharsOnto, hfound]
  | cons c name ih =>
    have hc : ';' ≠ c := List.ne_of_not_mem_cons h
    have hname : ';' ∉ name := List.not_mem_of_not_mem_cons h
    have hstep := ih (found ++ [c]) hname (by simp)
    simp only [List.reverse_append, List.reverse_cons, List.reverse_nil, List.nil_append,
      List.cons_append, List.append_assoc] at hstep
    rw [List.cons_append, listOfCharsOnto, if_neg (Ne.symm hc), hstep]

/-- A written type is read back as one more dimension for every bracket before it. -/
theorem listOfCharsOnto_chars {t : FieldType} (h : t.Avoids barred) (dimensions : Nat)
    (types : List FieldType) (rest : List Char) :
    listOfCharsOnto (.before dimensions) types (t.chars ++ rest) =
      listOfCharsOnto (.before 0) (arrayOf dimensions t :: types) rest := by
  induction t generalizing dimensions with
  | base kind =>
    obtain ⟨hbracket, hreference, -⟩ := BaseType.letter_ne kind
    rw [chars, List.singleton_append, listOfCharsOnto, if_neg hbracket, if_neg hreference,
      BaseType.ofLetter?_letter]
  | reference name =>
    have hne : name.toList ≠ [] := by simpa using h.1
    have hread := listOfCharsOnto_name dimensions name.toList [] types rest h.2.1 hne
    rw [List.reverse_nil, List.nil_append, String.ofList_toList] at hread
    rw [chars, List.cons_append, listOfCharsOnto, if_neg (by decide), if_pos rfl,
      List.append_assoc, List.singleton_append, hread]
  | array component ih =>
    rw [chars, List.cons_append, listOfCharsOnto, if_pos rfl]
    exact ih h (dimensions + 1)

theorem listOfCharsOnto_flatMap (ts found : List FieldType) (h : ∀ t ∈ ts, t.Avoids barred) :
    listOfCharsOnto (.before 0) found (ts.flatMap chars) = some (found.reverse ++ ts) := by
  induction ts generalizing found with
  | nil => simp [listOfCharsOnto]
  | cons t ts ih =>
    have ht : t.Avoids barred := h t List.mem_cons_self
    have hts : ∀ u ∈ ts, u.Avoids barred := fun u hu => h u (List.mem_cons_of_mem t hu)
    rw [List.flatMap_cons, listOfCharsOnto_chars ht, ih _ hts, arrayOf]
    simp

/-- Whatever is read has been written where reading stands. -/
theorem of_listOfCharsOnto {place : Place} {found ts : List FieldType} {cs : List Char}
    (h : listOfCharsOnto place found cs = some ts) (hcs : barred ∉ cs)
    (hplace : place.Avoids barred) :
    ∃ more, ts = found.reverse ++ more ∧ place.chars ++ cs = more.flatMap chars ∧
      ∀ t ∈ more, t.Avoids barred := by
  fun_induction listOfCharsOnto place found cs with
  | case1 found =>
    cases h
    exact ⟨[], by simp, rfl, by simp⟩
  | case2 | case3 => cases h
  | case4 dimensions found rest ih =>
    obtain ⟨more, hts, hmore, havoid⟩ := ih h (List.not_mem_of_not_mem_cons hcs) trivial
    refine ⟨more, hts, ?_, havoid⟩
    rw [← hmore]
    simp [Place.chars, List.replicate_succ']
  | case5 dimensions found rest hc ih =>
    obtain ⟨more, hts, hmore, havoid⟩ := ih h (List.not_mem_of_not_mem_cons hcs) (by simp [Place.Avoids])
    refine ⟨more, hts, ?_, havoid⟩
    rw [← hmore]
    simp [Place.chars]
  | case6 dimensions found c rest hbracket hreference kind hkind ih =>
    obtain ⟨more, hts, hmore, havoid⟩ := ih h (List.not_mem_of_not_mem_cons hcs) trivial
    refine ⟨arrayOf dimensions (.base kind) :: more, by simp [hts], ?_, ?_⟩
    · have hletter := BaseType.letter_of_ofLetter? hkind
      rw [List.flatMap_cons, ← hmore, arrayOf_chars]
      simp [Place.chars, chars, hletter]
    · intro t ht
      rcases List.mem_cons.mp ht with rfl | ht
      · exact (arrayOf_avoids dimensions _).mpr trivial
      · exact havoid t ht
  | case7 => cases h
  | case8 => cases h
  | case9 dimensions name found rest hname t ih =>
    obtain ⟨more, hts, hmore, havoid⟩ := ih h (List.not_mem_of_not_mem_cons hcs) trivial
    refine ⟨arrayOf dimensions t :: more, by simp [hts], ?_, ?_⟩
    · rw [List.flatMap_cons, ← hmore, arrayOf_chars, reference_chars]
      simp [Place.chars]
    · intro u hu
      rcases List.mem_cons.mp hu with rfl | hu
      · refine (arrayOf_avoids dimensions _).mpr ⟨?_, ?_, ?_⟩
        · simpa using hname
        · simpa using hplace.1
        · simpa using hplace.2
      · exact havoid u hu
  | case10 dimensions name found c rest hc ih =>
    have hbarred : barred ≠ c := List.ne_of_not_mem_cons hcs
    have hrest : barred ∉ rest := List.not_mem_of_not_mem_cons hcs
    have hinside : (Place.inside dimensions (c :: name)).Avoids barred :=
      ⟨List.not_mem_cons_of_ne_of_not_mem (Ne.symm hc) hplace.1,
        List.not_mem_cons_of_ne_of_not_mem hbarred hplace.2⟩
    obtain ⟨more, hts, hmore, havoid⟩ := ih h hrest hinside
    refine ⟨more, hts, ?_, havoid⟩
    rw [← hmore]
    simp [Place.chars]

theorem listOfChars?_eq_some_iff {cs : List Char} {ts : List FieldType} (hcs : barred ∉ cs) :
    listOfChars? cs = some ts ↔ cs = ts.flatMap chars ∧ ∀ t ∈ ts, t.Avoids barred := by
  constructor
  · intro h
    obtain ⟨more, hts, hmore, havoid⟩ := of_listOfCharsOnto h hcs trivial
    rw [List.reverse_nil, List.nil_append] at hts
    rw [hts]
    exact ⟨hmore, havoid⟩
  · rintro ⟨rfl, havoid⟩
    exact listOfCharsOnto_flatMap ts [] havoid

theorem ofChars?_eq_some_iff {cs : List Char} {t : FieldType} (hcs : barred ∉ cs) :
    ofChars? cs = some t ↔ cs = t.chars ∧ t.Avoids barred := by
  have hone : ofChars? cs = some t ↔ listOfChars? cs = some [t] := by
    unfold ofChars?
    split <;> simp_all
  rw [hone, listOfChars?_eq_some_iff hcs]
  simp

end FieldType

namespace Signature

/-- The class names of a signature can be written down in its descriptor: those of the arguments
before the parenthesis that closes them, that of the result on one line. -/
def WellFormed (s : Signature) : Prop :=
  (∀ t ∈ s.arguments, t.Avoids ')') ∧ ∀ t ∈ s.result, t.Avoids '\n'

instance (s : Signature) : Decidable s.WellFormed := inferInstanceAs (Decidable (_ ∧ _))

def resultChars (result : Option FieldType) : List Char := (result.map FieldType.chars).getD ['V']

theorem chars_eq (s : Signature) :
    s.chars = '(' :: (s.arguments.flatMap FieldType.chars ++ ')' :: resultChars s.result) := rfl

theorem resultOfChars?_eq_some_iff {cs : List Char} {result : Option FieldType} (hcs : '\n' ∉ cs) :
    resultOfChars? cs = some result ↔
      cs = resultChars result ∧ ∀ t ∈ result, t.Avoids '\n' := by
  unfold resultOfChars? resultChars
  by_cases hvoid : cs = ['V']
  · cases result with
    | none => simp [hvoid]
    | some t => simp [hvoid, Ne.symm t.chars_ne_void]
  · cases result with
    | none => simp [hvoid]
    | some t => simp [hvoid, FieldType.ofChars?_eq_some_iff hcs]

theorem newline_not_mem_resultChars {result : Option FieldType}
    (h : ∀ t ∈ result, t.Avoids '\n') : '\n' ∉ resultChars result := by
  cases result with
  | none => decide
  | some t => exact FieldType.barred_not_mem_chars (by decide) (h t rfl)

theorem ofChars?_split {arguments result : List Char} (h : ')' ∉ arguments) :
    ofChars? ('(' :: (arguments ++ ')' :: result)) =
      if '\n' ∈ result then none
      else do
        let arguments ← FieldType.listOfChars? arguments
        let result ← resultOfChars? result
        return ⟨arguments, result⟩ := by
  have hspan : (arguments ++ ')' :: result).span (· ≠ ')') = (arguments, ')' :: result) := by
    have hall : ∀ c ∈ arguments, decide (c ≠ ')') = true := by
      intro c hc
      exact decide_eq_true fun heq => h (heq ▸ hc)
    rw [List.span_eq_takeWhile_dropWhile, List.takeWhile_append_of_pos hall,
      List.dropWhile_append_of_pos hall]
    simp
  simp only [ofChars?, hspan]

theorem exists_split {cs : List Char} {s : Signature} (h : ofChars? cs = some s) :
    ∃ arguments result, ')' ∉ arguments ∧ cs = '(' :: (arguments ++ ')' :: result) := by
  match cs with
  | [] => cases h
  | c :: cs =>
    unfold ofChars? at h
    split at h
    case h_2 => cases h
    case h_1 cs' heq =>
      cases heq
      split at h
      case h_2 => cases h
      case h_1 arguments result hspan =>
        rw [List.span_eq_takeWhile_dropWhile, Prod.mk.injEq] at hspan
        refine ⟨arguments, result, ?_, ?_⟩
        · intro hmem
          rw [← hspan.1] at hmem
          simpa using List.all_eq_true.mp List.all_takeWhile ')' hmem
        · rw [← hspan.1, ← hspan.2, List.takeWhile_append_dropWhile]

theorem ofChars?_eq_some_iff {cs : List Char} {s : Signature} :
    ofChars? cs = some s ↔ s.WellFormed ∧ cs = s.chars := by
  constructor
  · intro h
    obtain ⟨arguments, result, hclose, rfl⟩ := exists_split h
    rw [ofChars?_split hclose] at h
    split at h
    case isTrue => cases h
    case isFalse hline =>
      obtain ⟨ts, hts, h⟩ := Option.bind_eq_some_iff.mp h
      obtain ⟨r, hr, h⟩ := Option.bind_eq_some_iff.mp h
      cases h
      obtain ⟨rfl, havoid⟩ := (FieldType.listOfChars?_eq_some_iff hclose).mp hts
      obtain ⟨rfl, hresult⟩ := (resultOfChars?_eq_some_iff hline).mp hr
      exact ⟨⟨havoid, hresult⟩, rfl⟩
  · rintro ⟨⟨havoid, hresult⟩, rfl⟩
    have hclose : ')' ∉ s.arguments.flatMap FieldType.chars := by
      intro hmem
      obtain ⟨t, ht, hmem⟩ := List.mem_flatMap.mp hmem
      exact FieldType.barred_not_mem_chars (by decide) (havoid t ht) hmem
    have hline := newline_not_mem_resultChars hresult
    have hts := (FieldType.listOfChars?_eq_some_iff hclose).mpr ⟨rfl, havoid⟩
    have hr := (resultOfChars?_eq_some_iff hline).mpr ⟨rfl, hresult⟩
    rw [chars_eq, ofChars?_split hclose, if_neg hline, hts]
    simp only [hr, bind, Option.bind_some]
    rfl

theorem parse_eq_ok_iff {text : String} {s : Signature} :
    parse text = .ok s ↔ s.WellFormed ∧ text = s.text := by
  have hchars : text = s.text ↔ text.toList = s.chars := by
    rw [Signature.text, ← String.toList_inj, String.toList_ofList]
  rw [hchars, ← ofChars?_eq_some_iff, parse]
  split <;> simp_all

theorem parse_eq_error_iff {text : String} {e : FormatError} :
    parse text = .error e ↔
      e = .malformedDescriptor text ∧ ∀ s : Signature, s.WellFormed → text ≠ s.text := by
  constructor
  · intro h
    refine ⟨?_, ?_⟩
    · unfold parse at h
      split at h <;> cases h
      rfl
    · intro s hs htext
      rw [parse_eq_ok_iff.mpr ⟨hs, htext⟩] at h
      cases h
  · rintro ⟨rfl, hnone⟩
    cases h : parse text with
    | ok s =>
      obtain ⟨hs, htext⟩ := parse_eq_ok_iff.mp h
      exact absurd htext (hnone s hs)
    | error cause =>
      unfold parse at h
      split at h <;> cases h
      rfl

theorem text_inj {s t : Signature} (hs : s.WellFormed) (ht : t.WellFormed)
    (h : s.text = t.text) : s = t := by
  have hparse := parse_eq_ok_iff.mpr ⟨hs, rfl⟩
  rw [h, parse_eq_ok_iff.mpr ⟨ht, rfl⟩] at hparse
  exact (Except.ok.inj hparse).symm

/-- The accepted texts are the written well-formed signatures, each text stands for one of them, and
a method takes as many values as its descriptor lists argument types. -/
theorem parse_inverts_text (text : String) :
    (∀ s, parse text = .ok s ↔ s.WellFormed ∧ text = s.text) ∧
    (∀ e, parse text = .error e ↔
      e = .malformedDescriptor text ∧ ∀ s : Signature, s.WellFormed → text ≠ s.text) ∧
    (∀ s t : Signature, s.WellFormed → t.WellFormed → text = s.text → text = t.text → s = t) ∧
    ∀ (m : Method) (s : Signature), m.descriptor = text → s.WellFormed → text = s.text →
      m.parameterCount = s.arguments.length := by
  refine ⟨fun s => parse_eq_ok_iff, fun e => parse_eq_error_iff, ?_, ?_⟩
  · intro s t hs ht htexts htextt
    exact text_inj hs ht (htexts.symm.trans htextt)
  · rintro m s rfl hs htext
    have hparse := parse_eq_ok_iff.mpr ⟨hs, htext⟩
    have hsignature : m.signature = s := by
      rw [m.signature_eq] at hparse
      exact Except.ok.inj hparse
    rw [Method.parameterCount, hsignature]

def arrays : Signature := ⟨[.base .long, .array (.reference "a/B")], some (.array (.base .int))⟩

def arraysMethod : Method := ⟨"f", "(J[La/B;)[I", 0, arrays, none, rfl⟩

theorem parse_inverts_text_arrays :
    arrays.WellFormed ∧ "(J[La/B;)[I" = arrays.text ∧ parse "(J[La/B;)[I" = .ok arrays ∧
      arraysMethod.descriptor = "(J[La/B;)[I" ∧ arraysMethod.parameterCount = 2 := by
  have hformed : arrays.WellFormed := by decide
  obtain ⟨hok, -, -, hcount⟩ := parse_inverts_text "(J[La/B;)[I"
  have hparse : parse "(J[La/B;)[I" = .ok arrays := (hok arrays).mpr ⟨hformed, rfl⟩
  have htwo : arraysMethod.parameterCount = 2 := hcount arraysMethod arrays rfl hformed rfl
  exact ⟨hformed, rfl, hparse, rfl, htwo⟩

end Signature
end ClassVM
