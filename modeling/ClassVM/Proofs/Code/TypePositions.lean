import ClassVM.Proofs.Code.Descriptor

namespace ClassVM

namespace FieldType

/-- The end of every class name in the type can be seen: it is not empty and has no semicolon. -/
def Delimited : FieldType → Prop
  | base _ => True
  | reference name => name ≠ "" ∧ ';' ∉ name.toList
  | array component => component.Delimited

instance decidableDelimited : (t : FieldType) → Decidable t.Delimited
  | base _ => .isTrue trivial
  | reference name => inferInstanceAs (Decidable (name ≠ "" ∧ ';' ∉ name.toList))
  | array component => decidableDelimited component

theorem avoids_iff {barred : Char} (hmark : barred ∉ marks) {t : FieldType} :
    t.Avoids barred ↔ t.Delimited ∧ barred ∉ t.chars := by
  constructor
  · intro h
    refine ⟨?_, barred_not_mem_chars hmark h⟩
    induction t with
    | base kind => trivial
    | reference name => exact ⟨h.1, h.2.1⟩
    | array component ih => exact ih h
  · rintro ⟨hdelimited, hbarred⟩
    induction t with
    | base kind => trivial
    | reference name =>
      refine ⟨hdelimited.1, hdelimited.2, fun hname => hbarred ?_⟩
      simp [chars, hname]
    | array component ih => exact ih hdelimited (List.not_mem_of_not_mem_cons hbarred)

/-- The text is the written form of the type, and it can be read back where nothing else forbids it. -/
def Writes (t : FieldType) (text : String) : Prop := text.toList = t.chars ∧ t.Delimited

instance (t : FieldType) (text : String) : Decidable (t.Writes text) :=
  inferInstanceAs (Decidable (_ ∧ _))

theorem avoids_and_chars_iff {barred : Char} (hmark : barred ∉ marks) {t : FieldType}
    {text : String} :
    t.Avoids barred ∧ text.toList = t.chars ↔ t.Writes text ∧ barred ∉ text.toList := by
  rw [avoids_iff hmark]
  constructor
  · rintro ⟨⟨hdelimited, hbarred⟩, hchars⟩
    exact ⟨⟨hchars, hdelimited⟩, hchars ▸ hbarred⟩
  · rintro ⟨⟨hchars, hdelimited⟩, hbarred⟩
    exact ⟨⟨hdelimited, hchars ▸ hbarred⟩, hchars⟩

end FieldType

namespace Signature
variable {text : String} {t : FieldType}

/-- The parenthesis that ends the arguments stands before the type. -/
theorem parse_result_iff :
    parse ("()" ++ text) = .ok ⟨[], some t⟩ ↔ t.Writes text ∧ '\n' ∉ text.toList := by
  have hformed : WellFormed ⟨[], some t⟩ ↔ t.Avoids '\n' := by simp [WellFormed]
  have htext : "()" ++ text = Signature.text ⟨[], some t⟩ ↔ text.toList = t.chars := by
    rw [← String.toList_inj, Signature.text, String.toList_ofList, chars_eq]
    simp [resultChars]
  rw [parse_eq_ok_iff, hformed, htext]
  exact FieldType.avoids_and_chars_iff (by decide)

/-- The parenthesis that ends the arguments stands behind the type. -/
theorem parse_argument_iff :
    parse ("(" ++ text ++ ")V") = .ok ⟨[t], none⟩ ↔ t.Writes text ∧ ')' ∉ text.toList := by
  have hformed : WellFormed ⟨[t], none⟩ ↔ t.Avoids ')' := by simp [WellFormed]
  have htext : "(" ++ text ++ ")V" = Signature.text ⟨[t], none⟩ ↔ text.toList = t.chars := by
    rw [← String.toList_inj, Signature.text, String.toList_ofList, chars_eq]
    simp [resultChars]
  rw [parse_eq_ok_iff, hformed, htext]
  exact FieldType.avoids_and_chars_iff (by decide)

/-- A type is read alike as an argument and as a result, unless it has a closing parenthesis or a line
break in it. -/
theorem positions_agree (text : String) (t : FieldType) :
    let asResult := parse ("()" ++ text) = .ok ⟨[], some t⟩
    let asArgument := parse ("(" ++ text ++ ")V") = .ok ⟨[t], none⟩
    (asResult ↔ t.Writes text ∧ '\n' ∉ text.toList) ∧
    (asArgument ↔ t.Writes text ∧ ')' ∉ text.toList) ∧
    ('\n' ∉ text.toList → ')' ∉ text.toList → (asResult ↔ asArgument)) ∧
    ((asResult ↔ asArgument) ↔
      (t.Writes text → ('\n' ∈ text.toList ↔ ')' ∈ text.toList))) := by
  intro asResult asArgument
  have hresult : asResult ↔ t.Writes text ∧ '\n' ∉ text.toList := parse_result_iff
  have hargument : asArgument ↔ t.Writes text ∧ ')' ∉ text.toList := parse_argument_iff
  refine ⟨hresult, hargument, ?_, ?_⟩
  · intro hline hclose
    rw [hresult, hargument, and_iff_left hline, and_iff_left hclose]
  · rw [hresult, hargument, and_congr_right_iff]
    exact forall_congr' fun _ => not_iff_not

theorem positions_agree_array :
    '\n' ∉ "[La/B;".toList ∧ ')' ∉ "[La/B;".toList ∧
      parse "()[La/B;" = .ok ⟨[], some (.array (.reference "a/B"))⟩ ∧
      parse "([La/B;)V" = .ok ⟨[.array (.reference "a/B")], none⟩ := by
  have hline : '\n' ∉ "[La/B;".toList := by decide
  have hclose : ')' ∉ "[La/B;".toList := by decide
  obtain ⟨hresult, -, hsame, -⟩ := positions_agree "[La/B;" (.array (.reference "a/B"))
  have hread := hresult.mpr ⟨by decide, hline⟩
  exact ⟨hline, hclose, hread, (hsame hline hclose).mp hread⟩

/-- The class `A)` is read as a result and not as an argument; with a line break in the place of the
parenthesis it is the other way round. -/
theorem positions_disagree :
    parse ("()" ++ "LA);") = .ok ⟨[], some (.reference "A)")⟩ ∧
    parse ("(" ++ "LA);" ++ ")V") = .error (.malformedDescriptor "(LA);)V") ∧
    parse ("(" ++ "LA\n;" ++ ")V") = .ok ⟨[.reference "A\n"], none⟩ ∧
    parse ("()" ++ "LA\n;") = .error (.malformedDescriptor "()LA\n;") ∧
    ¬∀ text t, parse ("()" ++ text) = .ok ⟨[], some t⟩ ↔
      parse ("(" ++ text ++ ")V") = .ok ⟨[t], none⟩ := by
  have hresult : parse ("()" ++ "LA);") = .ok ⟨[], some (.reference "A)")⟩ := rfl
  have hargument : parse ("(" ++ "LA);" ++ ")V") = .error (.malformedDescriptor "(LA);)V") := rfl
  refine ⟨hresult, hargument, rfl, rfl, ?_⟩
  intro hagree
  have hread := (hagree _ _).mp hresult
  rw [hargument] at hread
  cases hread

end Signature
end ClassVM
