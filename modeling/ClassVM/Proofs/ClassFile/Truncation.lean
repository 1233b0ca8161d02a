import ClassVM.Proofs.ClassFile.Nesting

namespace ClassVM.ClassFile
open Binary Parser

theorem parse_eq_ok_iff {bytes : Bytes} {file : ClassFile} :
    parse bytes = .ok file ↔ ∃ rest, readAll bytes = .ok (file, rest) := by
  rw [parse_eq]
  cases readAll bytes with
  | error e => simp [Except.map]
  | ok out => simp [Except.map, Prod.ext_iff]

theorem parse_eq_error_iff {bytes : Bytes} {e : FormatError} :
    parse bytes = .error e ↔ readAll bytes = .error e := by
  rw [parse_eq]
  cases readAll bytes <;> simp [Except.map]

theorem parse_of_takes {used : Bytes} {file : ClassFile}
    (h : Takes .truncated readAll used file) {bytes : Bytes}
    (hbytes : bytes.take used.length = used) : parse bytes = .ok file := by
  apply parse_eq_ok_iff.mpr
  refine ⟨bytes.drop used.length, ?_⟩
  have hsplit : used ++ bytes.drop used.length = bytes := by
    have happend := List.take_append_drop used.length bytes
    rw [hbytes] at happend
    exact happend
  have hread := h.whole (bytes.drop used.length)
  rw [hsplit] at hread
  exact hread

/-- An accepted byte string has a front that decides the outcome and of which no byte can be missed;
a refusal for another reason than a cut is final. -/
theorem parse_decided_by_front :
    (∀ bytes file, parse bytes = .ok file → ∃ k ≤ bytes.length,
      (∀ others, others.take k = bytes.take k → parse others = .ok file) ∧
      ∀ j < k, parse (bytes.take j) = .error .truncated) ∧
    ∀ bytes e, parse bytes = .error e → e ≠ .truncated →
      ∀ more, parse (bytes ++ more) = .error e := by
  constructor
  · intro bytes file h
    obtain ⟨rest, hread⟩ := parse_eq_ok_iff.mp h
    obtain ⟨used, rfl, htakes⟩ := streams_readAll.takes bytes file rest hread
    have hused : (used ++ rest).take used.length = used := List.take_left
    refine ⟨used.length, ?_, ?_, ?_⟩
    · rw [List.length_append]
      omega
    · intro others hothers
      rw [hused] at hothers
      exact parse_of_takes htakes hothers
    · intro j hj
      rw [List.take_append_of_le_length (Nat.le_of_lt hj)]
      exact parse_eq_error_iff.mpr (htakes.cut j hj)
  · intro bytes e h hne more
    rw [parse_eq_error_iff] at h ⊢
    exact streams_readAll.fails bytes e h hne more

/-- A class file with an attribute of its own and nothing else. -/
def onlyItsSource : Bytes :=
  [0xca, 0xfe, 0xba, 0xbe, 0, 0, 0, 52, 0, 2, 1, 0, 10, 83, 111, 117, 114, 99, 101, 70, 105, 108, 101,
    0, 0x21, 0, 0, 0, 0, 0, 0, 0, 0, 0, 0, 0, 1, 0, 1, 0, 0, 0, 2, 0, 1]

def onlyItsSourceFile : ClassFile :=
  ⟨0, 52, ⟨#[some (.utf8 "SourceFile")]⟩, 0x21, 0, 0, [], [], [], [("SourceFile", .sourceFile 1)]⟩

theorem parse_decided_by_front_source :
    parse onlyItsSource = .ok onlyItsSourceFile ∧
    (∃ k ≤ onlyItsSource.length,
      (∀ others, others.take k = onlyItsSource.take k → parse others = .ok onlyItsSourceFile) ∧
      ∀ j < k, parse (onlyItsSource.take j) = .error .truncated) ∧
    parse [0xde, 0xad, 0xbe, 0xef] = .error (.badMagic 0xdeadbeef) ∧
    FormatError.badMagic 0xdeadbeef ≠ .truncated ∧
    parse ([0xde, 0xad, 0xbe, 0xef] ++ onlyItsSource) = .error (.badMagic 0xdeadbeef) := by
  have hfile : parse onlyItsSource = .ok onlyItsSourceFile := rfl
  have hbad : parse [0xde, 0xad, 0xbe, 0xef] = .error (.badMagic 0xdeadbeef) := rfl
  have hne : FormatError.badMagic 0xdeadbeef ≠ .truncated := by decide
  refine ⟨hfile, ?_, hbad, hne, ?_⟩
  · exact parse_decided_by_front.1 onlyItsSource onlyItsSourceFile hfile
  · exact parse_decided_by_front.2 [0xde, 0xad, 0xbe, 0xef] _ hbad hne onlyItsSource

end ClassVM.ClassFile
