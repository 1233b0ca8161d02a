import ClassVM.Proofs.ClassFile.Depth

namespace ClassVM
open Binary Parser Reader

-- As for descents, recursion through a list needs a function for lists of its own.
mutual

/-- How many code attributes are nested in each other, this attribute included. -/
def Attribute.nesting : Attribute → Nat
  | .code _ _ _ _ attributes => AttributeTable.nesting attributes + 1
  | .constantValue _ | .sourceFile _ | .other _ => 0

def AttributeTable.nesting : List (String × Attribute) → Nat
  | [] => 0
  | (_, a) :: table => max a.nesting (AttributeTable.nesting table)

end

def Member.nesting (m : Member) : Nat := AttributeTable.nesting m.attributes

/-- How many code attributes are nested in each other anywhere in the class file. -/
def ClassFile.nesting (file : ClassFile) : Nat :=
  max (deepest Member.nesting file.fields)
    (max (deepest Member.nesting file.methods) (AttributeTable.nesting file.attributes))

theorem AttributeTable.nesting_eq (table : AttributeTable) :
    nesting table = deepest (fun entry => entry.2.nesting) table := by
  induction table with
  | nil => rfl
  | cons entry table ih => rw [nesting, deepest, ih]

namespace Recorder
variable {α β : Type}

/-- If the recorder gives `a`, then `depth a` is the nesting of all descents it has begun, with `before`
of others. -/
def Deepens (before : Nat) (depth : α → Nat) (x : Recorder α) : Prop :=
  ∀ s a rest begun, x s = (.ok (a, rest), begun) → max before (Descent.nestingAll begun) = depth a

section deepens
variable {before : Nat} {depth : β → Nat}

theorem deepens_pure {b : β} (h : before = depth b) : Deepens before depth (pure b : Recorder β) := by
  intro s a rest begun ha
  cases ha
  rw [Descent.nestingAll, Nat.max_zero, h]

theorem Deepens.bind {w : α → Nat} {x : Recorder α} {f : α → Recorder β} (hx : Deepens 0 w x)
    (hf : ∀ a, Deepens (max before (w a)) depth (f a)) : Deepens before depth (x >>= f) := by
  intro s b rest begun hb
  rcases h : x s with ⟨_ | ⟨a, middle⟩, first⟩
  · rw [bind_error h] at hb
    cases hb
  · rw [bind_ok h] at hb
    obtain ⟨hresult, rfl⟩ := Prod.mk.inj hb
    have hfirst := hx s a middle first h
    have hsecond := hf a middle b rest (f a middle).2 (Prod.ext hresult rfl)
    rw [Descent.nestingAll_eq, deepest_append, ← Descent.nestingAll_eq, ← Descent.nestingAll_eq]
    omega

theorem Deepens.after {p : FileParser α} {f : α → Recorder β} (hf : ∀ a, Deepens before depth (f a)) :
    Deepens before depth (flat p >>= f) := by
  have hflat : Deepens 0 (fun _ => 0) (flat p) := by
    intro s a rest begun ha
    obtain ⟨-, rfl⟩ := Prod.mk.inj ha
    rfl
  apply hflat.bind
  intro a
  rw [Nat.max_zero]
  exact hf a

theorem Deepens.many {w : α → Nat} {x : Recorder α} (hx : Deepens 0 w x) (n : Nat) :
    Deepens 0 (deepest w) (many x n) := by
  induction n with
  | zero => exact deepens_pure rfl
  | succ n ih =>
    apply hx.bind
    intro a
    apply ih.bind
    intro as
    apply deepens_pure
    rw [deepest, Nat.zero_max]

theorem Deepens.map {w : α → Nat} {x : Recorder α} (hx : Deepens 0 w x) {g : α → β}
    (hg : ∀ a, max before (w a) = depth (g a)) :
    Deepens before depth (x >>= fun a => pure (g a)) :=
  hx.bind fun a => deepens_pure (hg a)

/-- Where no result descends, none is deep. -/
theorem deepens_flat {w : α → Nat} {p : FileParser α} (h : ∀ s a rest, p s = .ok (a, rest) → w a = 0) :
    Deepens 0 w (flat p) := by
  intro s a rest begun ha
  obtain ⟨hresult, rfl⟩ := Prod.mk.inj ha
  rw [h s a rest hresult]
  rfl

theorem Deepens.descend {w : α → Nat} {x : Recorder α} (hx : Deepens 0 w x) (info : Bytes) :
    Deepens 0 (fun a => w a + 1) (descend info x) := by
  intro s a rest begun ha
  obtain ⟨hresult, rfl⟩ := Prod.mk.inj ha
  have hinner := hx s a rest (x s).2 (Prod.ext hresult rfl)
  rw [Nat.zero_max] at hinner
  rw [Descent.nestingAll, Descent.nestingAll, Descent.nesting, hinner, Nat.max_zero, Nat.zero_max]

theorem Deepens.inside {w : α → Nat} {x : Recorder α} (hx : Deepens 0 w x) (info : Bytes) :
    Deepens 0 w (inside info x) := by
  intro s a rest begun ha
  rcases h : x info with ⟨_ | ⟨b, last⟩, inner⟩
  · rw [Recorder.inside, h] at ha
    cases ha
  · rw [Recorder.inside, h] at ha
    cases ha
    exact hx info b last inner h

end deepens
end Recorder

open Recorder

namespace Attribute
variable {nested : Recorder AttributeTable}

/-- Code attributes are the only ones with attributes in them. -/
theorem nesting_of_ofInfo {nested : FileParser AttributeTable} {name : String} {info : Bytes}
    {value : Attribute} (hname : name ≠ "Code") (h : ofInfo nested name info = .ok value) :
    value.nesting = 0 := by
  unfold ofInfo at h
  rw [if_neg hname] at h
  split at h
  · cases hread : inFile u16 info <;> rw [hread] at h <;> cases h
    rfl
  · split at h
    · cases hread : inFile u16 info <;> rw [hread] at h <;> cases h
      rfl
    · cases h
      rfl

theorem deepens_recordInfo (h : Deepens 0 AttributeTable.nesting nested) (name : String)
    (info : Bytes) : Deepens 0 nesting (recordInfo nested name info) := by
  unfold recordInfo
  split
  · apply Deepens.inside
    apply Deepens.after
    intro start
    apply (h.descend info).map
    intro attributes
    exact Nat.zero_max _
  · next hname =>
    apply deepens_flat
    intro s value rest hvalue
    cases hinfo : ofInfo nested.outcome name info with
    | error e =>
      rw [hinfo] at hvalue
      cases hvalue
    | ok found =>
      rw [hinfo] at hvalue
      cases hvalue
      exact nesting_of_ofInfo hname hinfo

theorem deepens_record (pool : ConstantPool) (h : Deepens 0 AttributeTable.nesting nested) :
    Deepens 0 (fun entry => entry.2.nesting) (record pool nested) := by
  apply Deepens.after
  intro found
  apply (deepens_recordInfo h found.1 found.2).map
  intro value
  exact Nat.zero_max _

end Attribute

namespace AttributeTable
variable (pool : ConstantPool)

theorem deepens_recordWith {nested : Recorder AttributeTable} (h : Deepens 0 nesting nested) :
    Deepens 0 nesting (recordWith pool nested) := by
  apply Deepens.after
  intro count
  apply ((Attribute.deepens_record pool h).many count.toNat).map
  intro attributes
  rw [nesting_eq, deepest_reverse, Nat.zero_max]

theorem deepens_record (depth : Nat) : Deepens 0 nesting (record pool refused depth) := by
  induction depth with
  | zero =>
    apply deepens_recordWith
    apply deepens_flat
    intro s table rest h
    cases h
  | succ depth ih =>
    rw [record_succ]
    exact deepens_recordWith pool ih

end AttributeTable

namespace ClassFile

theorem deepens_recordMembers {tables : Recorder AttributeTable}
    (h : Deepens 0 AttributeTable.nesting tables) :
    Deepens 0 (deepest Member.nesting) (recordMembers tables) := by
  have hmember : Deepens 0 Member.nesting (recordMember tables) := by
    apply Deepens.after
    intro start
    apply h.map
    intro attributes
    exact Nat.zero_max _
  apply Deepens.after
  intro count
  exact hmember.many count.toNat

theorem deepens_record {tables : ConstantPool → Recorder AttributeTable}
    (h : ∀ pool, Deepens 0 AttributeTable.nesting (tables pool)) : Deepens 0 nesting (record tables) := by
  apply Deepens.after
  intro start
  apply (deepens_recordMembers (h start.pool)).bind
  intro fields
  apply (deepens_recordMembers (h start.pool)).bind
  intro methods
  apply (h start.pool).map
  intro attributes
  rw [nesting, Nat.zero_max, Nat.max_assoc]

/-- In an accepted class file code attributes are nested as deep as the descents that were made to read
it. -/
theorem nesting_of_parse {bytes : Bytes} {file : ClassFile} (h : parse bytes = .ok file) :
    file.nesting = Descent.nestingAll
      (parseRecorded (fun _ => AttributeTable.refused) (bytes.length / nestingCost) bytes).2 := by
  rw [← parseRecorded_fst] at h
  let depth := bytes.length / nestingCost
  let tables := fun pool => AttributeTable.record pool AttributeTable.refused depth
  have hdeepens : Deepens 0 nesting (record tables) :=
    deepens_record fun pool => AttributeTable.deepens_record pool depth
  rcases hout : record tables bytes with ⟨out, begun⟩
  have hrecorded : parseRecorded (fun _ => AttributeTable.refused) depth bytes =
      (out.map Prod.fst, begun) := congrArg (fun x => (x.1.map Prod.fst, x.2)) hout
  rw [hrecorded] at h ⊢
  cases out with
  | error e => cases h
  | ok found =>
    cases h
    have hnesting := hdeepens bytes found.1 found.2 begun hout
    rw [Nat.zero_max] at hnesting
    exact hnesting.symm

/-- Each table in a code attribute is read from 18 bytes less at least than surround it, so the recursion
ends of its own, and nesting of depth `d` costs `18 * d` bytes. -/
theorem nesting_bounded (bytes : Bytes) (innermost : ConstantPool → Recorder AttributeTable) (depth : Nat)
    (hdepth : bytes.length / 18 ≤ depth) :
    (parseRecorded innermost depth bytes).1 = parse bytes ∧
    (∀ d ∈ (parseRecorded innermost depth bytes).2,
      d.Shrinks bytes.length ∧ d.nesting ≤ bytes.length / 18) ∧
    ∀ file, parse bytes = .ok file →
      file.nesting = Descent.nestingAll (parseRecorded innermost depth bytes).2 ∧
      18 * file.nesting ≤ bytes.length := by
  have hshrinks := shrinks_of_parseRecorded (bytes.length / nestingCost) bytes
  rw [parseRecorded_settled hdepth]
  refine ⟨parseRecorded_fst bytes, ?_, ?_⟩
  · intro d hd
    exact ⟨hshrinks d hd, (hshrinks d hd).nesting_le⟩
  · intro file h
    have hnesting := nesting_of_parse h
    refine ⟨hnesting, ?_⟩
    have hle : file.nesting ≤ bytes.length / 18 := by
      rw [hnesting, Descent.nestingAll_eq]
      exact deepest_le fun d hd => (hshrinks d hd).nesting_le
    omega

/-- A class file with a method whose code attribute has another one in it. -/
def codeInCode : Bytes :=
  [0xca, 0xfe, 0xba, 0xbe, 0, 0, 0, 52, 0, 2, 1, 0, 4, 67, 111, 100, 101, 0, 0x21, 0, 0, 0, 0, 0, 0, 0, 0,
    0, 1, 0, 8, 0, 1, 0, 1, 0, 1, 0, 1, 0, 0, 0, 30, 0, 0, 0, 0, 0, 0, 0, 0, 0, 0, 0, 1, 0, 1, 0, 0, 0, 12,
    0, 0, 0, 0, 0, 0, 0, 0, 0, 0, 0, 0, 0, 0]

def codeInCodeFile : ClassFile :=
  ⟨0, 52, ⟨#[some (.utf8 "Code")]⟩, 0x21, 0, 0, [], [],
    [⟨8, 1, 1, [("Code", .code 0 0 [] [] [("Code", .code 0 0 [] [] [])])]⟩], []⟩

/-- Without its last byte the class file is refused, but only after all descents. -/
theorem nesting_bounded_twice :
    let inner : Bytes := List.replicate 12 0
    let outer : Bytes := List.replicate 10 0 ++ [0, 1, 0, 1, 0, 0, 0, 12] ++ inner
    codeInCode.length / 18 = 4 ∧ codeInCode.dropLast.length / 18 ≤ 7 ∧
    parse codeInCode = .ok codeInCodeFile ∧
    codeInCodeFile.nesting = 2 ∧ 18 * codeInCodeFile.nesting ≤ codeInCode.length ∧
    ∀ innermost,
      parseRecorded innermost 4 codeInCode = (.ok codeInCodeFile, [.into outer [.into inner []]]) ∧
      parseRecorded innermost 7 codeInCode.dropLast =
        (.error .truncated, [.into outer [.into inner []]]) ∧
      ∀ d ∈ (parseRecorded innermost 7 codeInCode.dropLast).2, d.Shrinks 74 ∧ d.nesting ≤ 4 := by
  intro inner outer
  have hdepth : codeInCode.length / 18 = 4 := by decide
  have hcut : codeInCode.dropLast.length / 18 ≤ 7 := by decide
  have hwhole (innermost : ConstantPool → Recorder AttributeTable) :
      parseRecorded innermost 4 codeInCode = (.ok codeInCodeFile, [.into outer [.into inner []]]) := rfl
  have hparts := nesting_bounded codeInCode (fun _ => AttributeTable.refused) 4 (Nat.le_of_eq hdepth)
  rw [hwhole] at hparts
  obtain ⟨hparse, -, haccepted⟩ := hparts
  obtain ⟨hnesting, hcost⟩ := haccepted codeInCodeFile hparse.symm
  refine ⟨hdepth, hcut, hparse.symm, hnesting, hcost, ?_⟩
  intro innermost
  exact ⟨hwhole innermost, rfl, (nesting_bounded codeInCode.dropLast innermost 7 hcut).2.1⟩

end ClassFile
end ClassVM
