import ClassVM.Proofs.ClassFile.Nesting
import ClassVM.Proofs.ClassFile.Serialization

namespace ClassVM
open Binary Parser

theorem Attribute.readHandler_encode (h : Handler) (t : Bytes) :
    readHandler (h.encode ++ t) = .ok (h, t) := by
  rw [readHandler, Handler.encode, List.append_assoc, List.append_assoc, List.append_assoc,
    bind_ok (inFile_u16 _ h.start), bind_ok (inFile_u16 _ h.stop), bind_ok (inFile_u16 _ h.code),
    bind_ok (inFile_u16 t h.caught)]
  rfl

namespace AttributeForm
open AttributeTable (readAll)

variable {pool : ConstantPool}

/-- How the content of an attribute is read decides how the attribute is read. -/
theorem read_of_info {a : AttributeForm} {nested : FileParser AttributeTable} {text : String}
    {value : Attribute} (hname : pool.utf8 a.name = .ok text) (hlength : a.info.length < 4294967296)
    (hvalue : Attribute.ofInfo nested text a.info = .ok value) (t : Bytes) :
    Attribute.read pool nested (a.encode ++ t) = .ok ((pool.textAt a.name, value), t) := by
  have hcount : (UInt32.ofNat a.info.length).toNat = a.info.length :=
    UInt32.toNat_ofNat_of_lt' hlength
  have hlookup : ∀ s, (liftM (FormatError.ofLookup (pool.utf8 a.name)) : FileParser String) s =
      .ok (text, s) := by
    intro s
    rw [hname]
    rfl
  have hlift : (liftM (Attribute.ofInfo nested text a.info) : FileParser Attribute) t =
      .ok (value, t) := by
    rw [hvalue]
    rfl
  rw [Attribute.read, encode, List.append_assoc, List.append_assoc, bind_ok (inFile_u16 _ a.name),
    bind_ok (hlookup _), bind_ok (inFile_count32 _ hlength), bind_ok (inFile_bytes t hcount),
    bind_ok hlift, ConstantPool.textAt_eq hname]
  rfl

/-- A table is read back if all its attributes are. -/
theorem readAll_encodeTable {as : List AttributeForm} (hcount : as.length < 65536)
    (hread : ∀ a ∈ as, ∀ t, Attribute.read pool (readAll pool) (a.encode ++ t) =
      .ok ((pool.textAt a.name, a.toAttribute pool), t)) (t : Bytes) :
    readAll pool (encodeTable as ++ t) = .ok (table pool as, t) := by
  have hlength : (UInt16.ofNat as.length).toNat = as.length := UInt16.toNat_ofNat_of_lt' hcount
  rw [AttributeTable.readAll_eq, AttributeTable.readWith, encodeTable, encodeAll_eq,
    List.append_assoc, bind_ok (inFile_count16 _ hcount), hlength, bind_ok (many_flatMap hread t),
    table, named_eq]
  rfl

/-- The content of a code attribute is read back if the attributes in it are. -/
theorem readCode_info {name maxStack maxLocals : UInt16} {bytes : Bytes} {handlers : List Handler}
    {attributes : List AttributeForm} (hbytes : bytes.length < 4294967296)
    (hhandlers : handlers.length < 65536)
    (htable : readAll pool (encodeTable attributes) = .ok (table pool attributes, [])) :
    Attribute.readCode (readAll pool)
        (info (.code name maxStack maxLocals bytes handlers attributes)) =
      .ok (.code maxStack maxLocals bytes handlers (table pool attributes), []) := by
  have hlength : (UInt32.ofNat bytes.length).toNat = bytes.length :=
    UInt32.toNat_ofNat_of_lt' hbytes
  have hcount : (UInt16.ofNat handlers.length).toNat = handlers.length :=
    UInt16.toNat_ofNat_of_lt' hhandlers
  have hmany : ∀ t, Parser.many handlers.length Attribute.readHandler
      (handlers.flatMap Handler.encode ++ t) = .ok (handlers, t) :=
    many_flatMap_self fun h _ => Attribute.readHandler_encode h
  rw [Attribute.readCode, info, ← encodeTable, bind_ok (inFile_u16 _ maxStack),
    bind_ok (inFile_u16 _ maxLocals), bind_ok (inFile_count32 _ hbytes),
    bind_ok (inFile_bytes _ hlength), bind_ok (inFile_count16 _ hhandlers), hcount,
    bind_ok (hmany _), bind_ok htable]
  rfl

theorem Fits.read_encode {a : AttributeForm} (h : Fits pool a) (t : Bytes) :
    Attribute.read pool (readAll pool) (a.encode ++ t) =
      .ok ((pool.textAt a.name, a.toAttribute pool), t) := by
  induction h generalizing t with
  | code name maxStack maxLocals bytes handlers attributes hname hbytes hhandlers hcount _ hinfo ih =>
    have htable := readAll_encodeTable hcount ih []
    rw [List.append_nil] at htable
    apply read_of_info hname hinfo
    rw [Attribute.ofInfo, if_pos rfl, readCode_info hbytes hhandlers htable]
    rfl
  | constantValue name index hname =>
    apply read_of_info hname (by simp [info, octets_length])
    have hread := inFile_u16 [] index
    rw [List.append_nil] at hread
    rw [Attribute.ofInfo, if_neg (by decide), if_pos rfl, info, hread]
    rfl
  | sourceFile name index hname =>
    apply read_of_info hname (by simp [info, octets_length])
    have hread := inFile_u16 [] index
    rw [List.append_nil] at hread
    rw [Attribute.ofInfo, if_neg (by decide), if_neg (by decide), if_pos rfl, info, hread]
    rfl
  | other name bytes text hname hother hinfo =>
    apply read_of_info hname (by simpa [info] using hinfo)
    rw [Attribute.ofInfo, if_neg hother.1, if_neg hother.2.1, if_neg hother.2.2, info]
    rfl

theorem AllFit.readAll_encodeTable {as : List AttributeForm} (h : AllFit pool as) (t : Bytes) :
    readAll pool (encodeTable as ++ t) = .ok (table pool as, t) :=
  AttributeForm.readAll_encodeTable h.1 (fun a ha => (h.2 a ha).read_encode) t

end AttributeForm

namespace MemberForm

theorem readMember_encode {pool : ConstantPool} {m : MemberForm}
    (h : AttributeForm.AllFit pool m.attributes) (t : Bytes) :
    ClassFile.readMember (AttributeTable.readAll pool) (m.encode ++ t) =
      .ok (m.toMember pool, t) := by
  rw [ClassFile.readMember, encode, List.append_assoc, List.append_assoc, List.append_assoc,
    bind_ok (inFile_u16 _ m.flags), bind_ok (inFile_u16 _ m.name),
    bind_ok (inFile_u16 _ m.descriptor), bind_ok (h.readAll_encodeTable t)]
  rfl

end MemberForm

namespace ClassForm

theorem readMembers_encode {pool : ConstantPool} {members : List MemberForm}
    (hcount : members.length < 65536)
    (h : ∀ m ∈ members, AttributeForm.AllFit pool m.attributes) (t : Bytes) :
    ClassFile.readMembers (AttributeTable.readAll pool) (encodeMembers members ++ t) =
      .ok (members.map (MemberForm.toMember pool), t) := by
  have hlength : (UInt16.ofNat members.length).toNat = members.length :=
    UInt16.toNat_ofNat_of_lt' hcount
  rw [ClassFile.readMembers, encodeMembers, List.append_assoc, bind_ok (inFile_count16 _ hcount),
    hlength]
  exact many_flatMap (fun m hm => MemberForm.readMember_encode (h m hm)) t

theorem readMagic_magic (t : Bytes) :
    ClassFile.readMagic (octets 4 ClassFile.magic.toNat ++ t) = .ok ((), t) := by
  rw [ClassFile.readMagic, bind_ok (inFile_u32 t ClassFile.magic), if_pos rfl]
  rfl

theorem Fits.readAll_encode {x : ClassForm} (h : x.Fits) (t : Bytes) :
    ClassFile.readAll (x.encode ++ t) = .ok (x.toFile, t) := by
  have hcount : (UInt16.ofNat x.interfaces.length).toNat = x.interfaces.length :=
    UInt16.toNat_ofNat_of_lt' h.interfaces
  have hinterfaces : ∀ t, Parser.many x.interfaces.length (inFile Reader.u16)
      ((x.interfaces.flatMap fun index => octets 2 index.toNat) ++ t) = .ok (x.interfaces, t) :=
    many_flatMap_self fun index _ t => inFile_u16 t index
  simp only [ClassFile.readAll, ClassFile.read, encode, encodeInterfaces, List.append_assoc]
  rw [bind_ok (readMagic_magic _), bind_ok (inFile_u16 _ x.minor), bind_ok (inFile_u16 _ x.major),
    bind_ok (ConstantPool.read_encode _ h.pool), bind_ok (inFile_u16 _ x.flags),
    bind_ok (inFile_u16 _ x.thisClass), bind_ok (inFile_u16 _ x.superClass),
    bind_ok (inFile_count16 _ h.interfaces), hcount, bind_ok (hinterfaces _),
    bind_ok (readMembers_encode h.fields h.fieldAttributes _),
    bind_ok (readMembers_encode h.methods h.methodAttributes _),
    bind_ok (h.attributes.readAll_encodeTable t)]
  rfl

theorem Fits.parse_bytes {x : ClassForm} (h : x.Fits) (more : Bytes) :
    ClassFile.parse (x.encode ++ more) = .ok x.toFile := by
  rw [ClassFile.parse_eq, h.readAll_encode more]
  rfl

theorem Fits.parse_whole {x : ClassForm} (h : x.Fits) :
    ClassFile.parse x.encode = .ok x.toFile := by
  have hparse := h.parse_bytes []
  rw [List.append_nil] at hparse
  exact hparse

/-- A written class file is read back, whatever follows it. In each of its tables, on every level, a
name leads to the last attribute that was written with it. -/
theorem parse_encode (x : ClassForm) (h : x.Fits) (more : Bytes) :
    ClassFile.parse (x.encode ++ more) = .ok x.toFile ∧
      ∀ attributes name, (AttributeForm.table x.pool attributes).find? name =
        (AttributeForm.last? x.pool attributes name).map (AttributeForm.toAttribute x.pool) := by
  constructor
  · exact h.parse_bytes more
  · intro attributes name
    exact AttributeForm.find?_table x.pool attributes name

/-- A class with a long in its pool, code with an attribute in it, and two attributes of one name. -/
def nested : ClassForm where
  minor := 0
  major := 52
  pool := ⟨#[some (.utf8 "Code"), some (.long (-2)), none, some (.utf8 "A"), some (.classInfo 4)]⟩
  flags := 0x21
  thisClass := 5
  superClass := 0
  interfaces := [5]
  fields := []
  methods := [⟨8, 4, 4, [.code 1 1 0 [0xb1] [⟨0, 1, 0, 0⟩] [.other 4 [1]]]⟩]
  attributes := [.other 4 [2], .other 4 [3]]

theorem nested_fits : nested.Fits := by
  have hA : nested.pool.utf8 4 = .ok "A" := rfl
  have hother : "A" ≠ "Code" ∧ "A" ≠ "ConstantValue" ∧ "A" ≠ "SourceFile" := by decide
  have hcode : AttributeForm.Fits nested.pool
      (.code 1 1 0 [0xb1] [⟨0, 1, 0, 0⟩] [.other 4 [1]]) := by
    apply AttributeForm.Fits.code _ _ _ _ _ _ rfl
    · decide
    · decide
    · decide
    · intro a ha
      cases List.mem_singleton.mp ha
      exact .other 4 [1] "A" hA hother (by decide)
    · decide
  have hconstants : ∀ entry ∈ nested.pool.entries.toList, ∀ c ∈ entry, c.Fits := by decide
  refine ⟨⟨?_, by decide, ?_⟩, by decide, by decide, by simp [nested], by decide, ?_, by decide, ?_⟩
  · exact .narrow _ _ rfl (.wide _ _ rfl (.narrow _ _ rfl (.narrow _ _ rfl .nil)))
  · intro c hc
    exact hconstants (some c) hc c rfl
  · intro m hm
    cases List.mem_singleton.mp hm
    refine ⟨by decide, ?_⟩
    intro a ha
    cases List.mem_singleton.mp ha
    exact hcode
  · intro a ha
    rcases List.mem_cons.mp ha with rfl | ha
    · exact .other 4 [2] "A" hA hother (by decide)
    · cases List.mem_singleton.mp ha
      exact .other 4 [3] "A" hA hother (by decide)

theorem parse_encode_nested :
    nested.Fits ∧ ClassFile.parse (nested.encode ++ [0xff]) = .ok nested.toFile ∧
      nested.toFile.attributes.find? "A" = some (.other [3]) := by
  obtain ⟨hparse, hfind⟩ := parse_encode nested nested_fits [0xff]
  have hA : nested.toFile.attributes.find? "A" = some (.other [3]) :=
    hfind nested.attributes "A"
  exact ⟨nested_fits, hparse, hA⟩

end ClassForm
end ClassVM
