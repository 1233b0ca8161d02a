import ClassVM.Code.LoadedClass
import ClassVM.Proofs.ClassFile.RoundTrip
import Mathlib.Data.List.Forall2

namespace ClassVM

/-- Code as bytes, with the sizes that it declares. -/
structure CodeSource where
  maxStack : UInt16
  maxLocals : UInt16
  bytes : Bytes

/-- A method. One without code is native or abstract. -/
structure MethodSource where
  name : String
  descriptor : String
  flags : UInt16
  code : Option CodeSource

def MethodSource.build (m : MethodSource) : Except FormatError Method :=
  match m.code with
  | some code => Method.ofCode m.name m.descriptor m.flags code.maxStack code.maxLocals code.bytes
  | none => Method.withoutCode m.name m.descriptor m.flags

/-- A class that has no super class. -/
structure ClassSource where
  name : String
  pool : ConstantPool
  methods : List MethodSource

/-- The class, if all its methods can be built. -/
def ClassSource.build (c : ClassSource) : Except FormatError LoadedClass := do
  let methods ← c.methods.mapM MethodSource.build
  return ⟨c.name, none, c.pool, methods⟩

/-- The attribute is code with these bytes and sizes. Handlers and attributes of code play no part
in a run. -/
inductive AttributeForm.Describes : AttributeForm → CodeSource → Prop where
  | code (name maxStack maxLocals : UInt16) (bytes : Bytes) (handlers : List Handler)
    (attributes : List AttributeForm) :
    Describes (.code name maxStack maxLocals bytes handlers attributes) ⟨maxStack, maxLocals, bytes⟩

/-- The member stands for the method. It has a code attribute exactly if the method has code. -/
structure MemberForm.Describes (pool : ConstantPool) (m : MemberForm) (s : MethodSource) :
    Prop where
  flags : m.flags = s.flags
  name : pool.utf8 m.name = .ok s.name
  descriptor : pool.utf8 m.descriptor = .ok s.descriptor
  code : Option.Rel AttributeForm.Describes (AttributeForm.last? pool m.attributes "Code") s.code

/-- The class file stands for the class. Versions, flags, interfaces, fields and attributes of the
class are free. -/
structure ClassForm.Describes (x : ClassForm) (c : ClassSource) : Prop where
  pool : x.pool = c.pool
  name : x.pool.className x.thisClass = .ok c.name
  superClass : x.superClass = 0
  methods : List.Forall₂ (MemberForm.Describes x.pool) x.methods c.methods

namespace MemberForm

theorem Describes.toMethod_eq {pool : ConstantPool} {m : MemberForm} {s : MethodSource}
    (h : m.Describes pool s) : (m.toMember pool).toMethod pool = s.build := by
  obtain ⟨name, descriptor, flags, code⟩ := s
  obtain ⟨hflags, hname, hdescriptor, hcode⟩ := h
  cases hflags
  have hfind := AttributeForm.find?_table pool m.attributes "Code"
  simp only [Member.toMethod, toMember, hname, hdescriptor, hfind]
  generalize AttributeForm.last? pool m.attributes "Code" = found at hcode
  cases hcode with
  | none => rfl
  | some ha =>
    cases ha
    rfl

end MemberForm

namespace ClassForm

/-- The methods are built one after another from either description, so they stop at the same one. -/
theorem mapM_toMethod {pool : ConstantPool} {members : List MemberForm}
    {methods : List MethodSource} (h : List.Forall₂ (MemberForm.Describes pool) members methods) :
    (members.map (MemberForm.toMember pool)).mapM (Member.toMethod pool) =
      methods.mapM MethodSource.build := by
  induction h with
  | nil => rfl
  | cons hm _ ih => rw [List.map_cons, List.mapM_cons, List.mapM_cons, hm.toMethod_eq, ih]

theorem Describes.toClass_eq {x : ClassForm} {c : ClassSource} (h : x.Describes c) :
    x.toFile.toClass = c.build := by
  have hname : x.toFile.className = .ok c.name := h.name
  have hsuper : x.toFile.superName = .ok none := by
    rw [ClassFile.superName, toFile, if_pos h.superClass]
  have hmethods : x.toFile.methods.mapM (Member.toMethod x.toFile.pool) =
      c.methods.mapM MethodSource.build := mapM_toMethod h.methods
  have hpool : x.toFile.pool = c.pool := h.pool
  rw [ClassFile.toClass, hname, hsuper, hmethods, hpool, ClassSource.build]
  cases c.methods.mapM MethodSource.build <;> rfl

end ClassForm

namespace MethodSource

theorem mapM_build_ok {sources : List MethodSource} {methods : List Method}
    (h : List.Forall₂ (fun s m => s.build = .ok m) sources methods) :
    sources.mapM build = .ok methods := by
  induction h with
  | nil => rfl
  | cons hm _ ih =>
    rw [List.mapM_cons, hm, ih]
    rfl

/-- The first method that cannot be built decides. -/
theorem mapM_build_error {before after : List MethodSource} {s : MethodSource} {e : FormatError}
    (hbefore : ∀ b ∈ before, ∃ m, b.build = .ok m) (hs : s.build = .error e) :
    (before ++ s :: after).mapM build = .error e := by
  induction before with
  | nil =>
    rw [List.nil_append, List.mapM_cons, hs]
    rfl
  | cons b before ih =>
    obtain ⟨m, hm⟩ := hbefore b List.mem_cons_self
    have hrest := ih fun b hb => hbefore b (List.mem_cons_of_mem _ hb)
    rw [List.cons_append, List.mapM_cons, hm, hrest]
    rfl

end MethodSource

namespace ConstantPool

/-- The first slot from which a lookup leads to this text. -/
def slotOf (pool : ConstantPool) (lookup : UInt16 → Except PoolError String) (text : String) :
    UInt16 :=
  UInt16.ofNat (((List.range pool.size).find? fun i => lookup (.ofNat i) = .ok text).getD 0)

theorem lookup_slotOf {pool : ConstantPool} {lookup : UInt16 → Except PoolError String}
    {index : UInt16} {text : String} (h : lookup index = .ok text)
    (hlt : index.toNat < pool.size) : lookup (pool.slotOf lookup text) = .ok text := by
  have hsome : ((List.range pool.size).find? fun i => lookup (.ofNat i) = .ok text).isSome := by
    rw [List.find?_isSome]
    exact ⟨index.toNat, List.mem_range.mpr hlt, by simpa using h⟩
  obtain ⟨i, hi⟩ := Option.isSome_iff_exists.mp hsome
  have hfound := List.find?_some hi
  rw [slotOf, hi]
  simpa using hfound

theorem lt_size_of_constant? {pool : ConstantPool} {index : UInt16} {c : Constant}
    (h : pool.constant? index = some c) : index.toNat < pool.size := by
  rw [constant?, slot?] at h
  rw [size]
  split at h
  next h0 => omega
  next i hi =>
    have hentry : pool.entries[i]? = some (some c) := Option.join_eq_some_iff.mp h
    have hlt := (Array.getElem?_eq_some_iff.mp hentry).1
    omega

theorem utf8_slotOf {pool : ConstantPool} {text : String}
    (h : ∃ index, pool.utf8 index = .ok text) :
    pool.utf8 (pool.slotOf pool.utf8 text) = .ok text := by
  obtain ⟨index, hindex⟩ := h
  apply lookup_slotOf hindex
  rw [utf8] at hindex
  split at hindex
  next found hfound => exact lt_size_of_constant? hfound
  next => cases hindex

theorem className_slotOf {pool : ConstantPool} {name : String}
    (h : ∃ index, pool.className index = .ok name) :
    pool.className (pool.slotOf pool.className name) = .ok name := by
  obtain ⟨index, hindex⟩ := h
  apply lookup_slotOf hindex
  rw [className] at hindex
  split at hindex
  next found hfound => exact lt_size_of_constant? hfound
  next => cases hindex

end ConstantPool

/-- The code attribute, without handlers and attributes. -/
def CodeSource.toForm (pool : ConstantPool) (code : CodeSource) : AttributeForm :=
  .code (pool.slotOf pool.utf8 "Code") code.maxStack code.maxLocals code.bytes [] []

namespace MethodSource

/-- The method as it is written. -/
def toForm (pool : ConstantPool) (s : MethodSource) : MemberForm where
  flags := s.flags
  name := pool.slotOf pool.utf8 s.name
  descriptor := pool.slotOf pool.utf8 s.descriptor
  attributes := (s.code.map (CodeSource.toForm pool)).toList

/-- The method can be written. A code attribute has 12 bytes beside the code. -/
structure Writable (pool : ConstantPool) (s : MethodSource) : Prop where
  name : ∃ index, pool.utf8 index = .ok s.name
  descriptor : ∃ index, pool.utf8 index = .ok s.descriptor
  bytes : ∀ code ∈ s.code, code.bytes.length + 12 < 4294967296

variable {pool : ConstantPool} {s : MethodSource}

theorem Writable.describes (h : s.Writable pool) (hcode : ∃ index, pool.utf8 index = .ok "Code") :
    (s.toForm pool).Describes pool s := by
  refine ⟨rfl, ConstantPool.utf8_slotOf h.name, ConstantPool.utf8_slotOf h.descriptor, ?_⟩
  have htext := ConstantPool.textAt_eq (ConstantPool.utf8_slotOf hcode)
  rw [toForm]
  cases s.code with
  | none => exact .none
  | some code =>
    have hlast : AttributeForm.last? pool [code.toForm pool] "Code" = some (code.toForm pool) := by
      simp [AttributeForm.last?, CodeSource.toForm, AttributeForm.name, htext]
    rw [Option.map_some, Option.toList_some, hlast]
    exact .some (.code _ _ _ _ _ _)

theorem Writable.fits (h : s.Writable pool) (hcode : ∃ index, pool.utf8 index = .ok "Code") :
    AttributeForm.AllFit pool (s.toForm pool).attributes := by
  rw [toForm]
  cases hs : s.code with
  | none => simp [AttributeForm.AllFit]
  | some code =>
    have hlength := h.bytes code hs
    have hfits : AttributeForm.Fits pool (code.toForm pool) := by
      apply AttributeForm.Fits.code _ _ _ _ _ _ (ConstantPool.utf8_slotOf hcode)
      · omega
      · simp
      · simp
      · simp
      · simp only [AttributeForm.info, Binary.octets_length, List.length_append, List.flatMap_nil,
          AttributeForm.encodeAll, List.length_nil]
        omega
    simpa [AttributeForm.AllFit] using hfits

end MethodSource

namespace ClassSource

/-- The class as it is written. -/
def toForm (c : ClassSource) : ClassForm where
  minor := 0
  major := 52
  pool := c.pool
  flags := 0
  thisClass := c.pool.slotOf c.pool.className c.name
  superClass := 0
  interfaces := []
  fields := []
  methods := c.methods.map (MethodSource.toForm c.pool)
  attributes := []

/-- The class can be written: its pool holds all that is named by index, and nothing is longer than
the format can say. -/
structure Writable (c : ClassSource) : Prop where
  pool : c.pool.Fits
  name : ∃ index, c.pool.className index = .ok c.name
  code : ∃ index, c.pool.utf8 index = .ok "Code"
  count : c.methods.length < 65536
  methods : ∀ s ∈ c.methods, s.Writable c.pool

theorem Writable.describes {c : ClassSource} (h : c.Writable) : c.toForm.Describes c := by
  refine ⟨rfl, ConstantPool.className_slotOf h.name, rfl, ?_⟩
  rw [toForm, List.forall₂_map_left_iff, List.forall₂_same]
  intro s hs
  exact (h.methods s hs).describes h.code

theorem Writable.fits {c : ClassSource} (h : c.Writable) : c.toForm.Fits := by
  have hempty : AttributeForm.AllFit c.pool [] := by simp [AttributeForm.AllFit]
  have hcount : c.toForm.methods.length < 65536 := by simpa [toForm] using h.count
  refine ⟨h.pool, by simp [toForm], by simp [toForm], by simp [toForm], hcount, ?_, hempty⟩
  intro m hm
  obtain ⟨s, hs, rfl⟩ := List.mem_map.mp hm
  exact (h.methods s hs).fits h.code

theorem build_eq_ok {c : ClassSource} {methods : List Method}
    (h : List.Forall₂ (fun s m => s.build = .ok m) c.methods methods) :
    c.build = .ok ⟨c.name, none, c.pool, methods⟩ := by
  rw [build, MethodSource.mapM_build_ok h]
  rfl

theorem build_eq_error {c : ClassSource} {before after : List MethodSource} {s : MethodSource}
    {e : FormatError} (hmethods : c.methods = before ++ s :: after)
    (hbefore : ∀ b ∈ before, ∃ m, b.build = .ok m) (hs : s.build = .error e) :
    c.build = .error e := by
  rw [build, hmethods, MethodSource.mapM_build_error hbefore hs]
  rfl

theorem pool_of_build {c : ClassSource} {built : LoadedClass} (h : c.build = .ok built) :
    built.pool = c.pool := by
  unfold build at h
  cases hmethods : c.methods.mapM MethodSource.build with
  | error e =>
    rw [hmethods] at h
    cases h
  | ok methods =>
    rw [hmethods] at h
    cases h
    rfl

end ClassSource
end ClassVM
