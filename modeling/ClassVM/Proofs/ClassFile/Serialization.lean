import ClassVM.ClassFile.Parsing
import ClassVM.Proofs.Pool.Encoding

namespace ClassVM
open Binary

/-- The text in a slot, or the empty text where there is none. -/
def ConstantPool.textAt (pool : ConstantPool) (index : UInt16) : String :=
  match pool.utf8 index with
  | .ok text => text
  | .error _ => ""

theorem ConstantPool.textAt_eq {pool : ConstantPool} {index : UInt16} {text : String}
    (h : pool.utf8 index = .ok text) : pool.textAt index = text := by
  rw [textAt, h]

def Handler.encode (h : Handler) : Bytes :=
  octets 2 h.start.toNat ++ (octets 2 h.stop.toNat ++
    (octets 2 h.code.toNat ++ octets 2 h.caught.toNat))

/-- An attribute as it is written. -/
inductive AttributeForm where
  | code (name maxStack maxLocals : UInt16) (bytes : Bytes) (handlers : List Handler)
      (attributes : List AttributeForm)
  | constantValue (name index : UInt16)
  | sourceFile (name index : UInt16)
  | other (name : UInt16) (info : Bytes)

namespace AttributeForm

def name : AttributeForm → UInt16
  | code name _ _ _ _ _ | constantValue name _ | sourceFile name _ | other name _ => name

-- Structural recursion through the list of nested attributes needs a function for lists beside the
-- one for attributes.
mutual

/-- The bytes of an attribute after its name and length. -/
def info : AttributeForm → Bytes
  | code _ maxStack maxLocals bytes handlers attributes =>
    octets 2 maxStack.toNat ++ (octets 2 maxLocals.toNat ++ (octets 4 bytes.length ++ (bytes ++
      (octets 2 handlers.length ++ (handlers.flatMap Handler.encode ++
        (octets 2 attributes.length ++ encodeAll attributes))))))
  | constantValue _ index | sourceFile _ index => octets 2 index.toNat
  | other _ info => info

def encodeAll : List AttributeForm → Bytes
  | [] => []
  | a :: as =>
    (octets 2 a.name.toNat ++ (octets 4 a.info.length ++ a.info)) ++ encodeAll as

end

def encode (a : AttributeForm) : Bytes :=
  octets 2 a.name.toNat ++ (octets 4 a.info.length ++ a.info)

theorem encodeAll_eq (as : List AttributeForm) : encodeAll as = as.flatMap encode := by
  induction as with
  | nil => rfl
  | cons a as ih => rw [encodeAll, ih, List.flatMap_cons, encode]

/-- The bytes of a table. -/
def encodeTable (as : List AttributeForm) : Bytes := octets 2 as.length ++ encodeAll as

mutual

/-- The attribute that a form stands for. -/
def toAttribute (pool : ConstantPool) : AttributeForm → Attribute
  | code _ maxStack maxLocals bytes handlers attributes =>
    .code maxStack maxLocals bytes handlers (named pool attributes).reverse
  | constantValue _ index => .constantValue index
  | sourceFile _ index => .sourceFile index
  | other _ info => .other info

def named (pool : ConstantPool) : List AttributeForm → List (String × Attribute)
  | [] => []
  | a :: as => (pool.textAt a.name, a.toAttribute pool) :: named pool as

end

theorem named_eq (pool : ConstantPool) (as : List AttributeForm) :
    named pool as = as.map fun a => (pool.textAt a.name, a.toAttribute pool) := by
  induction as with
  | nil => rfl
  | cons a as ih => rw [named, ih, List.map_cons]

/-- The table that a list of forms stands for. -/
def table (pool : ConstantPool) (as : List AttributeForm) : AttributeTable :=
  (named pool as).reverse

/-- The last attribute of this name. -/
def last? (pool : ConstantPool) (as : List AttributeForm) (name : String) : Option AttributeForm :=
  (as.filter fun a => pool.textAt a.name = name).getLast?

theorem find?_table (pool : ConstantPool) (as : List AttributeForm) (name : String) :
    (table pool as).find? name = (last? pool as name).map (toAttribute pool) := by
  induction as with
  | nil => rfl
  | cons a as ih =>
    have hcons : table pool (a :: as) =
        table pool as ++ [(pool.textAt a.name, a.toAttribute pool)] := by
      simp [table, named]
    have hfind : (table pool (a :: as)).find? name =
        ((table pool as).find? name).or
          (List.lookup name [(pool.textAt a.name, a.toAttribute pool)]) := by
      rw [hcons, AttributeTable.find?, List.lookup_append]
      rfl
    rw [hfind, ih]
    by_cases hname : pool.textAt a.name = name
    · have hlast : last? pool (a :: as) name = (last? pool as name).or (some a) := by
        simp only [last?]
        rw [List.filter_cons_of_pos (by simpa using hname), List.getLast?_cons]
        cases (as.filter fun a => pool.textAt a.name = name).getLast? <;> rfl
      rw [hlast]
      cases last? pool as name <;> simp [hname]
    · have hlast : last? pool (a :: as) name = last? pool as name := by
        simp only [last?]
        rw [List.filter_cons_of_neg (by simpa using hname)]
      rw [hlast]
      cases last? pool as name <;> simp [List.lookup_cons, beq_eq_false_iff_ne.mpr (Ne.symm hname)]

/-- The attribute can stand in a class file with this pool: it has a name, those with a known name
are of its kind, and its lengths are not longer than their fields can say. -/
inductive Fits (pool : ConstantPool) : AttributeForm → Prop where
  | code (name maxStack maxLocals : UInt16) (bytes : Bytes) (handlers : List Handler)
    (attributes : List AttributeForm) (hname : pool.utf8 name = .ok "Code")
    (hbytes : bytes.length < 4294967296) (hhandlers : handlers.length < 65536)
    (hcount : attributes.length < 65536) (hattributes : ∀ a ∈ attributes, Fits pool a)
    (hinfo : (info (.code name maxStack maxLocals bytes handlers attributes)).length < 4294967296) :
    Fits pool (.code name maxStack maxLocals bytes handlers attributes)
  | constantValue (name index : UInt16) (hname : pool.utf8 name = .ok "ConstantValue") :
    Fits pool (.constantValue name index)
  | sourceFile (name index : UInt16) (hname : pool.utf8 name = .ok "SourceFile") :
    Fits pool (.sourceFile name index)
  | other (name : UInt16) (info : Bytes) (text : String) (hname : pool.utf8 name = .ok text)
    (hother : text ≠ "Code" ∧ text ≠ "ConstantValue" ∧ text ≠ "SourceFile")
    (hinfo : info.length < 4294967296) : Fits pool (.other name info)

/-- A list of attributes that can stand in a class file. -/
def AllFit (pool : ConstantPool) (as : List AttributeForm) : Prop :=
  as.length < 65536 ∧ ∀ a ∈ as, Fits pool a

end AttributeForm

/-- A field or a method as it is written. -/
structure MemberForm where
  flags : UInt16
  name : UInt16
  descriptor : UInt16
  attributes : List AttributeForm

namespace MemberForm

def encode (m : MemberForm) : Bytes :=
  octets 2 m.flags.toNat ++ (octets 2 m.name.toNat ++ (octets 2 m.descriptor.toNat ++
    AttributeForm.encodeTable m.attributes))

def toMember (pool : ConstantPool) (m : MemberForm) : Member :=
  ⟨m.flags, m.name, m.descriptor, AttributeForm.table pool m.attributes⟩

end MemberForm

/-- A class file as it is written. -/
structure ClassForm where
  minor : UInt16
  major : UInt16
  pool : ConstantPool
  flags : UInt16
  thisClass : UInt16
  superClass : UInt16
  interfaces : List UInt16
  fields : List MemberForm
  methods : List MemberForm
  attributes : List AttributeForm

namespace ClassForm

def encodeMembers (members : List MemberForm) : Bytes :=
  octets 2 members.length ++ members.flatMap MemberForm.encode

def encodeInterfaces (interfaces : List UInt16) : Bytes :=
  octets 2 interfaces.length ++ interfaces.flatMap fun index => octets 2 index.toNat

def encode (x : ClassForm) : Bytes :=
  octets 4 ClassFile.magic.toNat ++ (octets 2 x.minor.toNat ++ (octets 2 x.major.toNat ++
    (x.pool.encode ++ (octets 2 x.flags.toNat ++ (octets 2 x.thisClass.toNat ++
      (octets 2 x.superClass.toNat ++ (encodeInterfaces x.interfaces ++
        (encodeMembers x.fields ++ (encodeMembers x.methods ++
          AttributeForm.encodeTable x.attributes)))))))))

/-- The class file that a form stands for. -/
def toFile (x : ClassForm) : ClassFile where
  minor := x.minor
  major := x.major
  pool := x.pool
  flags := x.flags
  thisClass := x.thisClass
  superClass := x.superClass
  interfaces := x.interfaces
  fields := x.fields.map (MemberForm.toMember x.pool)
  methods := x.methods.map (MemberForm.toMember x.pool)
  attributes := AttributeForm.table x.pool x.attributes

/-- All parts are within what the format can say. -/
structure Fits (x : ClassForm) : Prop where
  pool : x.pool.Fits
  interfaces : x.interfaces.length < 65536
  fields : x.fields.length < 65536
  fieldAttributes : ∀ m ∈ x.fields, AttributeForm.AllFit x.pool m.attributes
  methods : x.methods.length < 65536
  methodAttributes : ∀ m ∈ x.methods, AttributeForm.AllFit x.pool m.attributes
  attributes : AttributeForm.AllFit x.pool x.attributes

end ClassForm
end ClassVM
