import ClassVM.Pool.Lookup

namespace ClassVM

/-- Whether a constant is what was expected. -/
def Expected.accepts : Expected → Constant → Bool
  | .utf8, .utf8 _ => true
  | .classInfo, .classInfo _ => true
  | .nameAndType, .nameAndType .. => true
  | .method, .method .. => true
  | .method, .interfaceMethod .. => true
  | .field, .field .. => true
  | .integer, .integer _ => true
  | .loadable, _ => true
  | _, _ => false

/-- The two kinds of members that a pool refers to. -/
inductive MemberKind where
  | method
  | field
  deriving DecidableEq, Repr

def MemberKind.expected : MemberKind → Expected
  | method => .method
  | field => .field

/-- The owner and the name-and-type in a reference of this kind. -/
def MemberKind.parts? : MemberKind → Constant → Option (UInt16 × UInt16)
  | method, .method owner nameAndType => some (owner, nameAndType)
  | method, .interfaceMethod owner nameAndType => some (owner, nameAndType)
  | field, .field owner nameAndType => some (owner, nameAndType)
  | _, _ => none

/-- The links from the slot of a reference to the texts that name its member. -/
inductive Link where
  | reference
  | owner
  | ownerName
  | nameAndType
  | name
  | descriptor
  deriving DecidableEq, Repr

namespace Link

def inOrder : List Link := [reference, owner, ownerName, nameAndType, name, descriptor]

/-- The links that are followed before this one. -/
def before (link : Link) : List Link := inOrder.takeWhile (· ≠ link)

theorem before_total {link other : Link} (h : link ≠ other) :
    link ∈ other.before ∨ other ∈ link.before := by
  cases link <;> cases other <;> first | exact absurd rfl h | decide

/-- What a link leads to in a reference to a member of this kind. -/
def expected (kind : MemberKind) : Link → Expected
  | reference => kind.expected
  | owner => .classInfo
  | nameAndType => .nameAndType
  | ownerName | name | descriptor => .utf8

end Link

namespace ConstantPool
variable (pool : ConstantPool)

/-- The slot exists and holds a constant of the expected kind. -/
def Holds (expected : Expected) (index : UInt16) : Prop :=
  ∃ c, pool.constant? index = some c ∧ expected.accepts c = true

/-- The owner and the name-and-type of the reference in a slot. -/
def reference? (kind : MemberKind) (index : UInt16) : Option (UInt16 × UInt16) :=
  (pool.constant? index).bind kind.parts?

def classLink? (index : UInt16) : Option UInt16 :=
  match pool.constant? index with
  | some (.classInfo name) => some name
  | _ => none

def nameLinks? (index : UInt16) : Option (UInt16 × UInt16) :=
  match pool.constant? index with
  | some (.nameAndType name descriptor) => some (name, descriptor)
  | _ => none

/-- The slot that a link of the reference at `index` leads to, if the links to it can be followed. -/
def target? (kind : MemberKind) (index : UInt16) : Link → Option UInt16
  | .reference => some index
  | .owner => (pool.reference? kind index).map Prod.fst
  | .ownerName => do
    let (owner, _) ← pool.reference? kind index
    pool.classLink? owner
  | .nameAndType => (pool.reference? kind index).map Prod.snd
  | .name => do
    let (_, nameAndType) ← pool.reference? kind index
    (pool.nameLinks? nameAndType).map Prod.fst
  | .descriptor => do
    let (_, nameAndType) ← pool.reference? kind index
    (pool.nameLinks? nameAndType).map Prod.snd

/-- The link leads to a constant of the kind that is expected there. -/
def Sound (kind : MemberKind) (index : UInt16) (link : Link) : Prop :=
  ∃ slot, pool.target? kind index link = some slot ∧ pool.Holds (link.expected kind) slot

/-- The reference in a slot is to this member. -/
def Names (kind : MemberKind) (index : UInt16) (ref : MemberRef) : Prop :=
  ∃ c owner nameAndType ownerName name descriptor,
    pool.constant? index = some c ∧ kind.parts? c = some (owner, nameAndType) ∧
    pool.constant? owner = some (.classInfo ownerName) ∧
    pool.constant? ownerName = some (.utf8 ref.className) ∧
    pool.constant? nameAndType = some (.nameAndType name descriptor) ∧
    pool.constant? name = some (.utf8 ref.name) ∧
    pool.constant? descriptor = some (.utf8 ref.descriptor)

/-- The error is about the first link that is not sound: all links before it are, and the slot it leads
to does not exist or does not hold what is expected. -/
structure Blames (kind : MemberKind) (index : UInt16) (link : Link) (e : PoolError) : Prop where
  target : pool.target? kind index link = some e.index
  expected : e.expected = link.expected kind
  broken : ¬pool.Holds e.expected e.index
  before : ∀ earlier ∈ link.before, pool.Sound kind index earlier

variable {pool}
variable {kind : MemberKind} {index : UInt16} {ref : MemberRef} {e : PoolError}

theorem utf8_cases (pool : ConstantPool) (index : UInt16) :
    (∃ text, pool.constant? index = some (.utf8 text) ∧ pool.utf8 index = .ok text) ∨
      ¬pool.Holds .utf8 index ∧ pool.utf8 index = .error ⟨index, .utf8⟩ := by
  unfold utf8
  split
  next text h => exact .inl ⟨text, h, rfl⟩
  next hother =>
    refine .inr ⟨?_, rfl⟩
    rintro ⟨c, hc, haccepts⟩
    cases c <;> cases haccepts
    exact hother _ hc

theorem className_cases (pool : ConstantPool) (index : UInt16) :
    (∃ name, pool.constant? index = some (.classInfo name) ∧
        pool.className index = pool.utf8 name) ∨
      ¬pool.Holds .classInfo index ∧ pool.className index = .error ⟨index, .classInfo⟩ := by
  unfold className
  split
  next name h => exact .inl ⟨name, h, rfl⟩
  next hother =>
    refine .inr ⟨?_, rfl⟩
    rintro ⟨c, hc, haccepts⟩
    cases c <;> cases haccepts
    exact hother _ hc

theorem nameAndType_cases (pool : ConstantPool) (index : UInt16) :
    (∃ name descriptor, pool.constant? index = some (.nameAndType name descriptor) ∧
        pool.nameAndType index = do return (← pool.utf8 name, ← pool.utf8 descriptor)) ∨
      ¬pool.Holds .nameAndType index ∧
        pool.nameAndType index = .error ⟨index, .nameAndType⟩ := by
  unfold nameAndType
  split
  next name descriptor h => exact .inl ⟨name, descriptor, h, rfl⟩
  next hother =>
    refine .inr ⟨?_, rfl⟩
    rintro ⟨c, hc, haccepts⟩
    cases c <;> cases haccepts
    exact hother _ _ hc

/-- The member that a reference of this kind in a slot is to. -/
def memberRef (pool : ConstantPool) (kind : MemberKind) (index : UInt16) :
    Except PoolError MemberRef :=
  match kind with
  | .method => pool.methodRef index
  | .field => pool.fieldRef index

theorem memberRef_cases (pool : ConstantPool) (kind : MemberKind) (index : UInt16) :
    (∃ owner nameAndType, pool.reference? kind index = some (owner, nameAndType) ∧
        pool.Holds kind.expected index ∧
        pool.memberRef kind index = pool.member owner nameAndType) ∨
      ¬pool.Holds kind.expected index ∧
        pool.memberRef kind index = .error ⟨index, kind.expected⟩ := by
  cases hc : pool.constant? index with
  | none =>
    right
    refine ⟨by simp [Holds, hc], ?_⟩
    cases kind <;> simp [memberRef, methodRef, fieldRef, hc, MemberKind.expected]
  | some c =>
    cases kind <;> cases c
    case method.method | method.interfaceMethod | field.field =>
      exact .inl ⟨_, _, by rw [reference?, hc]; rfl, ⟨_, hc, rfl⟩,
        by simp [memberRef, methodRef, fieldRef, hc]⟩
    all_goals
      refine .inr ⟨?_, by simp [memberRef, methodRef, fieldRef, hc, MemberKind.expected]⟩
      rintro ⟨c, hother, haccepts⟩
      cases hc.symm.trans hother
      cases haccepts

/-- One more sound link before the next one. -/
theorem sound_before {link : Link} (next : Link) (hnext : next.before = link.before ++ [link])
    (hbefore : ∀ earlier ∈ link.before, pool.Sound kind index earlier)
    (hlink : pool.Sound kind index link) :
    ∀ earlier ∈ next.before, pool.Sound kind index earlier := by
  rw [hnext]
  exact List.forall_mem_append.mpr ⟨hbefore, List.forall_mem_singleton.mpr hlink⟩

section links
variable {owner nameAndType : UInt16}

/-- The links to the name of the owner, followed after the reference itself. -/
theorem className_outcome (href : pool.reference? kind index = some (owner, nameAndType))
    (hbefore : ∀ earlier ∈ Link.owner.before, pool.Sound kind index earlier) :
    (∃ ownerName text, pool.constant? owner = some (.classInfo ownerName) ∧
        pool.constant? ownerName = some (.utf8 text) ∧ pool.className owner = .ok text ∧
        ∀ earlier ∈ Link.nameAndType.before, pool.Sound kind index earlier) ∨
      ∃ e link, pool.className owner = .error e ∧ pool.Blames kind index link e := by
  have howner : pool.target? kind index .owner = some owner := by simp [target?, href]
  rcases pool.className_cases owner with ⟨ownerName, hclass, hname⟩ | ⟨hbroken, herror⟩
  case inr => exact .inr ⟨_, .owner, herror, howner, rfl, hbroken, hbefore⟩
  have hbefore := sound_before .ownerName rfl hbefore ⟨owner, howner, _, hclass, rfl⟩
  have htarget : pool.target? kind index .ownerName = some ownerName := by
    simp [target?, href, classLink?, hclass]
  rcases pool.utf8_cases ownerName with ⟨text, htext, hok⟩ | ⟨hbroken, herror⟩
  case inr =>
    exact .inr ⟨_, .ownerName, hname.trans herror, htarget, rfl, hbroken, hbefore⟩
  exact .inl ⟨ownerName, text, hclass, htext, hname.trans hok,
    sound_before .nameAndType rfl hbefore ⟨ownerName, htarget, _, htext, rfl⟩⟩

/-- The links to the name and the descriptor, followed after those to the name of the owner. -/
theorem nameAndType_outcome (href : pool.reference? kind index = some (owner, nameAndType))
    (hbefore : ∀ earlier ∈ Link.nameAndType.before, pool.Sound kind index earlier) :
    (∃ name descriptor texts, pool.constant? nameAndType = some (.nameAndType name descriptor) ∧
        pool.constant? name = some (.utf8 texts.1) ∧
        pool.constant? descriptor = some (.utf8 texts.2) ∧
        pool.nameAndType nameAndType = .ok texts) ∨
      ∃ e link, pool.nameAndType nameAndType = .error e ∧ pool.Blames kind index link e := by
  have hpair : pool.target? kind index .nameAndType = some nameAndType := by simp [target?, href]
  rcases pool.nameAndType_cases nameAndType with
    ⟨name, descriptor, hboth, heq⟩ | ⟨hbroken, herror⟩
  case inr => exact .inr ⟨_, .nameAndType, herror, hpair, rfl, hbroken, hbefore⟩
  have hbefore := sound_before .name rfl hbefore ⟨nameAndType, hpair, _, hboth, rfl⟩
  have hfirst : pool.target? kind index .name = some name := by
    simp [target?, href, nameLinks?, hboth]
  rcases pool.utf8_cases name with ⟨nameText, hname, hok⟩ | ⟨hbroken, herror⟩
  case inr =>
    refine .inr ⟨⟨name, .utf8⟩, .name, ?_, hfirst, rfl, hbroken, hbefore⟩
    rw [heq, herror]
    rfl
  have hbefore := sound_before .descriptor rfl hbefore ⟨name, hfirst, _, hname, rfl⟩
  have hsecond : pool.target? kind index .descriptor = some descriptor := by
    simp [target?, href, nameLinks?, hboth]
  rcases pool.utf8_cases descriptor with ⟨text, htext, hok'⟩ | ⟨hbroken, herror⟩
  case inr =>
    refine .inr ⟨⟨descriptor, .utf8⟩, .descriptor, ?_, hsecond, rfl, hbroken, hbefore⟩
    rw [heq, hok, herror]
    rfl
  refine .inl ⟨name, descriptor, (nameText, text), hboth, hname, htext, ?_⟩
  rw [heq, hok, hok']
  rfl

end links

/-- Either the reference names a member and this is found, or a link is at fault and it is blamed. -/
theorem memberRef_outcome (pool : ConstantPool) (kind : MemberKind) (index : UInt16) :
    (∃ ref, pool.memberRef kind index = .ok ref ∧ pool.Names kind index ref) ∨
      ∃ e link, pool.memberRef kind index = .error e ∧ pool.Blames kind index link e := by
  -- `hbefore` grows by a link at every stage, so that whichever link fails finds all before it sound.
  have hbefore : ∀ earlier ∈ Link.reference.before, pool.Sound kind index earlier := by
    simp [Link.before, Link.inOrder]
  rcases pool.memberRef_cases kind index with
    ⟨owner, nameAndType, href, hholds, hmember⟩ | ⟨hbroken, herror⟩
  case inr => exact .inr ⟨_, .reference, herror, rfl, rfl, hbroken, hbefore⟩
  have hbefore := sound_before .owner rfl hbefore ⟨index, rfl, hholds⟩
  rcases className_outcome href hbefore with
    ⟨ownerName, className, howner, hownerName, hclass, hbefore⟩ | ⟨e, link, herror, hblames⟩
  case inr =>
    refine .inr ⟨e, link, ?_, hblames⟩
    rw [hmember, member, herror]
    rfl
  rcases nameAndType_outcome href hbefore with
    ⟨name, descriptor, texts, hboth, hname, hdescriptor, hpair⟩ | ⟨e, link, herror, hblames⟩
  case inr =>
    refine .inr ⟨e, link, ?_, hblames⟩
    rw [hmember, member, hclass, herror]
    rfl
  obtain ⟨c, hc, hparts⟩ := Option.bind_eq_some_iff.mp href
  refine .inl ⟨⟨className, texts.1, texts.2⟩, ?_, c, owner, nameAndType, ownerName, name,
    descriptor, hc, hparts, howner, hownerName, hboth, hname, hdescriptor⟩
  rw [hmember, member, hclass, hpair]
  rfl

theorem Names.sound (h : pool.Names kind index ref) (link : Link) :
    pool.Sound kind index link := by
  obtain ⟨c, owner, nameAndType, ownerName, name, descriptor, hc, hparts, howner, hownerName, hboth,
    hname, hdescriptor⟩ := h
  have href : pool.reference? kind index = some (owner, nameAndType) :=
    Option.bind_eq_some_iff.mpr ⟨c, hc, hparts⟩
  cases link with
  | reference =>
    refine ⟨index, rfl, c, hc, ?_⟩
    cases kind <;> cases c <;> first | rfl | cases hparts
  | owner => exact ⟨owner, by simp [target?, href], _, howner, rfl⟩
  | ownerName => exact ⟨ownerName, by simp [target?, href, classLink?, howner], _, hownerName, rfl⟩
  | nameAndType => exact ⟨nameAndType, by simp [target?, href], _, hboth, rfl⟩
  | name => exact ⟨name, by simp [target?, href, nameLinks?, hboth], _, hname, rfl⟩
  | descriptor =>
    exact ⟨descriptor, by simp [target?, href, nameLinks?, hboth], _, hdescriptor, rfl⟩

theorem Names.unique {ref' : MemberRef} (h : pool.Names kind index ref)
    (h' : pool.Names kind index ref') : ref = ref' := by
  obtain ⟨c, owner, nameAndType, ownerName, name, descriptor, hc, hparts, howner, hownerName, hboth,
    hname, hdescriptor⟩ := h
  obtain ⟨c', _, _, _, _, _, hc', hparts', howner', hownerName', hboth', hname', hdescriptor'⟩ := h'
  cases hc.symm.trans hc'
  cases hparts.symm.trans hparts'
  cases howner.symm.trans howner'
  cases hboth.symm.trans hboth'
  cases ref
  cases ref'
  cases hownerName.symm.trans hownerName'
  cases hname.symm.trans hname'
  cases hdescriptor.symm.trans hdescriptor'
  rfl

theorem Blames.not_sound {link : Link} (h : pool.Blames kind index link e) :
    ¬pool.Sound kind index link := by
  rintro ⟨slot, htarget, hholds⟩
  cases h.target.symm.trans htarget
  rw [← h.expected] at hholds
  exact h.broken hholds

theorem Blames.unique {e' : PoolError} {link link' : Link} (h : pool.Blames kind index link e)
    (h' : pool.Blames kind index link' e') : e = e' := by
  by_cases hlink : link = link'
  · subst hlink
    obtain ⟨slot, expected⟩ := e
    obtain ⟨slot', expected'⟩ := e'
    cases h.target.symm.trans h'.target
    cases h.expected.trans h'.expected.symm
    rfl
  · rcases Link.before_total hlink with hbefore | hbefore
    · exact absurd (h'.before _ hbefore) h.not_sound
    · exact absurd (h.before _ hbefore) h'.not_sound

theorem memberRef_eq_ok_iff (kind : MemberKind) :
    pool.memberRef kind index = .ok ref ↔ pool.Names kind index ref := by
  rcases pool.memberRef_outcome kind index with
    ⟨found, hok, hnames⟩ | ⟨e, link, herror, hblames⟩
  · rw [hok, Except.ok.injEq]
    exact ⟨fun h => h ▸ hnames, hnames.unique⟩
  · rw [herror]
    exact ⟨fun h => (nomatch h), fun h => absurd (h.sound link) hblames.not_sound⟩

theorem memberRef_eq_error_iff (kind : MemberKind) :
    pool.memberRef kind index = .error e ↔ ∃ link, pool.Blames kind index link e := by
  rcases pool.memberRef_outcome kind index with
    ⟨ref, hok, hnames⟩ | ⟨fault, link, herror, hblames⟩
  · rw [hok]
    exact ⟨fun h => (nomatch h), fun ⟨link, h⟩ => absurd (hnames.sound link) h.not_sound⟩
  · rw [herror, Except.error.injEq]
    exact ⟨fun h => ⟨link, h ▸ hblames⟩, fun ⟨_, h⟩ => hblames.unique h⟩

/-- A reference is found if and only if its links lead to what they should; otherwise the first link that
does not is at fault, and the error names it. -/
theorem resolution_blames_first_link (pool : ConstantPool) (index : UInt16) :
    (∀ ref, pool.methodRef index = .ok ref ↔ pool.Names .method index ref) ∧
    (∀ e, pool.methodRef index = .error e ↔ ∃ link, pool.Blames .method index link e) ∧
    (∀ ref, pool.fieldRef index = .ok ref ↔ pool.Names .field index ref) ∧
    ∀ e, pool.fieldRef index = .error e ↔ ∃ link, pool.Blames .field index link e := by
  refine ⟨?_, ?_, ?_, ?_⟩
  · exact fun ref => memberRef_eq_ok_iff .method
  · exact fun e => memberRef_eq_error_iff .method
  · exact fun ref => memberRef_eq_ok_iff .field
  · exact fun e => memberRef_eq_error_iff .field

/-- A reference that is its own owner. -/
example : methodRef ⟨#[some (.method 1 1)]⟩ 1 = .error ⟨1, .classInfo⟩ := rfl

end ConstantPool
end ClassVM
