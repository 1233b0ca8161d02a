import ClassVM.Proofs.ClassFile.Descent
import ClassVM.Proofs.Pool.Decoding

namespace ClassVM
open Binary Parser Reader

/-- Each descent goes to bytes that are shorter by the cost of nesting than those it comes from, which are
`size` bytes for the outermost. -/
inductive Descent.Shrinks : Nat → Descent → Prop where
  | into {size : Nat} {info : Bytes} {inner : List Descent}
    (hinfo : info.length + ClassFile.nestingCost ≤ size)
    (hinner : ∀ d ∈ inner, Shrinks info.length d) : Shrinks size (.into info inner)

namespace Recorder
variable {α β : Type}

section shrinks
variable {k : Nat}

/-- All descents that are begun at `s` shrink, within `size` bytes. -/
def ShrinksAt (size : Nat) (s : Bytes) (x : Recorder α) : Prop := ∀ d ∈ (x s).2, d.Shrinks size

/-- Descents are begun `k` bytes later at the earliest. So they shrink if the other bytes that nesting
costs have been spent before. -/
def Sheds (k : Nat) (x : Recorder α) : Prop :=
  ∀ s size, s.length + ClassFile.nestingCost ≤ size + k → x.ShrinksAt size s

theorem ShrinksAt.bind {size : Nat} {s : Bytes} {x : Recorder α} {f : α → Recorder β}
    (hx : x.ShrinksAt size s)
    (hf : ∀ a rest, x.outcome s = .ok (a, rest) → (f a).ShrinksAt size rest) :
    (x >>= f).ShrinksAt size s := by
  rcases h : x s with ⟨_ | ⟨a, rest⟩, begun⟩
  · rw [ShrinksAt, bind_error h]
    rw [ShrinksAt, h] at hx
    exact hx
  · have hrest := hf a rest (congrArg Prod.fst h)
    rw [ShrinksAt, bind_ok h]
    rw [ShrinksAt, h] at hx
    exact List.forall_mem_append.mpr ⟨hx, hrest⟩

theorem shrinksAt_flat (size : Nat) (s : Bytes) (p : FileParser α) : (flat p).ShrinksAt size s :=
  List.forall_mem_nil _

theorem shrinksAt_pure (size : Nat) (s : Bytes) (a : α) : (pure a : Recorder α).ShrinksAt size s :=
  List.forall_mem_nil _

theorem ShrinksAt.map {size : Nat} {s : Bytes} {x : Recorder α} (hx : x.ShrinksAt size s) (g : α → β) :
    (x >>= fun a => pure (g a)).ShrinksAt size s := by
  apply hx.bind
  intro a rest _
  exact shrinksAt_pure size rest (g a)

theorem sheds_flat (p : FileParser α) : Sheds k (flat p) := fun s size _ => shrinksAt_flat size s p

theorem sheds_pure (a : α) : Sheds k (pure a : Recorder α) := fun s size _ => shrinksAt_pure size s a

theorem Sheds.map {x : Recorder α} (hx : Sheds k x) (g : α → β) :
    Sheds k (x >>= fun a => pure (g a)) := fun s size hsize => (hx s size hsize).map g

theorem Sheds.mono {x : Recorder α} {j : Nat} (hx : Sheds k x) (hj : j ≤ k) : Sheds j x := by
  intro s size hsize
  apply hx
  omega

/-- What is spent before the first descent is shed. -/
theorem Sheds.after {j : Nat} {p : FileParser α} {f : α → Recorder β} (hp : Spends j p)
    (hf : ∀ a, Sheds k (f a)) : Sheds (k + j) (flat p >>= f) := by
  intro s size hsize
  apply (shrinksAt_flat size s p).bind
  intro a rest ha
  apply hf
  have hspent := hp s a rest ha
  omega

theorem Sheds.bind {x : Recorder α} {f : α → Recorder β} (hx : Sheds k x)
    (hspends : Spends 0 x.outcome) (hf : ∀ a, Sheds k (f a)) : Sheds k (x >>= f) := by
  intro s size hsize
  apply (hx s size hsize).bind
  intro a rest ha
  apply hf
  have hspent := hspends s a rest ha
  omega

theorem Sheds.many {x : Recorder α} (hx : Sheds k x) (hspends : Spends 0 x.outcome) (n : Nat) :
    Sheds k (many x n) := by
  induction n with
  | zero => exact sheds_pure []
  | succ n ih =>
    apply hx.bind hspends
    intro a
    exact ih.map _

end shrinks

end Recorder

open Recorder

namespace Attribute

theorem spends_readCodeStart : Spends 10 readCodeStart := by
  apply Spends.bind (m := 8) spends_inFile_u16
  intro maxStack
  apply Spends.bind (m := 6) spends_inFile_u16
  intro maxLocals
  apply Spends.bind (m := 2) spends_inFile_u32
  intro length
  apply Spends.bind (m := 2) (streams_inFile_bytes length.toNat).spends
  intro code
  apply Spends.bind (m := 0) spends_inFile_u16
  intro count
  apply Spends.bind (m := 0) (streams_readHandler.many count.toNat).spends
  intro handlers
  exact spends_pure _

/-- The bytes of an attribute come after its name and length. -/
theorem length_of_readInfo {pool : ConstantPool} {s rest : Bytes} {found : String × Bytes}
    (h : readInfo pool s = .ok (found, rest)) : found.2.length + 6 ≤ s.length := by
  obtain ⟨index, afterIndex, hindex, h⟩ := bind_eq_ok h
  obtain ⟨name, afterName, hname, h⟩ := bind_eq_ok h
  obtain ⟨length, afterLength, hlength, h⟩ := bind_eq_ok h
  obtain ⟨info, afterInfo, hinfo, h⟩ := bind_eq_ok h
  cases h
  have hlookup : Streams FormatError.truncated
      (liftM (FormatError.ofLookup (pool.utf8 index)) : FileParser String) := streams_lift _
  have hspentIndex := spends_inFile_u16 s index afterIndex hindex
  have hspentName := hlookup.spends afterIndex name afterName hname
  have hspentLength := spends_inFile_u32 afterName length afterLength hlength
  obtain ⟨-, hinfo⟩ := of_inFile_bytes hinfo
  have hcut := congrArg List.length hinfo
  rw [List.length_append] at hcut
  change info.length + 6 ≤ s.length
  omega

section nested
variable {nested : Recorder AttributeTable}

/-- Ten bytes belong to the code attribute and eight to the table in it. -/
theorem shrinksAt_recordCode (h : Sheds 8 nested) {info : Bytes} {size : Nat}
    (hinfo : info.length + ClassFile.nestingCost ≤ size) :
    (recordCode info nested).ShrinksAt size info := by
  apply (shrinksAt_flat size info readCodeStart).bind
  intro start rest hstart
  have hspent := spends_readCodeStart info start rest hstart
  have hdescend : (descend info nested).ShrinksAt size rest := by
    intro d hd
    obtain rfl := List.mem_singleton.mp hd
    refine .into hinfo (h rest info.length ?_)
    rw [ClassFile.nestingCost]
    omega
  exact hdescend.map _

theorem shrinksAt_recordInfo (h : Sheds 8 nested) (name : String) {info : Bytes} {size : Nat}
    (hinfo : info.length + ClassFile.nestingCost ≤ size) (s : Bytes) :
    (recordInfo nested name info).ShrinksAt size s := by
  unfold recordInfo
  split
  · exact shrinksAt_recordCode h hinfo
  · exact shrinksAt_flat size s _

theorem sheds_record (pool : ConstantPool) (h : Sheds 8 nested) : Sheds 6 (record pool nested) := by
  intro s size hsize
  apply (shrinksAt_flat size s (readInfo pool)).bind
  intro found rest hfound
  have hlength := length_of_readInfo hfound
  have hinfo : found.2.length + ClassFile.nestingCost ≤ size := by omega
  exact (shrinksAt_recordInfo h found.1 hinfo rest).map _

end nested
end Attribute

namespace AttributeTable
variable (pool : ConstantPool)

theorem sheds_recordWith {nested : Recorder AttributeTable} (h : Sheds 8 nested) :
    Sheds 8 (recordWith pool nested) := by
  apply Sheds.after (k := 6) spends_inFile_u16
  intro count
  have hspends : Spends 0 (Attribute.record pool nested).outcome := by
    rw [Attribute.outcome_record]
    exact (Attribute.streams_read pool _).spends
  exact ((Attribute.sheds_record pool h).many hspends count.toNat).map _

theorem sheds_record (depth : Nat) : Sheds 8 (record pool refused depth) := by
  induction depth with
  | zero => exact sheds_recordWith pool (sheds_flat _)
  | succ depth ih =>
    rw [record_succ]
    exact sheds_recordWith pool ih

end AttributeTable

namespace ClassFile

theorem spends_readStart : Spends nestingCost readStart := by
  have hmagic : Spends 4 readMagic := by
    apply Spends.bind (m := 0) spends_inFile_u32
    intro found
    split
    · exact spends_pure ()
    · intro s a rest h
      cases h
  have hpool : Spends 2 ConstantPool.read := by
    apply Spends.bind (m := 0) spends_inFile_u16
    intro count
    apply Spends.bind (m := 0) (ConstantPool.streams_readEntries _ 1 #[]).spends
    intro entries
    exact spends_pure _
  apply Spends.bind (m := 14) hmagic
  intro _
  apply Spends.bind (m := 12) spends_inFile_u16
  intro minor
  apply Spends.bind (m := 10) spends_inFile_u16
  intro major
  apply Spends.bind (m := 8) hpool
  intro pool
  apply Spends.bind (m := 6) spends_inFile_u16
  intro flags
  apply Spends.bind (m := 4) spends_inFile_u16
  intro thisClass
  apply Spends.bind (m := 2) spends_inFile_u16
  intro superClass
  apply Spends.bind (m := 0) spends_inFile_u16
  intro count
  apply Spends.bind (m := 0) (streams_inFile_u16.many count.toNat).spends
  intro interfaces
  exact spends_pure _

section tables
variable {tables : Recorder AttributeTable} {k : Nat}

theorem sheds_recordMember (h : Sheds k tables) : Sheds k (recordMember tables) := by
  have hstart : Spends 0 readMemberStart := by
    apply Spends.bind (m := 0) streams_inFile_u16.spends
    intro flags
    apply Spends.bind (m := 0) streams_inFile_u16.spends
    intro name
    apply Spends.bind (m := 0) streams_inFile_u16.spends
    intro descriptor
    exact spends_pure _
  apply Sheds.after (k := k) hstart
  intro start
  exact h.map _

theorem sheds_recordMembers (h : Sheds k tables) (hstreams : Streams .truncated tables.outcome) :
    Sheds k (recordMembers tables) := by
  apply Sheds.after (k := k) streams_inFile_u16.spends
  intro count
  have hspends : Spends 0 (recordMember tables).outcome := by
    rw [outcome_recordMember]
    exact (streams_readMember hstreams).spends
  exact (sheds_recordMember h).many hspends count.toNat

end tables

theorem sheds_record {tables : ConstantPool → Recorder AttributeTable}
    (h : ∀ pool, Sheds 0 (tables pool)) (hstreams : ∀ pool, Streams .truncated (tables pool).outcome) :
    Sheds nestingCost (record tables) := by
  have hmembers (pool : ConstantPool) : Sheds 0 (recordMembers (tables pool)) :=
    sheds_recordMembers (h pool) (hstreams pool)
  have hspends (pool : ConstantPool) : Spends 0 (recordMembers (tables pool)).outcome := by
    rw [outcome_recordMembers]
    exact (streams_readMembers (hstreams pool)).spends
  apply Sheds.after (k := 0) spends_readStart
  intro start
  apply (hmembers start.pool).bind (hspends start.pool)
  intro fields
  apply (hmembers start.pool).bind (hspends start.pool)
  intro methods
  exact (h start.pool).map _

/-- Whether the parse succeeds or not, its descents shrink. -/
theorem shrinks_of_parseRecorded (depth : Nat) (bytes : Bytes) :
    ∀ d ∈ (parseRecorded (fun _ => AttributeTable.refused) depth bytes).2,
      d.Shrinks bytes.length := by
  have hstreams (pool : ConstantPool) :
      Streams .truncated (AttributeTable.record pool AttributeTable.refused depth).outcome := by
    rw [AttributeTable.outcome_record]
    exact AttributeTable.streams_read pool depth
  apply sheds_record (fun pool => (AttributeTable.sheds_record pool depth).mono (Nat.zero_le 8)) hstreams
  exact Nat.le_refl _

end ClassFile
end ClassVM
