import ClassVM.Proofs.ClassFile.Sources
import ClassVM.Proofs.Loading.Search
import ClassVM.Proofs.Machine.Alike

namespace ClassVM

namespace Log

/-- The log without what the search for class files reports. -/
def withoutSearch (log : Log) : Log :=
  { log with newest := log.newest.filter fun e => !e.isSearch }

/-- The logs tell the same but for the search for class files. -/
def SameButSearch (log log' : Log) : Prop := log.withoutSearch = log'.withoutSearch

theorem withoutSearch_record_search (log : Log) {e : Event} (h : e.isSearch = true) :
    (log.record e).withoutSearch = log.withoutSearch := by
  unfold record
  split
  · simp [withoutSearch, h]
  · rfl

theorem withoutSearch_record_other (log : Log) {e : Event} (h : e.isSearch = false) :
    (log.record e).withoutSearch = log.withoutSearch.record e := by
  have hlevel : log.withoutSearch.level = log.level := rfl
  rw [record, record, hlevel]
  split
  · simp [withoutSearch, h]
  · rfl

theorem sameButSearch_congruent : Congruent SameButSearch := by
  intro log log' h e
  unfold SameButSearch at h ⊢
  cases he : e.isSearch with
  | true => rw [withoutSearch_record_search log he, withoutSearch_record_search log' he, h]
  | false => rw [withoutSearch_record_other log he, withoutSearch_record_other log' he, h]

theorem withoutSearch_recordAll_search (log : Log) {events : List Event}
    (h : ∀ e ∈ events, e.isSearch = true) :
    (log.recordAll events).withoutSearch = log.withoutSearch := by
  induction events generalizing log with
  | nil => rfl
  | cons e events ih =>
    have hrest := ih (log.record e) fun e he => h e (List.mem_cons_of_mem _ he)
    exact hrest.trans (log.withoutSearch_record_search (h e List.mem_cons_self))

end Log

namespace Machine

/-- The machine with a log that tells nothing of the search for class files. -/
def withoutSearch (m : Machine) : Machine := { m with log := m.log.withoutSearch }

theorem withoutSearch_eq_iff {m n : Machine} :
    m.withoutSearch = n.withoutSearch ↔ m.Alike Log.SameButSearch n := by
  obtain ⟨mainClass, store, calls, console, log⟩ := m
  obtain ⟨_, _, _, _, log'⟩ := n
  simp only [withoutSearch, Machine.mk.injEq]
  constructor
  · rintro ⟨rfl, rfl, rfl, rfl, hlog⟩
    exact ⟨rfl, rfl, rfl, rfl, hlog⟩
  · rintro ⟨hmain, hstore, hcalls, hconsole, hlog⟩
    exact ⟨hmain, hstore, hcalls, hconsole, hlog⟩

end Machine

namespace Loader

/-- The first readable file for a class in the order of the class path. -/
def fileOf? (files : FileSystem) (path : ClassPath) (name : String) : Option Bytes :=
  path.entries.findSome? fun entry => (files.readFile (classFilePath entry name)).toOption

theorem search_answer (files : FileSystem) (name : String) (entries : List String) :
    (search files name entries).answer =
      match entries.findSome? fun entry => (files.readFile (classFilePath entry name)).toOption with
      | none => .ok none
      | some bytes => (defineClass bytes).map some := by
  induction entries with
  | nil => rfl
  | cons entry entries ih =>
    rw [search, List.findSome?_cons]
    cases files.readFile (classFilePath entry name) with
    | error reason => exact ih
    | ok bytes => rfl

theorem defineClass_encode {c : ClassSource} {x : ClassForm} (hx : x.Describes c) (hfits : x.Fits) :
    defineClass x.encode = c.build := by
  rw [defineClass, hfits.parse_whole, ← hx.toClass_eq]
  rfl

end Loader

/-- The classes of a program, each under the name by which it is asked for. -/
abbrev Program := List (String × ClassSource)

namespace Program
open Loader

/-- What a program with this main class can ask for: that class, and the owners of all methods that
its pools refer to. -/
inductive Asks (program : Program) (mainClass : String) : String → Prop where
  | main : Asks program mainClass (ClassName.internal mainClass)
  | call (name : String) (c : ClassSource) (index : UInt16) (ref : MemberRef)
    (hc : (name, c) ∈ program) (href : c.pool.methodRef index = .ok ref) :
    Asks program mainClass (ClassName.internal ref.className)

/-- All classes of the program can be built, and these are the classes. -/
def Builds (program : Program) (classes : List (String × LoadedClass)) : Prop :=
  List.Forall₂ (fun source built => source.1 = built.1 ∧ source.2.build = .ok built.2)
    program classes

/-- On the class path there is a class file for every class of the program, and none for another
class that the program can ask for. -/
structure Stored (program : Program) (mainClass : String) (files : FileSystem)
    (path : ClassPath) : Prop where
  present : ∀ name c, program.lookup name = some c →
    ∃ x : ClassForm, x.Describes c ∧ x.Fits ∧ fileOf? files path name = some x.encode
  absent : ∀ name, program.Asks mainClass name → program.lookup name = none →
    fileOf? files path name = none

variable {program : Program} {classes : List (String × LoadedClass)}

theorem Builds.lookup (h : program.Builds classes) (name : String) :
    (program.lookup name = none ∧ classes.lookup name = none) ∨
      ∃ c built, program.lookup name = some c ∧ classes.lookup name = some built ∧
        c.build = .ok built := by
  induction h with
  | nil => exact .inl ⟨rfl, rfl⟩
  | @cons source built program classes hhead _ ih =>
    obtain ⟨hname, hbuild⟩ := hhead
    rw [List.lookup_cons, List.lookup_cons, ← hname]
    cases h : name == source.1 with
    | true => exact .inr ⟨source.2, built.2, rfl, rfl, hbuild⟩
    | false => exact ih

theorem Builds.asks_of_gives (h : program.Builds classes) (mainClass : String) {c : LoadedClass}
    (hc : (ofClasses classes).Gives c) {index : UInt16} {ref : MemberRef}
    (href : c.pool.methodRef index = .ok ref) :
    program.Asks mainClass (ClassName.internal ref.className) := by
  obtain ⟨_, name, hanswer⟩ := hc
  have hfound : classes.lookup name = some c := Except.ok.inj hanswer
  rcases h.lookup name with ⟨-, hclasses⟩ | ⟨source, built, hsource, hclasses, hbuild⟩
  · rw [hclasses] at hfound
    cases hfound
  · rw [hclasses] at hfound
    cases hfound
    rw [ClassSource.pool_of_build hbuild] at href
    exact .call name source index ref (mem_of_lookup hsource) href

end Program
end ClassVM
