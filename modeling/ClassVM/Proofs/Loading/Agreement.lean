import ClassVM.Proofs.Programs.Pair

namespace ClassVM
open Loader

namespace Program
variable {program : Program} {classes : List (String × LoadedClass)}

theorem Builds.alike {mainClass : String} {files : FileSystem} {path : ClassPath}
    (h : program.Builds classes) (hstored : program.Stored mainClass files path) :
    (ofClassPath files path).Alike Log.SameButSearch (program.Asks mainClass)
      (ofClasses classes) := by
  constructor
  case answer =>
    intro request name hname
    have hanswer := search_answer files name path.entries
    rw [← fileOf?] at hanswer
    change (search files name path.entries).answer = .ok (classes.lookup name)
    rcases h.lookup name with ⟨hnone, hclasses⟩ | ⟨c, built, hsome, hclasses, hbuild⟩
    · rw [hanswer, hstored.absent name hname hnone, hclasses]
    · obtain ⟨x, hx, hfits, hfile⟩ := hstored.present name c hsome
      rw [hanswer, hfile, hclasses]
      simp only [defineClass_encode hx hfits, hbuild, Except.map]
  case events =>
    intro request name _ log log' hlog
    exact (log.withoutSearch_recordAll_search (search_events files name path.entries)).trans hlog
  case closed =>
    intro c hc index ref href
    exact h.asks_of_gives mainClass hc href

theorem Builds.start_eq {files : FileSystem} {path : ClassPath} (h : program.Builds classes)
    {m n : Machine} (hmn : m.withoutSearch = n.withoutSearch)
    (hstore : n.store.From (.ofClasses classes)) (hstored : program.Stored n.mainClass files path)
    (fuel : Nat) :
    (m.start (.ofClassPath files path) fuel).1 = (n.start (.ofClasses classes) fuel).1 ∧
      (m.start (.ofClassPath files path) fuel).2.withoutSearch =
        (n.start (.ofClasses classes) fuel).2.withoutSearch := by
  have halike := Machine.withoutSearch_eq_iff.mp hmn
  obtain ⟨r, m', n', hm, hn, h'⟩ := Machine.start_alike Log.sameButSearch_congruent
    (h.alike hstored) fuel halike hstore .main
  rw [hm, hn]
  exact ⟨rfl, Machine.withoutSearch_eq_iff.mpr h'⟩

/-- A written class is read back as it is built directly, or with the first fault of its methods; so
programs run alike from files and in memory, but for what the search reports. -/
theorem files_agree_with_memory :
    (∀ c : ClassSource, c.Writable → c.toForm.Describes c ∧ c.toForm.Fits) ∧
    (∀ (c : ClassSource) (x : ClassForm), x.Describes c → x.Fits →
      ClassFile.parse x.encode = .ok x.toFile ∧
      (∀ methods, List.Forall₂ (fun s m => s.build = .ok m) c.methods methods →
        x.toFile.toClass = .ok ⟨c.name, none, c.pool, methods⟩) ∧
      ∀ before s after e, c.methods = before ++ s :: after →
        (∀ b ∈ before, ∃ m, b.build = .ok m) → s.build = .error e →
        x.toFile.toClass = .error e) ∧
    ∀ (program : Program) (classes : List (String × LoadedClass)) (files : FileSystem)
      (path : ClassPath) (m n : Machine), program.Builds classes →
      program.Stored n.mainClass files path → n.store.From (.ofClasses classes) →
      m.withoutSearch = n.withoutSearch → ∀ fuel,
        (m.start (.ofClassPath files path) fuel).1 = (n.start (.ofClasses classes) fuel).1 ∧
        (m.start (.ofClassPath files path) fuel).2.withoutSearch =
          (n.start (.ofClasses classes) fuel).2.withoutSearch := by
  refine ⟨fun c h => ⟨h.describes, h.fits⟩, ?_, ?_⟩
  · intro c x hx hfits
    refine ⟨hfits.parse_whole, ?_, ?_⟩
    · intro methods hmethods
      rw [hx.toClass_eq]
      exact ClassSource.build_eq_ok hmethods
    · intro before s after e hsplit hbefore hs
      rw [hx.toClass_eq]
      exact ClassSource.build_eq_error hsplit hbefore hs
  · intro program classes files path m n hbuilds hstored hstore hmn fuel
    exact hbuilds.start_eq hmn hstore hstored fuel

end Program

namespace Pair

theorem files_agree_with_memory_pair :
    sourceB.Writable ∧ sourceB.toForm.Describes sourceB ∧ sourceB.toForm.Fits ∧
    ClassFile.parse sourceB.toForm.encode = .ok sourceB.toForm.toFile ∧
    List.Forall₂ (fun s m => s.build = .ok m) sourceB.methods [native, calling] ∧
    sourceB.toForm.toFile.toClass = .ok ⟨"B", none, pool, [native, calling]⟩ ∧
    sourceBroken.toForm.Describes sourceBroken ∧ sourceBroken.toForm.Fits ∧
    sourceBroken.methods = [nativeSource] ++ misnamedSource :: [cutSource] ∧
    (∀ b ∈ [nativeSource], ∃ m, b.build = .ok m) ∧
    misnamedSource.build = .error (.malformedDescriptor "A") ∧
    sourceBroken.toForm.toFile.toClass = .error (.malformedDescriptor "A") ∧
    program.Builds classes ∧ program.Stored "A" files ⟨["."]⟩ ∧
    ClassStore.From (.ofClasses classes) .empty ∧
    ∀ fuel, (machine.start (.ofClassPath files ⟨["."]⟩) fuel).1 =
        (machine.start (.ofClasses classes) fuel).1 ∧
      (machine.start (.ofClassPath files ⟨["."]⟩) fuel).2.withoutSearch =
        (machine.start (.ofClasses classes) fuel).2.withoutSearch := by
  obtain ⟨hwritten, hread, hrun⟩ := Program.files_agree_with_memory
  obtain ⟨hdescribes, hfits⟩ := hwritten sourceB sourceB_writable
  obtain ⟨hparse, hclass, -⟩ := hread sourceB sourceB.toForm hdescribes hfits
  have hbuilt : List.Forall₂ (fun s m => s.build = .ok m) sourceB.methods [native, calling] :=
    .cons rfl (.cons rfl .nil)
  obtain ⟨hdescribes', hfits'⟩ := hwritten sourceBroken sourceBroken_writable
  obtain ⟨-, -, herror⟩ := hread sourceBroken sourceBroken.toForm hdescribes' hfits'
  have hbefore : ∀ b ∈ [nativeSource], ∃ m, b.build = .ok m := by
    intro b hb
    cases List.mem_singleton.mp hb
    exact ⟨native, rfl⟩
  have hfaulty : misnamedSource.build = .error (.malformedDescriptor "A") := rfl
  have hempty := ClassStore.from_empty (.ofClasses classes)
  have hsame := hrun program classes files ⟨["."]⟩ machine machine builds
    stored hempty rfl
  exact ⟨sourceB_writable, hdescribes, hfits, hparse, hbuilt, hclass _ hbuilt, hdescribes', hfits',
    rfl, hbefore, hfaulty, herror [nativeSource] misnamedSource [cutSource] _ rfl hbefore hfaulty,
    builds, stored, hempty, hsame⟩

end Pair
end ClassVM
