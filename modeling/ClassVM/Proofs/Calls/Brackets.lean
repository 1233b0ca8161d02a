import ClassVM.Proofs.Calls.Chain
import ClassVM.Proofs.Loading.Search
import ClassVM.Proofs.Machine.Output
import ClassVM.Proofs.Machine.Parts
import ClassVM.Proofs.Machine.Reports
import ClassVM.Proofs.Programs.Factorial

namespace ClassVM

namespace Event

def isOpening : Event → Bool
  | starting _ | invoking .. => true
  | _ => false

/-- A line of the call log. -/
def isCall : Event → Bool
  | starting _ | invoking .. | leaving .. => true
  | _ => false

/-- What a line makes of the methods whose opening lines are still open, the last opened first. A
closing line names the first of them and the number of the others. -/
def bracket (opened : List String) : Event → Option (List String)
  | starting _ => some ("main" :: opened)
  | invoking ref _ => some (ref.name :: opened)
  | leaving _ method depth =>
    match opened with
    | [] => none
    | last :: rest => if method = last ∧ depth = rest.length then some rest else none
  | _ => some opened

/-- The methods whose opening lines are still open after some lines; none if one of them does not
match. -/
def openAfter? (opened : List String) (events : List Event) : Option (List String) :=
  events.foldlM bracket opened

variable {opened : List String} {events more : List Event} {e : Event}

theorem openAfter?_append (opened : List String) (events more : List Event) :
    openAfter? opened (events ++ more) =
      (openAfter? opened events).bind fun left => openAfter? left more := by
  rw [openAfter?, List.foldlM_append]
  rfl

theorem openAfter?_cons (opened : List String) (e : Event) (events : List Event) :
    openAfter? opened (e :: events) = (bracket opened e).bind fun left => openAfter? left events := by
  rw [openAfter?, List.foldlM_cons]
  rfl

theorem openAfter?_singleton (opened : List String) (e : Event) :
    openAfter? opened [e] = bracket opened e := by
  rw [openAfter?_cons]
  cases bracket opened e <;> rfl

theorem bracket_of_not_isCall (h : e.isCall = false) (opened : List String) :
    bracket opened e = some opened := by
  cases e <;> first | rfl | cases h

theorem openAfter?_of_silent (h : ∀ e ∈ events, e.isCall = false) (opened : List String) :
    openAfter? opened events = some opened := by
  induction events with
  | nil => rfl
  | cons e events ih =>
    obtain ⟨hfirst, hrest⟩ := List.forall_mem_cons.mp h
    rw [openAfter?_cons, bracket_of_not_isCall hfirst]
    exact ih hrest

/-- It does not matter whether lines of other kinds are kept. -/
theorem openAfter?_filter {keep : Event → Bool} (h : ∀ e : Event, e.isCall = true → keep e = true)
    (opened : List String) (events : List Event) :
    openAfter? opened (events.filter keep) = openAfter? opened events := by
  induction events generalizing opened with
  | nil => rfl
  | cons e events ih =>
    cases hkeep : keep e with
    | true =>
      rw [List.filter_cons_of_pos hkeep, openAfter?_cons, openAfter?_cons]
      simp only [ih]
    | false =>
      have hother : e.isCall = false := by
        cases hcall : e.isCall with
        | false => rfl
        | true => rw [h e hcall] at hkeep; cases hkeep
      rw [List.filter_cons_of_neg (by simp [hkeep]), openAfter?_cons, bracket_of_not_isCall hother, ih]
      rfl

/-- If a closing line matches, it is that of the last method that is open. -/
theorem bracket_leaving {className method : String} {depth : Nat} {left : List String}
    (h : bracket opened (leaving className method depth) = some left) :
    opened = method :: left ∧ depth = left.length := by
  cases opened with
  | nil => cases h
  | cons last rest =>
    change (if method = last ∧ depth = rest.length then some rest else none) = some left at h
    split at h
    next hmatch =>
      cases h
      exact ⟨by rw [hmatch.1], hmatch.2⟩
    next => cases h

theorem isSome_of_append {rest : List Event} (h : (openAfter? opened (events ++ rest)).isSome) :
    (openAfter? opened events).isSome := by
  rw [openAfter?_append] at h
  exact Option.isSome_of_isSome_bind h

/-- A closing line among lines that match closes the method that was opened last. -/
theorem closes_last {className method : String} {depth : Nat} {rest : List Event}
    (h : (openAfter? opened (events ++ leaving className method depth :: rest)).isSome) :
    ∃ left, openAfter? opened events = some (method :: left) ∧ depth = left.length ∧
      openAfter? opened (events ++ [leaving className method depth]) = some left := by
  rw [List.append_cons] at h
  obtain ⟨left, hleft⟩ := Option.isSome_iff_exists.mp (isSome_of_append h)
  have hclosed := hleft
  rw [openAfter?_append] at hclosed
  obtain ⟨before, hbefore, hline⟩ := Option.bind_eq_some_iff.mp hclosed
  rw [openAfter?_singleton] at hline
  obtain ⟨rfl, hdepth⟩ := bracket_leaving hline
  exact ⟨left, hbefore, hdepth, hleft⟩

theorem level_of_isCall (h : e.isCall = true) : e.level = .calls := by
  cases e <;> first | rfl | cases h

end Event

/-- Of the events a log keeps those of its level. -/
theorem Log.events_recordAll (log : Log) (events : List Event) :
    (log.recordAll events).events =
      log.events ++ events.filter fun e => e.level.rank ≤ log.level.rank := by
  induction events generalizing log with
  | nil => exact (List.append_nil _).symm
  | cons e events ih =>
    have hrest := ih (log.record e)
    rw [level_record] at hrest
    have hcons : log.recordAll (e :: events) = (log.record e).recordAll events := rfl
    rw [hcons, hrest, record, List.filter_cons]
    simp only [decide_eq_true_eq]
    split
    next => simp [Log.events]
    next => rfl

theorem Event.isCall_of_isSearch {e : Event} (h : e.isSearch = true) : e.isCall = false := by
  cases e with
  | found | notIn => rfl
  | _ => cases h

/-- The loader does not report calls or returns. -/
def Loader.Silent (loader : Loader) : Prop :=
  ∀ request name, ∀ e ∈ (loader.find request name).events, e.isCall = false

namespace Loader

theorem silent_ofClasses (classes : List (String × LoadedClass)) : (ofClasses classes).Silent :=
  fun _ _ _ h => nomatch h

theorem silent_ofClassPath (files : FileSystem) (path : ClassPath) :
    (ofClassPath files path).Silent := by
  intro request name e he
  exact Event.isCall_of_isSearch (search_events files name path.entries e he)

end Loader

theorem ClassStore.events_silent {loader : Loader} (h : loader.Silent) (store : ClassStore)
    (name : String) : ∀ e ∈ (store.load loader name).events, e.isCall = false := by
  have hfound := h store.requests (ClassName.internal name)
  rw [load]
  cases store.loaded.lookup (ClassName.internal name) with
  | some found => simp [Event.isCall]
  | none =>
    simp only
    rcases (loader.find store.requests (ClassName.internal name)).answer with e | _ | found
    · exact hfound
    · exact hfound
    · intro e he
      rcases List.mem_append.mp he with hmem | hmem
      · exact hfound e hmem
      · rw [List.mem_singleton.mp hmem]
        rfl

theorem ClassStore.load_ne_overflow (loader : Loader) (store : ClassStore) (name : String)
    (limit : Nat) : (store.load loader name).result ≠ .error (.stackOverflow limit) := by
  have hload := store.load_loads loader name
  generalize store.load loader name = loading at hload
  cases hload <;> simp

/-- The names of the methods under way, the innermost first. -/
def CallStack.methods (calls : CallStack) : List String := calls.frames.map fun f => f.method.name

/-- The run has ended because there was no room for a call. -/
def Overflows (result : Option (Except RunError Unit)) : Prop :=
  ∃ limit, result = some (.error (.stackOverflow limit))

/-- What has been reported and the methods under way go together, before and after. A report of a call
for which there is no room does not count. -/
inductive Matches (opened left : List String) :
    List Event → Option (Except RunError Unit) → Prop where
  | even (events : List Event) (result : Option (Except RunError Unit)) (hresult : ¬ Overflows result)
    (h : Event.openAfter? opened events = some left) : Matches opened left events result
  | overflow (before : List Event) (line : Event) (limit : Nat) (hline : line.isOpening = true)
    (h : Event.openAfter? opened before = some left) :
    Matches opened left (before ++ [line]) (some (.error (.stackOverflow limit)))

namespace Matches
open Event

variable {opened middle left : List String} {events more : List Event}
  {result : Option (Except RunError Unit)}

theorem openAfter?_eq (h : Matches opened left events result) (hresult : ¬ Overflows result) :
    openAfter? opened events = some left := by
  cases h with
  | even _ _ _ h => exact h
  | overflow before line limit => exact absurd ⟨limit, rfl⟩ hresult

theorem of_overflows (h : Matches opened left events result) (hresult : Overflows result) :
    ∃ before line, events = before ++ [line] ∧ line.isOpening = true ∧
      openAfter? opened before = some left := by
  cases h with
  | even _ _ hnot => exact absurd hresult hnot
  | overflow before line _ hline h => exact ⟨before, line, rfl, hline, h⟩

theorem prepend (hfirst : openAfter? opened events = some middle)
    (h : Matches middle left more result) : Matches opened left (events ++ more) result := by
  cases h with
  | even more result hresult h =>
    refine .even _ _ hresult ?_
    rw [openAfter?_append, hfirst]
    exact h
  | overflow before line limit hline h =>
    rw [← List.append_assoc]
    refine .overflow _ line limit hline ?_
    rw [openAfter?_append, hfirst]
    exact h

theorem filter {keep : Event → Bool} (h : Matches opened left events result)
    (hkeep : ∀ e : Event, e.isCall = true → keep e = true) :
    Matches opened left (events.filter keep) result := by
  cases h with
  | even events result hresult h =>
    exact .even _ _ hresult ((openAfter?_filter hkeep opened events).trans h)
  | overflow before line limit hline h =>
    have hline' : keep line = true := by
      apply hkeep
      cases line <;> first | rfl | cases hline
    rw [List.filter_append, List.filter_cons_of_pos hline', List.filter_nil]
    exact .overflow _ line limit hline ((openAfter?_filter hkeep opened before).trans h)

theorem isSome (h : Matches opened left events result) : (openAfter? opened events).isSome := by
  cases h with
  | even events result hresult h => rw [h]; rfl
  | overflow before line limit hline h =>
    rw [openAfter?_append, h, Option.bind_some, openAfter?_singleton]
    cases line <;> first | rfl | cases hline

end Matches

theorem not_overflows_none : ¬ Overflows none := by
  rintro ⟨limit, h⟩
  cases h

theorem not_overflows_ok : ¬ Overflows (some (.ok ())) := by
  rintro ⟨limit, h⟩
  cases h

theorem not_overflows_error {e : RunError} (h : ∀ limit, e ≠ .stackOverflow limit) :
    ¬ Overflows (some (.error e)) := by
  rintro ⟨limit, heq⟩
  exact h limit (Except.error.inj (Option.some.inj heq))

namespace Machine
open Event

variable {loader : Loader} {m : Machine}

/-- What a call reports goes together with what it makes of the frames. -/
theorem matches_of_call (hloader : loader.Silent) (m : Machine) (f : Frame) (below : List Frame)
    (ref : MemberRef) :
    let out := perform loader (.call ref) (m.withFrames (f :: below))
    ∃ events, out.2.log = m.log.recordAll events ∧
      Matches (m.withFrames (f :: below)).calls.methods out.2.calls.methods events (some out.1) := by
  let asked := (m.store.load loader ref.className).events
  have hsilent := m.store.events_silent hloader ref.className
  have hasked : openAfter? (m.withFrames (f :: below)).calls.methods asked =
      some (m.withFrames (f :: below)).calls.methods := openAfter?_of_silent hsilent _
  have hnever := m.store.load_ne_overflow loader ref.className
  rw [perform_call]
  cases hresult : (m.store.load loader ref.className).result with
  | error e =>
    rw [hresult] at hnever
    refine ⟨asked, rfl, .even _ _ (not_overflows_error ?_) hasked⟩
    exact fun limit h => hnever limit (congrArg _ h)
  | ok owner =>
    simp only
    cases hmethod : owner.findMethod? ref.name ref.descriptor with
    | none => exact ⟨asked, rfl, .even _ _ (not_overflows_error nofun) hasked⟩
    | some method =>
      simp only
      cases method.body with
      | none => exact ⟨asked, rfl, .even _ _ (not_overflows_error nofun) hasked⟩
      | some body =>
        simp only
        let invoking : Event := .invoking ref (f.arguments method.parameterCount)
        have hrecord : (m.loaded loader ref.className).log.record invoking =
            m.log.recordAll (asked ++ [invoking]) := by
          rw [Log.recordAll_append]
          rfl
        split
        next hn =>
          refine ⟨asked ++ [invoking], ?_, ?_⟩
          · split <;> exact hrecord
          · split
            next =>
              refine .even _ _ not_overflows_ok ?_
              rw [openAfter?_append, hasked, Option.bind_some, openAfter?_singleton]
              obtain ⟨-, hname, -⟩ := LoadedClass.of_findMethod? hmethod
              exact congrArg (fun name => some (name :: _)) hname.symm
            next => exact .overflow _ invoking _ rfl hasked
        next => exact ⟨asked, rfl, .even _ _ (not_overflows_error nofun) hasked⟩

theorem methods_resume (frames : List Frame) (value : Option Value) :
    (resume frames value).map (fun f => f.method.name) = frames.map fun f => f.method.name := by
  cases value with
  | none => rfl
  | some v => cases frames <;> rfl

theorem matches_of_step (hloader : loader.Silent) (m : Machine) :
    ∃ events, (m.step loader).2.log = m.log.recordAll events ∧
      Matches m.calls.methods (m.step loader).2.calls.methods events (m.step loader).1 := by
  rcases halted_or_next loader m with hnone | ⟨f, below, i, hf, hi⟩
  · rw [hnone]
    exact ⟨[], rfl, .even _ _ not_overflows_none rfl⟩
  have hmethods : m.calls.methods = f.method.name :: below.map fun g => g.method.name := by
    rw [CallStack.methods, hf, List.map_cons]
  rw [step_eq hf hi, hmethods]
  have hoff := i.execute_offStack f.owner.pool f.workspace
  let executing : Event := .executing f.owner.name f.method.name i
  rcases hx : i.execute f.owner.pool f.workspace with ⟨e | control, w⟩
  · rw [hx, offStack_error_iff] at hoff
    exact ⟨[executing], rfl, .even _ _ (not_overflows_error hoff.2) rfl⟩
  simp only
  cases control with
  | next => exact ⟨[executing], rfl, .even _ _ not_overflows_ok rfl⟩
  | print text =>
    refine ⟨[executing], rfl, .even _ _ ?_ rfl⟩
    rintro ⟨limit, h⟩
    obtain ⟨fault, hfault⟩ := output_of_write (Option.some.inj h)
    cases hfault
  | jump target =>
    rw [perform_jump]
    cases f.method.indexOf? target with
    | none => exact ⟨[executing], rfl, .even _ _ (not_overflows_error nofun) rfl⟩
    | some position => exact ⟨[executing], rfl, .even _ _ not_overflows_ok rfl⟩
  | leave value =>
    rw [perform_leave]
    refine ⟨[executing, .leaving f.owner.name f.method.name below.length], rfl,
      .even _ _ not_overflows_ok ?_⟩
    have hleft : ((((m.logged executing).logged
        (.leaving f.owner.name f.method.name below.length)).withFrames
        (resume below value)).calls.methods) = below.map fun g => g.method.name :=
      methods_resume below value
    rw [hleft]
    simp [openAfter?, bracket]
  | call ref =>
    obtain ⟨events, hlog, hmatches⟩ := matches_of_call hloader (m.logged executing)
      { f with workspace := w, cursor := f.cursor + 1 } below ref
    refine ⟨executing :: events, hlog, ?_⟩
    exact @Matches.prepend _ _ _ [executing] _ _ rfl hmatches

theorem matches_of_run (hloader : loader.Silent) (fuel : Nat) (m : Machine) :
    ∃ events, (m.run loader fuel).2.log = m.log.recordAll events ∧
      Matches m.calls.methods (m.run loader fuel).2.calls.methods events (m.run loader fuel).1 := by
  induction fuel generalizing m with
  | zero => exact ⟨[], rfl, .even _ _ not_overflows_none rfl⟩
  | succ fuel ih =>
    obtain ⟨events, hlog, hmatches⟩ := matches_of_step hloader m
    rw [run]
    rcases hs : m.step loader with ⟨_ | e | _, next⟩
    all_goals
      rw [hs] at hlog hmatches
      simp only at hlog hmatches ⊢
    · exact ⟨events, hlog, .even _ _ not_overflows_ok (hmatches.openAfter?_eq not_overflows_none)⟩
    · exact ⟨events, hlog, hmatches⟩
    · obtain ⟨more, hmore, hrest⟩ := ih next
      refine ⟨events ++ more, ?_, hrest.prepend (hmatches.openAfter?_eq not_overflows_ok)⟩
      rw [hmore, hlog, Log.recordAll_append]

theorem matches_of_boot (hloader : loader.Silent) (m : Machine) :
    ∃ events, (boot loader m).2.log = m.log.recordAll events ∧
      Matches [] (boot loader m).2.calls.methods events (some (boot loader m).1) := by
  let asked := (m.store.load loader m.mainClass).events
  have hasked : openAfter? [] asked = some [] :=
    openAfter?_of_silent (m.store.events_silent hloader m.mainClass) []
  have hnever := m.store.load_ne_overflow loader m.mainClass
  rw [boot_eq]
  cases hresult : (m.store.load loader m.mainClass).result with
  | error e =>
    rw [hresult] at hnever
    refine ⟨asked, rfl, .even _ _ (not_overflows_error ?_) hasked⟩
    exact fun limit h => hnever limit (congrArg _ h)
  | ok owner =>
    simp only
    cases hmain : owner.method? "main" with
    | none => exact ⟨asked, rfl, .even _ _ (not_overflows_error nofun) hasked⟩
    | some method =>
      simp only
      have hrecord : (m.loaded loader m.mainClass).log.record (.starting owner.name) =
          m.log.recordAll (asked ++ [.starting owner.name]) := by
        rw [Log.recordAll_append]
        rfl
      refine ⟨asked ++ [.starting owner.name], ?_, ?_⟩
      · split <;> exact hrecord
      · split
        next =>
          refine .even _ _ not_overflows_ok ?_
          rw [openAfter?_append, hasked, Option.bind_some, openAfter?_singleton]
          have hname : method.name = "main" := by
            have hfound := List.find?_some hmain
            exact of_decide_eq_true hfound
          exact congrArg (fun name => some [name]) hname.symm
        next => exact .overflow _ _ _ rfl hasked

theorem matches_of_launch (hloader : loader.Silent) (fuel : Nat) (m : Machine) :
    ∃ events, (m.launch loader fuel).2.log = m.log.recordAll events ∧
      Matches [] (m.launch loader fuel).2.calls.methods events (m.launch loader fuel).1 := by
  obtain ⟨events, hlog, hmatches⟩ := matches_of_boot hloader m
  rw [launch]
  rcases hboot : boot loader m with ⟨e | _, booted⟩
  all_goals
    rw [hboot] at hlog hmatches
    simp only at hlog hmatches ⊢
  · exact ⟨events, hlog, hmatches⟩
  · obtain ⟨more, hmore, hrest⟩ := matches_of_run hloader fuel booted
    refine ⟨events ++ more, ?_, hrest.prepend (hmatches.openAfter?_eq not_overflows_ok)⟩
    rw [hmore, hlog, Log.recordAll_append]

/-- The flush at the end of a start touches neither the log nor the frames. -/
theorem start_reports (loader : Loader) (fuel : Nat) (m : Machine) :
    (m.start loader fuel).2.log = (m.launch loader fuel).2.log ∧
      (m.start loader fuel).2.calls = (m.launch loader fuel).2.calls := by
  rw [start, launch]
  rcases boot loader m with ⟨e | _, booted⟩
  · exact ⟨rfl, rfl⟩
  · simp only
    rcases booted.run loader fuel with ⟨_ | result, ended⟩
    · exact ⟨rfl, rfl⟩
    · simp only [finish_eq, and_self]

/-- The lines of a start in a log that keeps calls go together with the frames it leaves. -/
theorem start_matches (hloader : loader.Silent) (m : Machine)
    (hlevel : Level.calls.rank ≤ m.log.level.rank) (fuel : Nat) :
    ∃ lines, (m.start loader fuel).2.log.events = m.log.events ++ lines ∧
      Matches [] (m.start loader fuel).2.calls.methods lines (m.launch loader fuel).1 := by
  obtain ⟨hlog, hcalls⟩ := start_reports loader fuel m
  obtain ⟨events, hevents, hmatches⟩ := matches_of_launch hloader fuel m
  refine ⟨_, by rw [hlog, hevents, Log.events_recordAll], ?_⟩
  rw [hcalls]
  apply hmatches.filter
  intro e he
  rw [level_of_isCall he]
  exact decide_eq_true hlevel

/-- After every instruction the call log of a start is well bracketed, and the methods that are open are
those under way, but for a last call that found no room. -/
theorem start_bracketed (hloader : loader.Silent) (m : Machine)
    (hlevel : Level.calls.rank ≤ m.log.level.rank) (fuel : Nat) :
    let ended := (m.start loader fuel).2
    ∃ lines, ended.log.events = m.log.events ++ lines ∧
      (∀ before rest, lines = before ++ rest → (openAfter? [] before).isSome) ∧
      (∀ before className method depth rest,
        lines = before ++ .leaving className method depth :: rest →
        ∃ opened, openAfter? [] before = some (method :: opened) ∧ depth = opened.length ∧
          openAfter? [] (before ++ [.leaving className method depth]) = some opened) ∧
      ended.calls.methods.length = ended.calls.depth ∧
      (¬ Overflows (m.launch loader fuel).1 → openAfter? [] lines = some ended.calls.methods) ∧
      (Overflows (m.launch loader fuel).1 → ∃ before line, lines = before ++ [line] ∧
        line.isOpening = true ∧ openAfter? [] before = some ended.calls.methods) := by
  intro ended
  obtain ⟨lines, hlines, hmatches⟩ := start_matches hloader m hlevel fuel
  refine ⟨lines, hlines, ?_, ?_, ?_, ?_, ?_⟩
  · rintro before rest rfl
    exact isSome_of_append hmatches.isSome
  · rintro before className method depth rest rfl
    exact closes_last hmatches.isSome
  · rw [CallStack.methods, List.length_map]
    exact ended.calls.depth_eq.symm
  · exact hmatches.openAfter?_eq
  · exact hmatches.of_overflows

/-- With room for two frames `Factorial` of 2 ends at the third call. -/
theorem start_bracketed_factorial :
    let m := Machine.new "Factorial" 2 .unlimited (.empty .calls)
    let ended := (m.start (Factorial.loader 2) 64).2
    (m.launch (Factorial.loader 2) 64).1 = some (.error (.stackOverflow 2)) ∧
      ended.calls.methods = ["factorial", "main"] ∧
      ∃ before line, ended.log.events = before ++ [line] ∧ line.isOpening = true ∧
        openAfter? [] before = some ended.calls.methods := by
  intro m ended
  have hover : (m.launch (Factorial.loader 2) 64).1 = some (.error (.stackOverflow 2)) := by
    decide +kernel
  obtain ⟨lines, hlines, -, -, -, -, hoverflow⟩ :=
    start_bracketed (Loader.silent_ofClasses _) m (by decide) 64
  obtain ⟨before, line, rfl, hline, hbefore⟩ := hoverflow ⟨2, hover⟩
  exact ⟨hover, by decide +kernel, before, line, hlines, hline, hbefore⟩

end Machine
end ClassVM
