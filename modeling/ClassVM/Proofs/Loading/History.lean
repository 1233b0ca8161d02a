import ClassVM.Proofs.Machine.Reachable
import ClassVM.Proofs.Programs.Basic

namespace ClassVM

/-- What a client can ask of a store. -/
inductive StoreQuery where
  | load (name : String)
  | isLoaded (name : String)

/-- What loading a class comes to if this is what the loader says. -/
def Lookup.outcome (lookup : Lookup) (internal : String) : Except RunError LoadedClass :=
  match lookup.answer with
  | .error cause => .error (.malformed cause)
  | .ok none => .error (.classNotFound internal)
  | .ok (some c) => .ok c

namespace ClassStore

/-- The store after a list of queries. -/
def after (loader : Loader) (store : ClassStore) : List StoreQuery → ClassStore
  | [] => store
  | .load name :: queries => (store.load loader name).store.after loader queries
  | .isLoaded _ :: queries => store.after loader queries

/-- The internal names for which the loader has been asked and has given a class, in the order of the
requests. -/
def fetched (loader : Loader) (store : ClassStore) : List StoreQuery → List String
  | [] => []
  | .load name :: queries =>
    let loading := store.load loader name
    if store.requests < loading.store.requests ∧ loading.result.isOk then
      ClassName.internal name :: loading.store.fetched loader queries
    else loading.store.fetched loader queries
  | .isLoaded _ :: queries => store.fetched loader queries

variable {loader : Loader} {store : ClassStore}

theorem after_append (before queries : List StoreQuery) :
    store.after loader (before ++ queries) = (store.after loader before).after loader queries := by
  induction before generalizing store with
  | nil => rfl
  | cons query before ih =>
    cases query with
    | load name => exact ih
    | isLoaded name => exact ih

/-- What every load keeps is kept by all queries. -/
theorem after_keeps {Keeps : ClassStore → Prop}
    (h : ∀ store name, Keeps store → Keeps (store.load loader name).store)
    (queries : List StoreQuery) (hstore : Keeps store) : Keeps (store.after loader queries) := by
  induction queries generalizing store with
  | nil => exact hstore
  | cons query queries ih =>
    cases query with
    | load name => exact ih (h store name hstore)
    | isLoaded name => exact ih hstore

theorem find?_congr {name other : String}
    (h : ClassName.internal other = ClassName.internal name) :
    store.find? other = store.find? name := by
  simp only [find?, h]

theorem position?_congr {name other : String}
    (h : ClassName.internal other = ClassName.internal name) :
    store.position? other = store.position? name := by
  simp only [position?, h]

/-- A class that is not loaded is asked for, and the loader decides. -/
theorem load_asks {name : String} (h : store.find? name = none) (loader : Loader) :
    let lookup := loader.find store.requests (ClassName.internal name)
    (store.load loader name).result = lookup.outcome (ClassName.internal name) ∧
      (store.load loader name).store.requests = store.requests + 1 := by
  have hload := store.load_loads loader name
  generalize store.load loader name = loading at hload ⊢
  unfold Lookup.outcome
  cases hload with
  | known found hknown =>
    rw [find?, hknown] at h
    cases h
  | malformed cause events hnew hanswer | missing events hnew hanswer
  | added found events hnew hanswer => simp only [hanswer, and_self]

theorem load_of_error {name : String} {e : RunError}
    (h : (store.load loader name).result = .error e) :
    store.find? name = none ∧
      (store.load loader name).store = { store with requests := store.requests + 1 } := by
  have hload := store.load_loads loader name
  generalize store.load loader name = loading at hload h ⊢
  cases hload with
  | known | added => cases h
  | malformed cause events hnew | missing events hnew => exact ⟨hnew, rfl⟩

theorem find?_after {name : String} {c : LoadedClass} (queries : List StoreQuery)
    (h : store.find? name = some c) : (store.after loader queries).find? name = some c :=
  @after_keeps loader store (fun store => store.find? name = some c)
    (fun _ other h => find?_load h other) queries h

theorem exists_position? {name : String} {c : LoadedClass} (h : store.find? name = some c) :
    ∃ position, store.position? name = some position := by
  apply Option.isSome_iff_exists.mp
  rw [position?, List.findIdx?_isSome, List.any_eq_true]
  exact ⟨_, mem_of_lookup h, by simp⟩

theorem position?_load {name : String} {position : Nat}
    (h : store.position? name = some position) (other : String) :
    (store.load loader other).store.position? name = some position := by
  have hload := store.load_loads loader other
  generalize store.load loader other = loading at hload ⊢
  cases hload with
  | known | malformed | missing => exact h
  | added found events hnew hanswer =>
    rw [position?] at h
    simp only [position?, List.findIdx?_append, h, Option.some_or]

theorem position?_after {name : String} {position : Nat} (queries : List StoreQuery)
    (h : store.position? name = some position) :
    (store.after loader queries).position? name = some position :=
  @after_keeps loader store (fun store => store.position? name = some position)
    (fun _ other h => position?_load h other) queries h

/-- What can be found after some queries was there before them, or one of them has loaded it. -/
theorem find?_of_after {name : String} {c : LoadedClass} (queries : List StoreQuery)
    (h : (store.after loader queries).find? name = some c) :
    store.find? name = some c ∨
      ∃ before other rest, queries = before ++ .load other :: rest ∧
        ClassName.internal other = ClassName.internal name ∧
        ((store.after loader before).load loader other).result = .ok c := by
  induction queries generalizing store with
  | nil => exact .inl h
  | cons query queries ih =>
    cases query with
    | isLoaded asked =>
      rcases ih h with hold | ⟨before, other, rest, rfl, hname, hok⟩
      · exact .inl hold
      · exact .inr ⟨.isLoaded asked :: before, other, rest, rfl, hname, hok⟩
    | load asked =>
      rcases ih h with hold | ⟨before, other, rest, rfl, hname, hok⟩
      · rcases find?_after_load hold with hold | ⟨hname, hok⟩
        · exact .inl hold
        · exact .inr ⟨[], asked, queries, rfl, hname.symm, hok⟩
      · exact .inr ⟨.load asked :: before, other, rest, rfl, hname, hok⟩

/-- What none of the queries loads stays unknown. -/
theorem find?_after_unasked {name : String} {queries : List StoreQuery}
    (h : store.find? name = none) (hqueries : ∀ asked, .load asked ∈ queries →
      ClassName.internal asked ≠ ClassName.internal name) :
    (store.after loader queries).find? name = none := by
  cases hafter : (store.after loader queries).find? name with
  | none => rfl
  | some c =>
    rcases find?_of_after queries hafter with hfound | ⟨before, asked, rest, rfl, hasked, -⟩
    · rw [h] at hfound
      cases hfound
    · exact absurd hasked (hqueries asked (by simp))

/-- A load that has got a class from the loader adds this class, and no other load changes what is
loaded. -/
theorem fetched_load (name : String) (queries : List StoreQuery) :
    let next := (store.load loader name).store
    (∃ c, next.loaded = store.loaded ++ [(ClassName.internal name, c)] ∧
      store.find? name = none ∧ next.find? name = some c ∧
      store.fetched loader (.load name :: queries) =
        ClassName.internal name :: next.fetched loader queries) ∨
    next.loaded = store.loaded ∧
      store.fetched loader (.load name :: queries) = next.fetched loader queries := by
  have hfound : ∀ c, (store.load loader name).result = .ok c →
      (store.load loader name).store.find? name = some c := fun c => find?_of_load
  have hload := store.load_loads loader name
  rw [fetched]
  generalize store.load loader name = loading at hload hfound ⊢
  cases hload with
  | known found hknown => exact .inr ⟨rfl, by simp⟩
  | malformed cause events | missing events => exact .inr ⟨rfl, by simp [Except.isOk, Except.toBool]⟩
  | added found events hnew hanswer =>
    exact .inl ⟨found, rfl, hnew, hfound found rfl, by simp [Except.isOk, Except.toBool]⟩

/-- The loader has been asked successfully for the classes that are loaded, in this order. -/
theorem loaded_after (queries : List StoreQuery) :
    (store.after loader queries).loaded.map Prod.fst =
      store.loaded.map Prod.fst ++ store.fetched loader queries := by
  induction queries generalizing store with
  | nil => simp [after, fetched]
  | cons query queries ih =>
    cases query with
    | isLoaded asked => exact ih
    | load asked =>
      rw [after, ih]
      rcases fetched_load asked queries with ⟨c, hloaded, -, -, hfetched⟩ | ⟨hloaded, hfetched⟩
      · rw [hloaded, hfetched, List.map_append, List.append_assoc]
        rfl
      · rw [hloaded, hfetched]

/-- The loader is not asked for what has been loaded, and not again for what it has given. -/
theorem fetched_new (queries : List StoreQuery) :
    (∀ name ∈ store.fetched loader queries, store.find? name = none) ∧
      (store.fetched loader queries).Nodup := by
  induction queries generalizing store with
  | nil => exact ⟨by simp [fetched], .nil⟩
  | cons query queries ih =>
    cases query with
    | isLoaded asked => exact ih
    | load asked =>
      obtain ⟨hnew, hnodup⟩ := @ih (store.load loader asked).store
      have hold : ∀ name ∈ (store.load loader asked).store.fetched loader queries,
          store.find? name = none := by
        intro name hname
        cases h : store.find? name with
        | none => rfl
        | some c =>
          have hnone := hnew name hname
          rw [find?_load h asked] at hnone
          cases hnone
      rcases fetched_load asked queries with ⟨c, -, hunknown, hknown, hfetched⟩ | ⟨-, hfetched⟩
      · have hsame := ClassName.internal_internal asked
        rw [hfetched]
        refine ⟨List.forall_mem_cons.mpr ⟨(find?_congr hsame).trans hunknown, hold⟩,
          List.nodup_cons.mpr ⟨?_, hnodup⟩⟩
        intro hmem
        have hnone := hnew _ hmem
        rw [find?_congr hsame, hknown] at hnone
        cases hnone
      · rw [hfetched]
        exact ⟨hold, hnodup⟩

end ClassStore

/-- The store of a machine has come about by a history of loads. -/
theorem Machine.Reachable.store_after {loader : Loader} {m : Machine} (h : Reachable loader m) :
    ∃ queries, m.store = ClassStore.empty.after loader queries := by
  have hmore : ∀ (store : ClassStore) (name : String),
      (∃ queries, store = ClassStore.empty.after loader queries) →
      ∃ queries, (store.load loader name).store = ClassStore.empty.after loader queries := by
    rintro _ name ⟨queries, rfl⟩
    refine ⟨queries ++ [.load name], ?_⟩
    rw [ClassStore.after_append]
    rfl
  have hlasting : Lasting loader fun m =>
      ∃ queries, m.store = ClassStore.empty.after loader queries := by
    constructor
    case new => exact fun _ _ _ _ => ⟨[], rfl⟩
    case withDepth => exact fun _ _ h => h
    case flush => exact fun _ h => h
    case boot =>
      intro m h
      obtain ⟨frames, log, hboot⟩ := after_boot loader m
      rw [hboot]
      exact hmore m.store m.mainClass h
    case step =>
      intro m h
      rcases store_of_step loader m with hsame | ⟨name, hload⟩
      · rw [hsame]
        exact h
      · rw [hload]
        exact hmore m.store name h
  exact hlasting.reachable h

namespace ClassStore
variable {loader : Loader} {store : ClassStore} {name : String}

theorem after_load (before between : List StoreQuery) (name : String) :
    store.after loader (before ++ .load name :: between) =
      ((store.after loader before).load loader name).store.after loader between :=
  after_append before (.load name :: between)

/-- A class that has been loaded is given out again as it is, and no loader is asked. -/
theorem kept_after_load {c : LoadedClass} (h : (store.load loader name).result = .ok c) :
    ∃ position, (store.load loader name).store.position? name = some position ∧
      ∀ between other, ClassName.internal other = ClassName.internal name →
        let now := (store.load loader name).store.after loader between
        now.position? other = some position ∧ ∀ anyLoader, now.load anyLoader other =
          ⟨.ok c, now, [.alreadyLoaded (ClassName.internal name)]⟩ := by
  have hfound := find?_of_load h
  obtain ⟨position, hposition⟩ := exists_position? hfound
  refine ⟨position, hposition, ?_⟩
  intro between other hname
  refine ⟨(position?_congr hname).trans (position?_after between hposition), ?_⟩
  intro anyLoader
  rw [load_known ((find?_congr hname).trans (find?_after between hfound)), hname]

/-- A class is known if and only if some load of it has succeeded. -/
theorem isLoaded_after_iff (history : List StoreQuery) (name : String) :
    (empty.after loader history).isLoaded name = true ↔
      ∃ before other between c, history = before ++ .load other :: between ∧
        ClassName.internal other = ClassName.internal name ∧
        ((empty.after loader before).load loader other).result = .ok c := by
  rw [isLoaded, Option.isSome_iff_exists]
  constructor
  · rintro ⟨c, hc⟩
    rcases find?_of_after history hc with hnone | ⟨before, other, between, hsplit, hname, hok⟩
    · cases hnone
    · exact ⟨before, other, between, c, hsplit, hname, hok⟩
  · rintro ⟨before, other, between, c, rfl, hname, hok⟩
    rw [after_load, ← find?_congr hname]
    exact ⟨c, find?_after between (find?_of_load hok)⟩

/-- A load that fails changes nothing that is loaded, and the next load of the class asks again. -/
theorem retried_after_error {e : RunError} (h : (store.load loader name).result = .error e) :
    (store.load loader name).store.loaded = store.loaded ∧
      ∀ between other,
        (∀ asked, .load asked ∈ between → ClassName.internal asked ≠ ClassName.internal name) →
        ClassName.internal other = ClassName.internal name →
        let now := (store.load loader name).store.after loader between
        (now.load loader other).store.requests = now.requests + 1 ∧
          (now.load loader other).result =
            (loader.find now.requests (ClassName.internal name)).outcome
              (ClassName.internal name) := by
  obtain ⟨hnone, hsame⟩ := load_of_error h
  refine ⟨by rw [hsame], ?_⟩
  intro between other hbetween hname
  have hnow : (store.load loader name).store.find? name = none := by
    rw [hsame]
    exact hnone
  have hstill : ((store.load loader name).store.after loader between).find? other = none :=
    (find?_congr hname).trans (find?_after_unasked hnow hbetween)
  obtain ⟨hresult, hrequests⟩ := load_asks hstill loader
  rw [hname] at hresult
  exact ⟨hrequests, hresult⟩

/-- Whatever loaders answer, a class is got once and then kept, and only what is not known is asked
for. The stores of running machines have such histories. -/
theorem coherent_over_history (loader : Loader) :
    let store := fun history => ClassStore.empty.after loader history
    (∀ before name c, ((store before).load loader name).result = .ok c →
      ∃ position, ((store before).load loader name).store.position? name = some position ∧
        ∀ between other, ClassName.internal other = ClassName.internal name →
          let now := store (before ++ .load name :: between)
          now.position? other = some position ∧ ∀ anyLoader, now.load anyLoader other =
            ⟨.ok c, now, [.alreadyLoaded (ClassName.internal name)]⟩) ∧
    (∀ history name, (store history).isLoaded name = true ↔
      ∃ before other between c, history = before ++ .load other :: between ∧
        ClassName.internal other = ClassName.internal name ∧
        ((store before).load loader other).result = .ok c) ∧
    (∀ before name e, ((store before).load loader name).result = .error e →
      ((store before).load loader name).store.loaded = (store before).loaded ∧
      ∀ between other,
        (∀ asked, .load asked ∈ between → ClassName.internal asked ≠ ClassName.internal name) →
        ClassName.internal other = ClassName.internal name →
        let now := store (before ++ .load name :: between)
        (now.load loader other).store.requests = now.requests + 1 ∧
          (now.load loader other).result =
            (loader.find now.requests (ClassName.internal name)).outcome
              (ClassName.internal name)) ∧
    (∀ history, (ClassStore.empty.fetched loader history).Nodup ∧
      (store history).loaded.map Prod.fst = ClassStore.empty.fetched loader history) ∧
    ∀ m, Machine.Reachable loader m → ∃ history, m.store = store history := by
  intro store
  refine ⟨?_, isLoaded_after_iff, ?_, ?_, fun m h => h.store_after⟩
  · intro before name c hok
    simp only [store, after_load]
    exact kept_after_load hok
  · intro before name e herror
    simp only [store, after_load]
    exact retried_after_error herror
  · intro history
    exact ⟨(fetched_new history).2, loaded_after history⟩

/-- A loader that first has no class, then a broken one, and from then on one class after the other. -/
def fickle : Loader where
  find request _ := ⟨[], match request with
    | 0 => .ok none
    | 1 => .error .truncated
    | n + 2 => .ok (some ⟨"p/C", none, ⟨#[]⟩, List.replicate n (.procedure "f" 0 none)⟩)⟩

/-- A failure, another one, a class without methods, and a second class that nobody will ever see. -/
theorem coherent_over_history_fickle :
    let first : LoadedClass := ⟨"p/C", none, ⟨#[]⟩, []⟩
    let failed := ClassStore.empty.after fickle [.load "p.C", .isLoaded "p/C"]
    let known := ClassStore.empty.after fickle
      [.load "p.C", .isLoaded "p/C", .load "p/C", .load "p.C"]
    (ClassStore.empty.load fickle "p.C").result = .error (.classNotFound "p/C") ∧
    (∀ asked, .load asked ∈ [StoreQuery.isLoaded "p/C"] →
      ClassName.internal asked ≠ ClassName.internal "p.C") ∧
    (failed.load fickle "p/C").store.requests = 2 ∧
    (failed.load fickle "p/C").result = .error (.malformed .truncated) ∧
    ((failed.load fickle "p/C").store.load fickle "p.C").result = .ok first ∧
    known.isLoaded "p/C" = true ∧ known.position? "p/C" = some 0 ∧
    known.load fickle "p/C" = ⟨.ok first, known, [.alreadyLoaded "p/C"]⟩ ∧
    (fickle.find known.requests "p/C").answer =
      .ok (some ⟨"p/C", none, ⟨#[]⟩, [.procedure "f" 0 none]⟩) := by
  intro first failed known
  obtain ⟨hkept, hknown, hretried, -, -⟩ := coherent_over_history fickle
  have hname : ClassName.internal "p/C" = ClassName.internal "p.C" := by decide +kernel
  have hinternal : ClassName.internal "p.C" = "p/C" := by decide +kernel
  have hmissing : (ClassStore.empty.load fickle "p.C").result =
      .error (.classNotFound (ClassName.internal "p.C")) := load_missing rfl rfl
  rw [hinternal] at hmissing
  have hloaded : ((failed.load fickle "p/C").store.load fickle "p.C").result = .ok first :=
    load_new rfl rfl
  have hbetween : ∀ asked, .load asked ∈ [StoreQuery.isLoaded "p/C"] →
      ClassName.internal asked ≠ ClassName.internal "p.C" := by
    intro asked hasked
    cases List.mem_singleton.mp hasked
  obtain ⟨-, hretry⟩ := hretried [] "p.C" (.classNotFound "p/C") hmissing
  obtain ⟨hrequests, hresult⟩ := hretry [.isLoaded "p/C"] "p/C" hbetween hname
  obtain ⟨position, hfirst, hlater⟩ :=
    hkept [.load "p.C", .isLoaded "p/C", .load "p/C"] "p.C" first hloaded
  obtain ⟨hposition, hsame⟩ := hlater [] "p/C" hname
  have hzero : some 0 = some position := Eq.trans (by decide +kernel) hfirst
  have hagain := hsame fickle
  rw [hinternal] at hagain
  have hclass : known.isLoaded "p/C" = true :=
    (hknown _ "p/C").mpr ⟨[.load "p.C", .isLoaded "p/C", .load "p/C"], "p.C", [], first, rfl,
      hname.symm, hloaded⟩
  exact ⟨hmissing, hbetween, hrequests.trans rfl, hresult.trans rfl, hloaded, hclass,
    hposition.trans hzero.symm, hagain, rfl⟩

end ClassStore
end ClassVM
