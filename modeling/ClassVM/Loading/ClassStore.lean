import ClassVM.Fault.RunError
import ClassVM.Loading.Loader

namespace ClassVM

/-- Loaded classes in the order of loading, and the number of requests made to the loader. -/
structure ClassStore where
  loaded : List (String × LoadedClass)
  requests : Nat

/-- The outcome of loading a class: the class, what is loaded afterwards, and what was reported. -/
structure Loading where
  result : Except RunError LoadedClass
  store : ClassStore
  events : List Event

namespace ClassStore

def empty : ClassStore := ⟨[], 0⟩

/-- The class already loaded under a name in either spelling. -/
def find? (store : ClassStore) (name : String) : Option LoadedClass :=
  store.loaded.lookup (ClassName.internal name)

/-- How many classes were loaded before the one called `name`. -/
def position? (store : ClassStore) (name : String) : Option Nat :=
  store.loaded.findIdx? fun (loaded, _) => loaded = ClassName.internal name

def isLoaded (store : ClassStore) (name : String) : Bool := (store.find? name).isSome

/-- The class called `name`, in either spelling. The loader is asked only if it is not loaded. -/
def load (loader : Loader) (name : String) (store : ClassStore) : Loading :=
  let internal := ClassName.internal name
  match store.loaded.lookup internal with
  | some found => ⟨.ok found, store, [.alreadyLoaded internal]⟩
  | none =>
    let lookup := loader.find store.requests internal
    let asked := { store with requests := store.requests + 1 }
    match lookup.answer with
    | .error e => ⟨.error (.malformed e), asked, lookup.events⟩
    | .ok none => ⟨.error (.classNotFound internal), asked, lookup.events⟩
    | .ok (some found) =>
      ⟨.ok found, { asked with loaded := store.loaded ++ [(internal, found)] },
        lookup.events ++ [.loaded internal]⟩

end ClassStore
end ClassVM
