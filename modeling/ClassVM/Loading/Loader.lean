import ClassVM.ClassFile.Parsing
import ClassVM.Code.LoadedClass
import ClassVM.Loading.ClassPath
import ClassVM.Loading.FileSystem

namespace ClassVM

/-- The answer to a request and what happened on the way to it. A class that does not exist is no
error; a class that exists but is malformed is one. -/
structure Lookup where
  events : List Event
  answer : Except FormatError (Option LoadedClass)

/-- What is asked for classes by internal name. An answer may change from one request to the next, so
`find` is given the number of requests before. -/
structure Loader where
  find : Nat → String → Lookup

namespace Loader

/-- Whether the loader answers every request for one name alike. -/
def IsConstant (loader : Loader) : Prop :=
  ∀ earlier later name, loader.find earlier name = loader.find later name

/-- A loader of classes held in memory under their internal names. -/
def ofClasses (classes : List (String × LoadedClass)) : Loader where
  find _ name := ⟨[], .ok (classes.lookup name)⟩

/-- The class that the bytes of a class file define. -/
def defineClass (bytes : Bytes) : Except FormatError LoadedClass := do
  let file ← ClassFile.parse bytes
  file.toClass

/-- The path of the file in directory `entry` that holds the class `name`. -/
def classFilePath (entry name : String) : String := Path.join entry (name ++ ".class")

/-- What is reported of a directory in which the file for the class cannot be read. -/
def passed (name entry : String) (reason : Option String) : List Event :=
  (reason.map (Event.notIn name entry)).toList

/-- Searches directories in order. The first with a readable file decides, be it malformed. -/
def search (files : FileSystem) (name : String) : List String → Lookup
  | [] => ⟨[], .ok none⟩
  | entry :: entries =>
    match files.readFile (classFilePath entry name) with
    | .error reason =>
      let later := search files name entries
      { later with events := passed name entry reason ++ later.events }
    | .ok bytes => ⟨[.found name entry], (defineClass bytes).map some⟩

/-- A loader of class files found along a class path. -/
def ofClassPath (files : FileSystem) (path : ClassPath) : Loader where
  find _ name := search files name path.entries

/-- What making a loader for a class path reports. -/
def warnings (files : FileSystem) (path : ClassPath) : List Event :=
  (path.entries.filter fun entry => !files.isDirectory entry).map .notDirectory

end Loader
end ClassVM
