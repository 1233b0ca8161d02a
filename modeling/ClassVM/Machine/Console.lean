import ClassVM.Machine.Exec

namespace ClassVM

/-- A sink that only grows: the bytes printed so far, how many it takes in all (`none` for no limit),
whether flushing it fails, which never changes, and how often that was tried. -/
structure Console where
  written : Array UInt8
  capacity : Option Nat
  flushFails : Bool
  flushes : Nat

namespace Console

/-- A console that takes everything. -/
def unlimited : Console := ⟨#[], none, false, 0⟩

/-- Prints a text. Of one that does not fit, the part that does is printed before this fails. -/
def write (text : String) : Exec Console Unit
  | ⟨written, none, flushFails, flushes⟩ =>
    (.ok (), ⟨written ++ text.toUTF8.data, none, flushFails, flushes⟩)
  | ⟨written, some capacity, flushFails, flushes⟩ =>
    let bytes := text.toUTF8.data
    let room := capacity - written.size
    (if bytes.size ≤ room then .ok () else .error (.output .full),
      ⟨written ++ bytes.take room, some capacity, flushFails, flushes⟩)

def flush : Exec Console Unit
  | ⟨written, capacity, flushFails, flushes⟩ =>
    (if flushFails then .error (.output .flushFailed) else .ok (),
      ⟨written, capacity, flushFails, flushes + 1⟩)

end Console
end ClassVM
