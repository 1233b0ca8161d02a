import ClassVM.Machine.Basic

namespace ClassVM.Machine

/-- Goes on for at most `fuel` steps. There is a result if the machine stops within them. -/
def run (loader : Loader) : Nat → Machine → Option (Except RunError Unit) × Machine
  | 0, m => (none, m)
  | fuel + 1, m =>
    match m.step loader with
    | (none, m) => (some (.ok ()), m)
    | (some (.error e), m) => (some (.error e), m)
    | (some (.ok ()), m) => run loader fuel m

/-- Writes out what is printed at the end of a run. A failure takes the place of the run's result. -/
def finish (result : Except RunError Unit) (m : Machine) : Except RunError Unit × Machine :=
  match onConsole Console.flush m with
  | (.ok (), m) => (result, m)
  | (.error e, m) => (.error e, m)

/-- Runs the main method from its beginning. What a run before this one has loaded and printed
stays. -/
def start (loader : Loader) (fuel : Nat) (m : Machine) : Option (Except RunError Unit) × Machine :=
  match boot loader m with
  | (.error e, m) => (some (.error e), m)
  | (.ok (), m) =>
    match run loader fuel m with
    | (none, m) => (none, m)
    | (some result, m) =>
      let (result, m) := finish result m
      (some result, m)

end ClassVM.Machine
