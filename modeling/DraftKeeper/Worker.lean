import DraftKeeper.Schedule

namespace DraftKeeper

/-- When dirty drafts are swept: every `interval` milliseconds, next at `due`. -/
structure Sweeps where
  interval : Nat
  due : Nat
deriving DecidableEq, Repr

structure Worker where
  keeper : Keeper
  schedule : Schedule
  queue : List Event
  closed : Bool
  now : Nat
  sweeps : Option Sweeps

namespace Worker

def new (keeper : Keeper) (interval : Option Nat) : Worker :=
  ⟨keeper, .empty, [], false, 0, interval.map fun n => ⟨n, n⟩⟩

def send (w : Worker) (e : Event) : Option Worker :=
  if w.closed then none else some { w with queue := w.queue ++ [e] }

def settle (w : Worker) : Worker :=
  let (schedule, keeper) := (w.queue.foldl Schedule.add w.schedule).drain w.keeper
  { w with schedule, keeper, queue := [] }

def sweep (w : Worker) : Worker := { w with keeper := w.keeper.sweep.2 }

/-- Whether a sweep is due by a point in time. -/
def isDue (w : Worker) (now : Nat) : Bool :=
  match w.sweeps with
  | none => false
  | some s => s.due ≤ now && !w.closed

/-- Lets time pass. However many sweeps fall due, one does the work of all. -/
def advance (w : Worker) (milliseconds : Nat) : Worker :=
  let now := w.now + milliseconds
  match w.sweeps with
  | none => { w with now }
  | some s =>
    if !w.isDue now then { w with now }
    else
      let due := if s.interval = 0 then now else now + s.interval - (now - s.due) % s.interval
      { w.sweep with now, sweeps := some { s with due } }

def shutdown (w : Worker) : Worker :=
  if w.closed then w else ({ w with closed := true }.settle).sweep

end Worker

end DraftKeeper
