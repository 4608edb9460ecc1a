import DraftKeeper.Keeper

namespace DraftKeeper

inductive Event
  | tracking (endpoint : String) (signal : Tracking)
  | edited (endpoint : String) (edit : Edit)
deriving DecidableEq, Repr

namespace Event

def endpoint : Event → String
  | .tracking e _ | .edited e _ => e

def paths : Event → List String
  | .tracking _ signal => signal.paths
  | .edited _ edit => [edit.location]

/-- The normal form of a path; a path without one stands for itself. -/
def key (path : String) : String :=
  match Path.normalize path with
  | .ok p => p
  | .error _ => path

def insertKey (k : String) : List String → List String
  | [] => [k]
  | j :: r => if k < j then k :: j :: r else if k = j then j :: r else j :: insertKey k r

def keys (e : Event) : List String := (e.paths.map key).foldr insertKey []

/-- Has the keeper do what the event asks for; a failure is told to the event's endpoint. -/
def handle : Event → Keeper → Keeper
  | .tracking endpoint signal => Keeper.attempt endpoint (Keeper.track signal)
  | .edited endpoint edit => Keeper.attempt endpoint (Keeper.edit endpoint edit)

end Event

structure Task where
  number : Nat
  event : Event
  after : List Nat
deriving DecidableEq, Repr

/-- The unfinished tasks in order of arrival, and the last task of each path. -/
structure Schedule where
  tails : List (String × Nat)
  tasks : List Task
  next : Nat
deriving DecidableEq, Repr

namespace Schedule

def tableLimit : Nat := 256

def empty : Schedule := ⟨[], [], 0⟩

def isDone (d : Schedule) (n : Nat) : Bool := !d.tasks.any fun t => t.number = n

def prune (d : Schedule) : Schedule :=
  if tableLimit ≤ d.tails.length then { d with tails := d.tails.filter fun e => !d.isDone e.2 }
  else d

/-- Registers a task for an event behind the last task of each of its paths. -/
def add (d : Schedule) (e : Event) : Schedule :=
  let d := d.prune
  { tails := e.keys.foldl (fun tails k => Assoc.put k d.next tails) d.tails
    tasks := d.tasks ++ [⟨d.next, e, e.keys.filterMap fun k => Assoc.get? k d.tails⟩]
    next := d.next + 1 }

def isReady (d : Schedule) (t : Task) : Bool := t.after.all d.isDone

def finish (d : Schedule) (t : Task) : Schedule :=
  { d with tasks := d.tasks.filter fun u => u.number ≠ t.number }

def step (s : Schedule × Keeper) : Schedule × Keeper :=
  match s.1.tasks.find? s.1.isReady with
  | none => s
  | some t => (s.1.finish t, t.event.handle s.2)

def drain (d : Schedule) (k : Keeper) : Schedule × Keeper :=
  d.tasks.foldl (fun s _ => step s) (d, k)

end Schedule

end DraftKeeper
