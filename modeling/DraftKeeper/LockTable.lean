import DraftKeeper.Assoc

namespace DraftKeeper

/-- A place in the queue of a lock. -/
structure Guard where
  lock : Nat
  ticket : Nat
deriving DecidableEq, Repr

/-- One lock per path. A lock is a queue of tickets: the first holds it, the others wait for it in order. -/
structure LockTable where
  table : List (String × Nat)
  queues : List (Nat × List Nat)
  nextLock : Nat
  nextTicket : Nat
deriving DecidableEq, Repr

inductive Acquired
  | single (guard : Guard)
  | both (first second : Guard)
deriving DecidableEq, Repr

namespace LockTable

def tableLimit : Nat := 256

def empty : LockTable := ⟨[], [], 0, 0⟩

def queue (l : LockTable) (lock : Nat) : List Nat := (Assoc.get? lock l.queues).getD []

def withQueue (l : LockTable) (lock : Nat) (q : List Nat) : LockTable :=
  { l with queues := if q.isEmpty then Assoc.erase lock l.queues else Assoc.put lock q l.queues }

@[simp] theorem queue_withQueue (l : LockTable) (lock j : Nat) (q : List Nat) :
    (l.withQueue lock q).queue j = if lock = j then q else l.queue j := by
  unfold withQueue queue
  cases q with
  | nil => simp only [List.isEmpty_nil, if_true, Assoc.get?_erase]; split <;> rfl
  | cons t r =>
    simp only [List.isEmpty_cons, Bool.false_eq_true, if_false, Assoc.get?_put]
    split <;> rfl

def isIdle (l : LockTable) (lock : Nat) : Bool := (l.queue lock).isEmpty

def prune (l : LockTable) : LockTable :=
  if tableLimit ≤ l.table.length then
    { l with table := l.table.filter fun e => !l.isIdle e.2 }
  else l

def entry (l : LockTable) (path : String) : Nat × LockTable :=
  let l := l.prune
  match Assoc.get? path l.table with
  | some lock => (lock, l)
  | none =>
    (l.nextLock,
      { l with table := Assoc.put path l.nextLock l.table, nextLock := l.nextLock + 1 })

def request (l : LockTable) (path : String) : Guard × LockTable :=
  let (lock, l) := l.entry path
  (⟨lock, l.nextTicket⟩,
    { l.withQueue lock (l.queue lock ++ [l.nextTicket]) with nextTicket := l.nextTicket + 1 })

def holds (l : LockTable) (g : Guard) : Bool := (l.queue g.lock).head? = some g.ticket

def release (l : LockTable) (g : Guard) : LockTable :=
  l.withQueue g.lock ((l.queue g.lock).filter (· ≠ g.ticket))

def tryLock (l : LockTable) (path : String) : Option Guard × LockTable :=
  let (g, l) := l.request path
  if l.holds g then (some g, l) else (none, l.release g)

/-- Takes the locks of two paths, the lesser path first, unless it would have to wait. Equal paths
take one guard. -/
def tryLockPair (l : LockTable) (a b : String) : Option Acquired × LockTable :=
  if a = b then
    let (g, l) := l.tryLock a
    (g.map .single, l)
  else
    let (first, second) := if a < b then (a, b) else (b, a)
    match l.tryLock first with
    | (none, l) => (none, l)
    | (some g, l) =>
      match l.tryLock second with
      | (none, l) => (none, l.release g)
      | (some h, l) => (some (.both g h), l)

def guards : Acquired → List Guard
  | .single g => [g]
  | .both g h => [g, h]

end LockTable

end DraftKeeper
