import DraftKeeper.Comparison
import DraftKeeper.Failure
import DraftKeeper.Tracking

namespace DraftKeeper

structure Options where
  folder : String
  unit : TextUnit
  updateCapacity : Nat
deriving DecidableEq, Repr

/-- How many updates are held for a subscriber: the least power of two that is enough. -/
def Options.heldUpdates (o : Options) : Nat := (max 1 o.updateCapacity).nextPowerOfTwo

structure Notice where
  endpoint : String
  report : ErrorReport
deriving DecidableEq, Repr

structure Outbox where
  capacity : Nat
  notices : List Notice
  closed : Bool
deriving DecidableEq, Repr

namespace Outbox

def new (capacity : Nat) : Outbox := ⟨max 1 capacity, [], false⟩

def send (b : Outbox) (n : Notice) : Outbox :=
  if b.closed || b.capacity ≤ b.notices.length then b else { b with notices := b.notices ++ [n] }

end Outbox

structure Keeper where
  options : Options
  workspace : Workspace
  drafts : Drafts
  updates : List Update
  outbox : Outbox
  clock : Time.Instant

/-- What a sweep did: drafts written, and drafts that could not be written. -/
structure SweepReport where
  persisted : Nat
  failed : Nat
deriving DecidableEq, Repr

/-- Work of the keeper that may fail and leaves what it did before it failed. -/
abbrev Keeping (α : Type) := EStateM Failure Keeper α

namespace Keeper

def defaultUpdateCapacity : Nat := 512

def new (options : Options) (workspace : Workspace) (outboxCapacity : Nat) (clock : Time.Instant) :
    Keeper :=
  ⟨options, workspace, .empty, [], .new outboxCapacity, clock⟩

section Steps

def normalized (path : String) : Keeping String := fun k =>
  match Path.normalize path with
  | .ok p => .ok p k
  | .error e => .error (.invalidPath e) k

def storing {α : Type} (work : Storing α) : Keeping α := fun k =>
  match work k.workspace with
  | .ok a w => .ok a { k with workspace := w }
  | .error e w => .error (.storage e) { k with workspace := w }

def ask {α : Type} (f : Workspace → Except ItemError α) : Keeping α := storing (Storing.ask f)

def draft? (path : String) : Keeping (Option Draft) := do return (← get).drafts.get? path

def keep (path : String) (draft : Draft) : Keeping Unit :=
  modify fun k => { k with drafts := k.drafts.put path draft }

def forget (path : String) : Keeping Unit :=
  modify fun k => { k with drafts := k.drafts.erase path }

def publish (endpoint : String) (edit : Edit) : Keeping Unit :=
  modify fun k => { k with updates := k.updates ++ [⟨endpoint, edit, k.clock⟩] }

def folderName : Keeping String := do return (← get).options.folder

def ensureFolder (project : String) : Keeping DraftFolder := do
  storing (DraftFolder.ensure (← folderName) project)

def findFolder? (project : String) : Keeping (Option DraftFolder) := do
  storing (DraftFolder.find? (← folderName) project)

def write (draft : Draft) : Keeping String := do
  let folder ← ensureFolder draft.project
  storing (folder.write draft.flat draft.content)
  return folder.location (← get).workspace draft.flat

def save (path : String) (draft : Draft) : Keeping String := do
  let location ← write draft
  keep path draft.clean
  return location

/-- Starts tracking a file with the content it has. A draft file that is there already
is left alone: it may hold edits kept earlier. -/
def create (path : String) : Keeping Draft := do
  match ← ask fun w => w.file? path with
  | none => throw (.missing path)
  | some file =>
    let content ← ask fun w => w.read path
    let draft := Draft.new (Path.flatten path) file.project content
    let folder ← ensureFolder draft.project
    if !(← storing (folder.contains draft.flat)) then
      storing (folder.write draft.flat draft.content)
    keep path draft
    return draft

/-- Deletes the draft file of a flat name, if the project has a draft folder. -/
def discard (project flat : String) : Keeping Unit := do
  match ← findFolder? project with
  | some folder => storing (folder.delete flat)
  | none => pure ()

end Steps

section Queries

def isTracked (k : Keeper) (path : String) : Bool :=
  match Path.normalize path with
  | .ok p => k.drafts.contains p
  | .error _ => false

def tracked (k : Keeper) : List String := k.drafts.paths

/-- What a subscriber who looks only now still finds: the newest updates, and the number of those
that are lost. -/
def heldUpdates (k : Keeper) : Nat × List Update :=
  let lost := k.updates.length - k.options.heldUpdates
  (lost, k.updates.drop lost)

/-- The text of a path: of its draft if it is tracked, else of the file. -/
def content (path : String) : Keeping String := do
  let p ← normalized path
  match ← draft? p with
  | some draft => return draft.text
  | none =>
    match ← ask fun w => w.file? p with
    | none => throw (.missing p)
    | some _ => return Text.Utf8.decode (← ask fun w => w.read p)

/-- Where the draft file of a path lies. A tracked file is written first. -/
def persistentLocation? (path : String) : Keeping (Option String) := do
  let p ← normalized path
  match ← draft? p with
  | some draft => return some (← save p draft)
  | none =>
    match ← ask fun w => w.file? p with
    | none => return none
    | some file =>
      match ← findFolder? file.project with
      | none => return none
      | some folder =>
        let flat := Path.flatten p
        if ← storing (folder.contains flat) then
          return some (folder.location (← get).workspace flat)
        else return none

def recoverable? (path : String) : Keeping (Option String) := do
  let p ← normalized path
  if (← draft? p).isSome then return none
  else
    match ← ask fun w => w.file? p with
    | none => return none
    | some file =>
      match ← findFolder? file.project with
      | none => return none
      | some folder =>
        match ← storing (folder.read? (Path.flatten p)) with
        | none => return none
        | some kept =>
          let current ← ask fun w => w.read p
          return if Comparison.differ kept current then some (Text.Utf8.decode kept) else none

end Queries

section Operations

/-- Applies an edit, on a draft made for it if the file is not tracked yet, and says whether it
changed anything. -/
def edit (endpoint : String) (e : Edit) : Keeping Bool := do
  let p ← normalized e.location
  let draft ← match ← draft? p with
    | some draft => pure draft
    | none => create p
  match draft.apply e.delta (← get).options.unit with
  | .error cause => throw (.outOfRange cause)
  | .ok none => return false
  | .ok (some changed) =>
    keep p changed
    publish endpoint e
    return true

def start (path : String) : Keeping Unit := do
  let p ← normalized path
  if (← draft? p).isNone then
    let _ ← create p

/-- Stops tracking. Edits that the file lacks stay in the draft file; else it is deleted. -/
def stop (path : String) : Keeping Unit := do
  let p ← normalized path
  match ← draft? p with
  | none => pure ()
  | some draft =>
    let k ← get
    if Comparison.isAhead k.workspace k.drafts p then
      let _ ← write draft
    else discard draft.project draft.flat
    forget p

def move (old new : String) : Keeping Unit := do
  let source ← normalized old
  let target ← normalized new
  if source = target then return
  match ← draft? source with
  | none => return
  | some draft =>
    if (← draft? target).isSome then throw (.alreadyTracked target)
    let moved := draft.rename (Path.flatten target) ((Path.project? target).getD draft.project)
    forget source
    keep target moved
    discard draft.project draft.flat
    let _ ← save target moved

def track : Tracking → Keeping Unit
  | .start p => start p
  | .stop p => stop p
  | .move old new => move old new
  | .suspend _ | .resume _ => pure ()

end Operations

def report (k : Keeper) (endpoint : String) (f : Failure) : Keeper :=
  { k with outbox := k.outbox.send ⟨endpoint, f.report⟩ }

def attempt {α : Type} (endpoint : String) (work : Keeping α) (k : Keeper) : Keeper :=
  match work k with
  | .ok _ k => k
  | .error f k => k.report endpoint f

/-- Writes one draft if it is dirty, and counts it. -/
def sweepOne (s : SweepReport × Keeper) (path : String) : SweepReport × Keeper :=
  match s.2.drafts.get? path with
  | none => s
  | some draft =>
    if draft.dirty then
      match save path draft s.2 with
      | .ok _ k => ({ s.1 with persisted := s.1.persisted + 1 }, k)
      | .error _ k => ({ s.1 with failed := s.1.failed + 1 }, k)
    else s

/-- Writes every dirty draft to its draft file, in the order of the paths. -/
def sweep (k : Keeper) : SweepReport × Keeper := k.tracked.foldl sweepOne (⟨0, 0⟩, k)

end Keeper

end DraftKeeper
