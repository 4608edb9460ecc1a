import DraftKeeper.OwnerOnly

namespace DraftKeeper

inductive FailureCause
  | system (fault : Fault)
  | unreadable (cause : Unreadable)
  | stated (text : String)
deriving DecidableEq, Repr

def FailureCause.message : FailureCause → String
  | .system fault => fault.message
  | .unreadable cause => cause.message
  | .stated text => text

inductive ItemError
  | notFound (path : String)
  | wrongKind (path : String) (wanted : ItemKind)
  | invalidPath (path : String) (cause : PathFault)
  | conflict (path : String)
  | failure (path : String) (cause : FailureCause)
deriving DecidableEq, Repr

def ItemError.message : ItemError → String
  | .notFound path => s!"Item '{path}' isn't found"
  | .wrongKind path wanted => s!"Item '{path}' isn't a " ++ wanted.name
  | .invalidPath path cause => s!"invalid path '{path}': " ++ cause.message
  | .conflict path => s!"Item '{path}' already exists"
  | .failure path cause => s!"i/o failure on '{path}': " ++ cause.message

structure FileItem where
  path : String
  project : String
deriving DecidableEq, Repr

structure Workspace where
  root : String
  disk : Disk
deriving DecidableEq, Repr

namespace Workspace

def resolve (path : String) : Except ItemError (String × Place) :=
  match Path.normalize path with
  | .ok p => .ok (p, Path.slashComponents p)
  | .error e => .error (.invalidPath path e)

def system (path : String) (f : Fault) : ItemError := .failure path (.system f)

def missingOr (path : String) : Fault → ItemError
  | .missing => .notFound path
  | f => system path f

def file? (w : Workspace) (path : String) : Except ItemError (Option FileItem) := do
  let (p, place) ← resolve path
  match w.disk.locate place with
  | .ok (.file ..) => pure (some ⟨p, (Path.project? p).getD "/"⟩)
  | .ok (.folder _) => .error (.wrongKind p .file)
  | .error .missing => pure none
  | .error f => .error (system p f)

def folder? (w : Workspace) (path : String) : Except ItemError (Option String) := do
  let (p, place) ← resolve path
  match w.disk.locate place with
  | .ok (.folder _) => pure (some p)
  | .ok (.file ..) => .error (.wrongKind p .folder)
  | .error .missing => pure none
  | .error f => .error (system p f)

def projectBase? (w : Workspace) (project : String) : Except ItemError (Option String) := do
  let (p, place) ← resolve project
  match w.disk.locate place with
  | .ok (.folder _) => pure (some p)
  | .ok (.file ..) => pure none
  | .error .missing => pure none
  | .error f => .error (system p f)

def read (w : Workspace) (path : String) : Except ItemError Bytes := do
  let (p, place) ← resolve path
  (w.disk.read place).mapError (missingOr p)

def write (w : Workspace) (path : String) (content : Bytes) : Except ItemError Workspace := do
  let (p, place) ← resolve path
  let disk ← (w.disk.write place content).mapError (missingOr p)
  pure { w with disk }

def remove (w : Workspace) (path : String) : Except ItemError Workspace := do
  let (p, place) ← resolve path
  match w.disk.remove place with
  | .ok disk => pure { w with disk }
  | .error .missing => pure w
  | .error f => .error (system p f)

/-- Makes a folder and those above it. On failure the ones made so far stay. -/
def makeFolder (w : Workspace) (path : String) : Except ItemError String × Workspace :=
  match resolve path with
  | .error e => (.error e, w)
  | .ok (p, place) =>
    match w.disk.makeFolders place with
    | (.ok _, disk) => (.ok p, { w with disk })
    | (.error f, disk) => (.error (system p f), { w with disk })

def location (w : Workspace) (path : String) : String :=
  (if w.root.toList.getLast? = some '/' then w.root else w.root ++ "/") ++
    String.ofList (Path.trimStart path)

/-- Takes an item away from everybody but its owner. A missing one is left alone. -/
def restrict (w : Workspace) (path : String) : Except ItemError Workspace := do
  let (p, place) ← resolve path
  let kind : ItemKind := if w.disk.isFolder place then .folder else .file
  match w.disk.restrict kind place (w.location p) with
  | .ok disk => pure { w with disk }
  | .error cause => .error (.failure p (.unreadable cause))

end Workspace

end DraftKeeper
