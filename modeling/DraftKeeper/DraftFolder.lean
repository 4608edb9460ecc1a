import DraftKeeper.Workspace

namespace DraftKeeper

inductive DraftFolderError
  | projectUnavailable (project : String)
  | item (cause : ItemError)
deriving DecidableEq, Repr

def DraftFolderError.message : DraftFolderError → String
  | .projectUnavailable project => s!"base folder of project '{project}' is unavailable"
  | .item cause => cause.message

/-- Work on a workspace that may fail and leaves what it did before it failed. -/
abbrev Storing (α : Type) := EStateM DraftFolderError Workspace α

namespace Storing

def ask {α : Type} (f : Workspace → Except ItemError α) : Storing α := fun w =>
  match f w with
  | .ok a => .ok a w
  | .error e => .error (.item e) w

def change (f : Workspace → Except ItemError Workspace) : Storing Unit := fun w =>
  match f w with
  | .ok w' => .ok () w'
  | .error e => .error (.item e) w

def makeFolder (path : String) : Storing String := fun w =>
  match w.makeFolder path with
  | (.ok p, w') => .ok p w'
  | (.error e, w') => .error (.item e) w'

def restrictAlong : String → List String → Storing Unit
  | _, [] => pure ()
  | base, name :: names => do
    let next := Path.join base name
    change fun w => w.restrict next
    restrictAlong next names

end Storing

/-- The folder `<project base>/<folder name>` of a project, which holds the drafts of its files by their flat
names. Every folder that its name leads through is the owner's alone. -/
structure DraftFolder where
  project : String
  path : String
deriving DecidableEq, Repr

namespace DraftFolder

def defaultName : String := ".draftsync/working_copies"

/-- The draft folder of a project, if the project has a base and the folder exists. -/
def find? (name project : String) : Storing (Option DraftFolder) := do
  match ← Storing.ask fun w => w.projectBase? project with
  | none => return none
  | some base =>
    let found ← Storing.ask fun w => w.folder? (Path.join base name)
    return found.map fun path => ⟨project, path⟩

def create (name project : String) : Storing DraftFolder := do
  match ← Storing.ask fun w => w.projectBase? project with
  | none => throw (.projectUnavailable project)
  | some base =>
    let path ← Storing.makeFolder (Path.join base name)
    Storing.restrictAlong base (Path.slashComponents name)
    return ⟨project, path⟩

def ensure (name project : String) : Storing DraftFolder := do
  match ← find? name project with
  | some folder => return folder
  | none => create name project

def filePath (folder : DraftFolder) (flat : String) : String := Path.join folder.path flat

def contains (folder : DraftFolder) (flat : String) : Storing Bool := do
  let found ← Storing.ask fun w => w.file? (folder.filePath flat)
  return found.isSome

def read? (folder : DraftFolder) (flat : String) : Storing (Option Bytes) := fun w =>
  match w.read (folder.filePath flat) with
  | .ok content => .ok (some content) w
  | .error (.notFound _) => .ok none w
  | .error e => .error (.item e) w

def write (folder : DraftFolder) (flat : String) (content : Bytes) : Storing Unit := do
  Storing.change fun w => w.write (folder.filePath flat) content
  Storing.change fun w => w.restrict (folder.filePath flat)

def delete (folder : DraftFolder) (flat : String) : Storing Unit :=
  Storing.change fun w => w.remove (folder.filePath flat)

def location (folder : DraftFolder) (w : Workspace) (flat : String) : String :=
  w.location (folder.filePath flat)

end DraftFolder

end DraftKeeper
