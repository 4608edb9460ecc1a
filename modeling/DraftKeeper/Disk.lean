import DraftKeeper.Assoc
import DraftKeeper.Path
import DraftKeeper.Text.Utf8

/-!
A tree of files and folders with their modes, and what the system says when something cannot be
done to it. A place is the list of names on the way from the root; every change concerns one entry,
those that move or remove a whole folder apart.

Only the shape of the tree can be in the way here. Links and foreign owners do not occur, nobody
lacks room or a permission, and a write that fails has changed nothing. A name can be too long, but
a whole path cannot: its length is limited only where a `Trail` is followed.
-/

namespace DraftKeeper

abbrev Place := List String

inductive Fault
  | missing
  | exists
  | notFolder
  | isFolder
  | nameTooLong
  | nullByte
deriving DecidableEq, Repr

def Fault.message : Fault → String
  | .missing => "No such file or directory (os error 2)"
  | .exists => "File exists (os error 17)"
  | .notFolder => "Not a directory (os error 20)"
  | .isFolder => "Is a directory (os error 21)"
  | .nameTooLong => "File name too long (os error 36)"
  | .nullByte => "file name contained an unexpected NUL byte"

inductive Entry
  | file (mode : Nat) (content : Bytes)
  | folder (mode : Nat)
deriving DecidableEq, Repr

namespace Entry

def mode : Entry → Nat
  | .file m _ | .folder m => m

def withMode (m : Nat) : Entry → Entry
  | .file _ content => .file m content
  | .folder _ => .folder m

def isFolder : Entry → Bool
  | .folder _ => true
  | .file .. => false

end Entry

structure Disk where
  entries : List (Place × Entry)
deriving DecidableEq, Repr

namespace Disk

def newFileMode : Nat := 0o644

def newFolderMode : Nat := 0o755

def maxName : Nat := 255

def isTooLong (name : String) : Bool := maxName < name.utf8ByteSize

def empty : Disk := ⟨[([], .folder newFolderMode)]⟩

def get? (d : Disk) (p : Place) : Option Entry := Assoc.get? p d.entries

def put (d : Disk) (p : Place) (e : Entry) : Disk := ⟨Assoc.put p e d.entries⟩

def erase (d : Disk) (p : Place) : Disk := ⟨Assoc.erase p d.entries⟩

@[simp] theorem get?_put (d : Disk) (p q : Place) (e : Entry) :
    (d.put p e).get? q = if p = q then some e else d.get? q := Assoc.get?_put ..

@[simp] theorem get?_erase (d : Disk) (p q : Place) :
    (d.erase p).get? q = if p = q then none else d.get? q := Assoc.get?_erase ..

def obstacle (d : Disk) : Place → Place → Fault
  | _, [] => .missing
  | here, name :: rest =>
    match d.get? here with
    | none => .missing
    | some (.file ..) => .notFolder
    | some (.folder _) => if isTooLong name then .nameTooLong else obstacle d (here ++ [name]) rest

def locate (d : Disk) (p : Place) : Except Fault Entry :=
  match d.get? p with
  | some e => .ok e
  | none => .error (d.obstacle [] p)

@[simp] theorem locate_eq_ok_iff {d : Disk} {p : Place} {e : Entry} :
    d.locate p = .ok e ↔ d.get? p = some e := by
  unfold locate
  split <;> simp_all

def isFolder (d : Disk) (p : Place) : Bool :=
  match d.locate p with
  | .ok e => e.isFolder
  | .error _ => false

def read (d : Disk) (p : Place) : Except Fault Bytes :=
  match d.locate p with
  | .ok (.file _ content) => .ok content
  | .ok (.folder _) => .error .isFolder
  | .error f => .error f

def write (d : Disk) (p : Place) (content : Bytes) : Except Fault Disk :=
  match d.locate p with
  | .ok (.file m _) => .ok (d.put p (.file m content))
  | .ok (.folder _) => .error .isFolder
  | .error .missing =>
    if d.isFolder p.dropLast then .ok (d.put p (.file newFileMode content)) else .error .missing
  | .error f => .error f

def remove (d : Disk) (p : Place) : Except Fault Disk :=
  match d.locate p with
  | .ok (.file ..) => .ok (d.erase p)
  | .ok (.folder _) => .error .isFolder
  | .error f => .error f

/-- Makes the folders that are missing on the way, as far as the way leads. -/
def makeFoldersFrom (d : Disk) : Place → Place → Except Fault Unit × Disk
  | _, [] => (.ok (), d)
  | here, name :: rest =>
    if isTooLong name then (.error .nameTooLong, d)
    else
      let next := here ++ [name]
      match d.get? next with
      | none => makeFoldersFrom (d.put next (.folder newFolderMode)) next rest
      | some (.folder _) => makeFoldersFrom d next rest
      | some (.file ..) => (.error (if rest.isEmpty then .exists else .notFolder), d)

def makeFolders (d : Disk) (p : Place) : Except Fault Unit × Disk := d.makeFoldersFrom [] p

def isBelow (p folder : Place) : Bool := folder.isPrefixOf p && p ≠ folder

def removeTree (d : Disk) (p : Place) : Disk := ⟨d.entries.filter fun e => !p.isPrefixOf e.1⟩

/-- The tree with an entry, and all that is below it, at another place. An empty folder or a file
of the same kind there gives way. -/
def rename (d : Disk) (source target : Place) : Option Disk :=
  match d.locate source with
  | .error _ => none
  | .ok e =>
    if source = target then some d
    else if source.isPrefixOf target || target.isPrefixOf source then none
    else
      let isFree : Bool := match d.locate target with
        | .ok (.file ..) => !e.isFolder
        | .ok (.folder _) => e.isFolder && !d.entries.any fun f => isBelow f.1 target
        | .error f => f = Fault.missing && d.isFolder target.dropLast
      if isFree then
        some ⟨(d.removeTree target).entries.map fun f =>
          if source.isPrefixOf f.1 then (target ++ f.1.drop source.length, f.2) else f⟩
      else none

def unsearchable (d : Disk) : List Place :=
  d.entries.filterMap fun (p, e) => if e.isFolder && e.mode / 64 % 2 = 0 then some p else none

/-- The modes that can be seen from the root: an entry of a folder that may not be searched shows
none, and what is below that entry cannot be seen. -/
def modes (d : Disk) : List (Place × Nat) :=
  let closed := d.unsearchable
  d.entries.filterMap fun (p, e) =>
    if p.isEmpty || closed.any (isBelow p.dropLast) then none
    else some (p, if closed.contains p.dropLast then 0 else e.mode)

end Disk

end DraftKeeper
