import DraftKeeper.Trail

namespace DraftKeeper

inductive ItemKind
  | file
  | folder
deriving DecidableEq, Repr

namespace ItemKind

def name : ItemKind → String
  | .file => "file"
  | .folder => "folder"

def ownerMode : ItemKind → Nat
  | .file => 0o600
  | .folder => 0o700

end ItemKind

structure Unreadable where
  location : String
deriving DecidableEq, Repr

def Unreadable.message (e : Unreadable) : String := "failed to stat `" ++ e.location ++ "`"

namespace Disk

def setMode (d : Disk) (p : Place) (mode : Nat) : Disk :=
  match d.get? p with
  | some e => d.put p (e.withMode mode)
  | none => d

/-- As `setMode`, by the path of the item. What is not found is left alone. -/
def setModeAt (d : Disk) (path : String) (mode : Nat) : Disk :=
  match d.lookUp path with
  | .ok p => d.setMode p mode
  | .error _ => d

/-- Takes an item that is to be of the given kind away from everybody but its owner. -/
def restrict (d : Disk) (kind : ItemKind) (p : Place) (location : String) :
    Except Unreadable Disk :=
  match d.locate p with
  | .ok _ => .ok (d.setMode p kind.ownerMode)
  | .error .missing => .ok d
  | .error _ => .error ⟨location⟩

def restrictAt (d : Disk) (kind : ItemKind) (path location : String) : Except Unreadable Disk :=
  match d.lookUp path with
  | .ok p => d.restrict kind p location
  | .error .missing => .ok d
  | .error _ => .error ⟨location⟩

end Disk

end DraftKeeper
