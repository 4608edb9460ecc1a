import DraftKeeper.Disk

namespace DraftKeeper

structure Trail where
  names : List String
  endsInSlash : Bool
deriving DecidableEq, Repr

namespace Trail

def maxLength : Nat := 4095

def isDots (name : String) : Bool := name = "." || name = ".."

def ofText (path : String) : Trail := ⟨Path.slashComponents path, path.toList.getLast? = some '/'⟩

/-- A path that the system takes. It may not be too long, and a null byte would end it. -/
def ofPath (path : String) : Except Fault Trail :=
  if path.toList.contains (Char.ofNat 0) then .error .nullByte
  else if maxLength < path.utf8ByteSize then .error .nameTooLong
  else .ok (ofText path)

/-- The names to be followed one after the other. -/
def steps (t : Trail) : List String := if t.endsInSlash then t.names ++ ["."] else t.names

/-- The names on the way to the last one, without those that lead nowhere else. -/
def parents (t : Trail) : List String := (t.names.filter (· ≠ ".")).dropLast

end Trail

namespace Disk

/-- The place that names lead to, with dots resolved. Nothing lies above the root. -/
def follow (d : Disk) : Place → List String → Except Fault Place
  | here, [] =>
    match d.get? here with
    | some _ => .ok here
    | none => .error .missing
  | here, name :: rest =>
    match d.get? here with
    | none => .error .missing
    | some (.file ..) => .error .notFolder
    | some (.folder _) =>
      if isTooLong name then .error .nameTooLong
      else if name = "." then follow d here rest
      else if name = ".." then
        if here.isEmpty then .error .missing else follow d here.dropLast rest
      else follow d (here ++ [name]) rest

def lookUp (d : Disk) (path : String) : Except Fault Place := do
  let t ← Trail.ofPath path
  d.follow [] t.steps

/-- The place that the last name of a path has, if the way to it is there. -/
def slot? (d : Disk) (t : Trail) : Option Place :=
  match t.names.getLast? with
  | none => none
  | some name =>
    if Trail.isDots name then none
    else (d.follow [] t.names.dropLast).toOption.map (· ++ [name])

end Disk

end DraftKeeper
