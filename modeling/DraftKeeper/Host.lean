import DraftKeeper.Trail

namespace DraftKeeper.Host

def makeWay : Place → List String → Disk → Disk
  | _, [], d => d
  | here, name :: rest, d =>
    if name = "." then makeWay here rest d
    else if name = ".." then if here.isEmpty then d else makeWay here.dropLast rest d
    else match d.makeFoldersFrom here [name] with
      | (.ok _, d) => makeWay (here ++ [name]) rest d
      | (.error _, d) => d

def makeFolder (path : String) (d : Disk) : Disk :=
  match Trail.ofPath path with
  | .error _ => d
  | .ok t => makeWay [] t.names d

def write (path : String) (content : Bytes) (d : Disk) : Disk :=
  match Trail.ofPath path with
  | .error _ => d
  | .ok t =>
    let d := makeWay [] t.parents d
    if t.endsInSlash then d
    else match d.slot? t with
      | none => d
      | some p => (d.write p content).toOption.getD d

def clear (p : Place) (d : Disk) : Disk := ⟨d.entries.filter fun e => !Disk.isBelow e.1 p⟩

/-- Removes a file or a whole folder. A folder that is named by dots is only emptied. -/
def remove (path : String) (d : Disk) : Disk :=
  match d.lookUp path with
  | .error _ => d
  | .ok p =>
    if ((Path.slashComponents path).getLast?.map Trail.isDots).getD false then clear p d
    else d.removeTree p

def rename (source target : String) (d : Disk) : Disk :=
  match Trail.ofPath source, Trail.ofPath target with
  | .ok s, .ok t =>
    match d.slot? s, d.slot? t with
    | some p, some q =>
      if (s.endsInSlash || t.endsInSlash) && !d.isFolder p then d else (d.rename p q).getD d
    | _, _ => d
  | _, _ => d

end DraftKeeper.Host
