import DraftKeeper.CommandLine
import DraftKeeper.Service.Connection
import DraftKeeper.Settings.File
import DraftKeeper.Trail

namespace DraftKeeper

/-- The surroundings of a run: a disk and the location of its root, the working folder and the home
folder on it, and what the editor sends. -/
structure Surroundings where
  disk : Disk
  base : String
  home : Place
  input : Bytes

/-- How a run ended: its exit code, what it sent to the editor and the disk after it. -/
structure Outcome where
  code : Nat
  sent : List Message
  disk : Disk

inductive StartError
  | settings (cause : SettingsError)
  | root (fault : Fault)
deriving DecidableEq, Repr

def StartError.message : StartError → String
  | .settings cause => "failed to load config: " ++ cause.message
  | .root fault => "workspace root is not accessible: " ++ fault.message

namespace Disk

def below (d : Disk) (p : Place) : Disk :=
  ⟨d.entries.filterMap fun (q, e) => if p.isPrefixOf q then some (q.drop p.length, e) else none⟩

def graft (d : Disk) (p : Place) (tree : Disk) : Disk :=
  ⟨(d.removeTree p).entries ++ tree.entries.map fun (q, e) => (p ++ q, e)⟩

end Disk

namespace Launch

/-- The path from the root of the disk that an argument means: a location below the base, or a path
relative to the base. -/
def pathOf (s : Surroundings) (argument : String) : Except Fault String :=
  let cs := argument.toList
  let base := s.base.toList
  let rest := cs.drop base.length
  if base.isPrefixOf cs && (rest.isEmpty || rest.head? = some '/') then .ok (String.ofList rest)
  else if cs.isEmpty || cs.head? = some '/' then .error .missing
  else .ok argument

/-- The settings of the file that is named, or the user's own or default ones. -/
def settings (s : Surroundings) : Option String → Except StartError Settings
  | some argument =>
    match (pathOf s argument).bind s.disk.lookUp with
    | .error f => .error (.settings (.system f))
    | .ok p => (Settings.load s.disk p).mapError .settings
  | none => .ok (Settings.loadOrDefault s.disk (s.home ++ Settings.homePlace))

/-- The place of the workspace. It is found name by name, so its path may have any length. -/
def rootPlace (s : Surroundings) (argument : String) : Except StartError Place :=
  ((pathOf s argument).bind fun path => s.disk.follow [] (Trail.ofText path).steps).mapError .root

def locationOf (base : String) (p : Place) : String := base ++ Path.ofComponents p

/-- The name under which the editor is known where no other can be told from it. -/
def endpoint : String := "editor"

def keeper (settings : Settings) (workspace : Workspace) : Keeper :=
  .new settings.options workspace settings.events.capacity (.ofSeconds 0 0)

def serving (endpoint : String) (settings : Settings) (workspace : Workspace) : Serving :=
  ⟨.new endpoint, .new (keeper settings workspace) (settings.sweepInterval?.map (1000 * ·)), []⟩

def serveAll (settings : Settings) (workspace : Workspace) (input : Bytes) : Serving :=
  (((serving endpoint settings workspace).receive input).finish).shutdown

def exitCode (s : Serving) : Nat := if s.connection.exit = some .writeFailed then 1 else 0

def start (s : Surroundings) (root : String) (settingsPath : Option String) :
    Except StartError Outcome := do
  let settings ← settings s settingsPath
  let p ← rootPlace s root
  let served := serveAll settings ⟨locationOf s.base p, s.disk.below p⟩ s.input
  return ⟨exitCode served, served.sent, s.disk.graft p served.worker.keeper.workspace.disk⟩

/-- A run with the given arguments: code 2 for a command line that is not understood, 1 for a start
that fails. -/
def run (s : Surroundings) (arguments : List String) : Outcome :=
  match CommandLine.parse arguments with
  | .error _ => ⟨2, [], s.disk⟩
  | .ok .help | .ok .version => ⟨0, [], s.disk⟩
  | .ok (.serve root settingsPath) =>
    match start s root settingsPath with
    | .ok outcome => outcome
    | .error _ => ⟨1, [], s.disk⟩

end Launch

end DraftKeeper
