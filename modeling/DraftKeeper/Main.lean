import DraftKeeper.Reach
import DraftKeeper.Launch
import Std.Sync.Mutex
import Std.Time.DateTime.Timestamp

namespace DraftKeeper.Main

def file (base : String) (p : Place) := System.mkFilePath [Launch.locationOf base p]

/-- The entry at a place as far as it can be read. Its mode counts as the usual one. -/
def look (base : String) (p : Place) : IO (Option Entry) := do
  try
    match (← (file base p).metadata).type with
    | .dir => return some (.folder Disk.newFolderMode)
    | .file => return some (.file Disk.newFileMode (← IO.FS.readBinFile (file base p)).toList)
    | _ => return none
  catch _ => return none

def observe (base : String) (places : List Place) : IO Disk := do
  let mut disk : Disk := ⟨[]⟩
  for p in places.flatMap fun p => (List.range (p.length + 1)).map p.take do
    if (disk.get? p).isNone then
      if let some e ← look base p then disk := disk.put p e
  return disk

def access (digit : Nat) : IO.AccessRight := ⟨digit / 4 % 2 = 1, digit / 2 % 2 = 1, digit % 2 = 1⟩

def rights (mode : Nat) : IO.FileRight :=
  ⟨access (mode / 64), access (mode / 8), access mode⟩

def store (base : String) (p : Place) (old : Option Entry) (new : Entry) : IO Unit := do
  let f := file base p
  match old, new with
  | none, .folder _ => IO.FS.createDir f
  | some (.file _ content), .file _ content' =>
    if content ≠ content' then IO.FS.writeBinFile f ⟨content'.toArray⟩
  | _, .file _ content => IO.FS.writeBinFile f ⟨content.toArray⟩
  | some _, .folder _ => pure ()
  let usual := if new.isFolder then Disk.newFolderMode else Disk.newFileMode
  if new.mode ≠ (old.map Entry.mode).getD usual then IO.setAccessRights f (rights new.mode)

/-- Writes what changed; a change that the system refuses is told on standard error. -/
def commit (base : String) (old new : Disk) : IO Unit := do
  try
    for (p, e) in new.entries do
      if old.get? p ≠ some e then store base p (old.get? p) e
    for (p, _) in old.entries do
      if (new.get? p).isNone then IO.FS.removeFile (file base p)
  catch e => IO.eprintln s!"{e}"

def send (s : Serving) : IO Serving := do
  let output ← IO.getStdout
  try
    for m in s.sent do output.putStr (m.toJson.render ++ "\n")
    output.flush
    return { s with sent := [] }
  catch _ => return s.close .writeFailed

def now : IO Time.Instant := do
  let t ← Std.Time.Timestamp.now
  return .ofSeconds t.val.second.val t.val.nano.val.toNat

def step (base : String) (places : List Place) (work : Serving → Serving) (s : Serving) :
    IO Serving := do
  let disk ← observe base places
  let keeper := { s.worker.keeper with workspace := ⟨base, disk⟩, clock := ← now }
  let s := work { s with worker := { s.worker with keeper } }
  commit base disk s.worker.keeper.workspace.disk
  send s

/-- The next line of the input with its line feed, or what is left at the end. -/
def readLine (input : IO.FS.Stream) : IO Bytes := do
  let mut line : Bytes := []
  repeat
    match (← input.read 1).toList with
    | [] => break
    | b :: _ =>
      line := b :: line
      if b = Framing.lineFeed then break
  return line.reverse

def takeIn (base : String) (bs : Bytes) (s : Serving) : IO Serving :=
  let work (s : Serving) := if bs.isEmpty then s.finish.settle else (s.receive bs).settle
  step base (s.reach bs) work s

def sweepOnTime (base : String) (started : Nat) (state : Std.Mutex Serving) : IO Unit := do
  repeat
    IO.sleep 20
    let goesOn ← state.atomically do
      let s ← get
      let elapsed := (← IO.monoMsNow) - started
      if s.isOpen && s.worker.isDue elapsed then
        set (← step base s.worker.keeper.trackedReach (·.advance (elapsed - s.worker.now)) s)
      return s.isOpen
    if !goesOn then break

def serve (base : String) (settings : Settings) (endpoint : String) : IO UInt32 := do
  let input ← IO.getStdin
  let state ← Std.Mutex.new (Launch.serving endpoint settings ⟨base, ⟨[]⟩⟩)
  let sweeper ← IO.asTask (sweepOnTime base (← IO.monoMsNow) state)
  repeat
    let line ← readLine input
    let goesOn ← state.atomically do
      set (← takeIn base line (← get))
      return (← get).isOpen
    if !goesOn then break
  let _ ← IO.wait sweeper
  state.atomically do
    let s ← get
    let s ← step base s.worker.keeper.trackedReach Serving.shutdown s
    if let some text := s.connection.exit.bind Exit.message? then IO.eprintln ("Error: " ++ text)
    return UInt32.ofNat (Launch.exitCode s)

def settings : Option String → IO Settings
  | some path => do
    match Settings.ofBytes (← IO.FS.readBinFile path).toList with
    | .ok s => return s
    | .error e => throw (IO.userError (StartError.settings e).message)
  | none => do
    try
      let home := (← IO.getEnv "HOME").getD "/"
      let bytes ← IO.FS.readBinFile (file home Settings.homePlace)
      return (Settings.ofBytes bytes.toList).toOption.getD Settings.default
    catch _ => return Settings.default

def start (root : String) (settingsPath : Option String) : IO UInt32 := do
  try
    let settings ← settings settingsPath
    let base ← IO.FS.realPath root
    serve base.toString settings (Digest.Sha256.hex (← IO.getRandomBytes 16).toList)
  catch e =>
    IO.eprintln s!"Error: {e}"
    return 1

end DraftKeeper.Main

open DraftKeeper in
def main (arguments : List String) : IO UInt32 := do
  match CommandLine.parse arguments with
  | .error e =>
    IO.eprintln e.message
    return 2
  | .ok .help =>
    IO.println CommandLine.help
    return 0
  | .ok .version =>
    IO.println CommandLine.version
    return 0
  | .ok (.serve root settings) => Main.start root settings
