import DraftKeeper.OwnerOnly
import DraftKeeper.Settings
import DraftKeeper.Toml.Reader
import DraftKeeper.Toml.Writer

namespace DraftKeeper

inductive SettingsError
  | system (fault : Fault)
  | notText
  | unreadable (cause : Unreadable)
  | malformed
  | unwritable
deriving DecidableEq, Repr

def SettingsError.message : SettingsError → String
  | .system fault => "config I/O error: " ++ fault.message
  | .notText => "config I/O error: stream did not contain valid UTF-8"
  | .unreadable cause => "config I/O error: " ++ cause.message
  | .malformed => "config parse error"
  | .unwritable => "config serialize error: out-of-range value for u64 type"

namespace Settings

open Toml

section Reading

/-- The entries of a table, which may be an array with its values in declared order. A date stands
for a table in which nothing is said. -/
def entriesOf? (names : List String) : Node → Option Entries
  | .table _ entries | .inlined entries => some entries
  | .array items => some (names.zip items)
  | .tables ts => some (names.zip (ts.map fun t => .table t.1 t.2))
  | .scalar .dateTime => some []
  | .scalar _ => none

def asString? : Node → Option String
  | .scalar (.string s) => some s
  | _ => none

def asNatural? : Node → Option Nat
  | .scalar (.integer n) => if 0 ≤ n then some n.toNat else none
  | _ => none

def isVoid : Node → Bool
  | .table _ es | .inlined es => es.isEmpty
  | .array items => items.isEmpty
  | _ => false

def asUnit? : Node → Option TextUnit
  | .scalar (.string s) => TextUnit.ofName? s
  | .table _ [(n, v)] | .inlined [(n, v)] => if isVoid v then TextUnit.ofName? n else none
  | _ => none

def entryOr {α : Type} (entries : Entries) (name : String) (absent : α) (read : Node → Option α) :
    Option α :=
  match Assoc.get? name entries with
  | some v => read v
  | none => some absent

def draftsOf? (v : Node) : Option DraftSettings := do
  let es ← entriesOf? ["dir", "offset_unit", "persist_interval_sec"] v
  return ⟨← entryOr es "dir" defaultDrafts.folder asString?,
    ← entryOr es "offset_unit" defaultDrafts.unit asUnit?,
    ← entryOr es "persist_interval_sec" defaultDrafts.sweepSeconds asNatural?⟩

def eventsOf? (v : Node) : Option EventSettings := do
  let es ← entriesOf? ["channel_capacity"] v
  return ⟨← entryOr es "channel_capacity" defaultEvents.capacity asNatural?⟩

def ofEntries? (es : Entries) : Option Settings := do
  return ⟨← entryOr es "working_copies" defaultDrafts draftsOf?,
    ← entryOr es "events" defaultEvents eventsOf?⟩

def ofText (text : String) : Except SettingsError Settings :=
  match (Toml.read? text).bind ofEntries? with
  | some s => .ok s
  | none => .error .malformed

def ofBytes (bs : Bytes) : Except SettingsError Settings :=
  match Text.Utf8.decode? bs with
  | some text => ofText text
  | none => .error .notText

def load (d : Disk) (p : Place) : Except SettingsError Settings := do
  let bs ← (d.read p).mapError .system
  ofBytes bs

def loadOrDefault (d : Disk) (p : Place) : Settings :=
  match load d p with
  | .ok s => s
  | .error _ => default

def homePlace : Place := [".draftsync", "config.toml"]

end Reading

section Writing

def greatest : Nat := 0x7FFFFFFFFFFFFFFF

def toText (s : Settings) : Except SettingsError String :=
  if s.drafts.sweepSeconds ≤ greatest ∧ s.events.capacity ≤ greatest then
    .ok ("[working_copies]\n" ++
      "dir = " ++ stringText s.drafts.folder ++ "\n" ++
      "offset_unit = " ++ stringText s.drafts.unit.name ++ "\n" ++
      "persist_interval_sec = " ++ toString s.drafts.sweepSeconds ++ "\n\n" ++
      "[events]\n" ++
      "channel_capacity = " ++ toString s.events.capacity ++ "\n")
  else .error .unwritable

/-- Saves settings to a file, making the folders above it. What was done before a failure stays. -/
def save (s : Settings) (p : Place) (location : Place → String) : EStateM SettingsError Disk Unit :=
  fun d =>
    let parent := p.dropLast
    match d.makeFolders parent with
    | (.error f, d) => .error (.system f) d
    | (.ok _, d) =>
      match d.restrict .folder parent (location parent) with
      | .error cause => .error (.unreadable cause) d
      | .ok d =>
        match s.toText with
        | .error e => .error e d
        | .ok text =>
          match d.write p (Text.Utf8.encode text) with
          | .error f => .error (.system f) d
          | .ok d =>
            match d.restrict .file p (location p) with
            | .error cause => .error (.unreadable cause) d
            | .ok d => .ok () d

end Writing

end Settings

end DraftKeeper
