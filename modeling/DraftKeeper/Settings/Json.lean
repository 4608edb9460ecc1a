import DraftKeeper.Json.Decode
import DraftKeeper.Settings

namespace DraftKeeper.Settings

open Json

def asUnit : Decoder TextUnit := fun v =>
  let known := TextUnit.all.map TextUnit.name
  let named (n : String) : Except DecodeError TextUnit :=
    match TextUnit.ofName? n with
    | some u => .ok u
    | none => .error (.unknownVariant n known)
  match v with
  | .string n => named n
  | .object [(n, body)] => do
    let u ← named n
    match body with
    | .null => pure u
    | body => .error (.wrongType body .unit)
  | .object _ => .error .notSingle
  | v => .error (.wrongType v .textOrMap)

def draftsLayout : Layout :=
  ⟨"struct WorkingCopiesConfig", [optional "dir" asText, optional "offset_unit" asUnit,
    optional "persist_interval_sec" (asNatural .unsigned64)]⟩

def draftsOfJson : Decoder DraftSettings := fun v => do
  let fields ← draftsLayout.fields "WorkingCopiesConfig" v
  return ⟨← getOr fields "dir" defaultDrafts.folder asText,
    ← getOr fields "offset_unit" defaultDrafts.unit asUnit,
    ← getOr fields "persist_interval_sec" defaultDrafts.sweepSeconds (asNatural .unsigned64)⟩

def eventsLayout : Layout :=
  ⟨"struct EventsConfig", [optional "channel_capacity" (asNatural .size)]⟩

def eventsOfJson : Decoder EventSettings := fun v => do
  let fields ← eventsLayout.fields "EventsConfig" v
  return ⟨← getOr fields "channel_capacity" defaultEvents.capacity (asNatural .size)⟩

def layout : Layout :=
  ⟨"struct DaemonConfig", [optional "working_copies" draftsOfJson, optional "events" eventsOfJson]⟩

def ofJson : Decoder Settings := fun v => do
  let fields ← layout.fields "DaemonConfig" v
  return ⟨← getOr fields "working_copies" defaultDrafts draftsOfJson,
    ← getOr fields "events" defaultEvents eventsOfJson⟩

def toJson (s : Settings) : Json :=
  .object [
    ("working_copies", .object [("dir", .string s.drafts.folder),
      ("offset_unit", .string s.drafts.unit.name),
      ("persist_interval_sec", .integer s.drafts.sweepSeconds)]),
    ("events", .object [("channel_capacity", .integer s.events.capacity)])]

end DraftKeeper.Settings
