import DraftKeeper.Edit
import DraftKeeper.Json.Decode
import DraftKeeper.Tracking

namespace DraftKeeper

open Json

namespace Delta

def insertLayout : Layout :=
  ⟨"struct variant EditDelta::Insert",
    [required "offset" (asNatural .size), optional "text" asText]⟩

def removeLayout : Layout :=
  ⟨"struct variant EditDelta::Remove",
    [required "offset" (asNatural .size), optional "removedCharCount" (asInteger .signed64)]⟩

def variants : List (String × Layout) := [("INSERT", insertLayout), ("REMOVE", removeLayout)]

def toFields : Delta → List (String × Json)
  | .insert offset text =>
    [("type", .string "INSERT"), ("offset", .integer offset), ("text", .string text)]
  | .remove offset count =>
    [("type", .string "REMOVE"), ("offset", .integer offset), ("removedCharCount", .integer count)]

def toJson (d : Delta) : Json := .object d.toFields

def decode (form : TagForm) : Decoder Delta := fun v => do
  let (tag, fields) ← taggedFields "EditDelta" form variants v
  let offset ← need fields "offset" (asNatural .size)
  if tag = "INSERT" then return .insert offset (← getOr fields "text" "" asText)
  else return .remove offset (← getOr fields "removedCharCount" 0 (asInteger .signed64))

def ofJson : Decoder Delta := decode .name

end Delta

namespace Edit

def toJson (e : Edit) : Json := .object (("fileLocation", .string e.location) :: e.delta.toFields)

/-- The delta's tag may be its place here, since its fields are read after all others. -/
def ofJson : Decoder Edit
  | .object fields => do
    checkFields [required "fileLocation" asText] [] fields
    let location ← need fields "fileLocation" asText
    let delta ← Delta.decode .nameOrIndex (.object (fields.filter fun f => f.1 ≠ "fileLocation"))
    return ⟨location, delta⟩
  | v => .error (.wrongType v (.record "EditorChanges"))

end Edit

namespace Tracking

def pathLayout (variant : String) : Layout :=
  ⟨"struct variant FileTrackingOperation::" ++ variant, [required "path" asText]⟩

def optionalPathLayout (variant : String) : Layout :=
  ⟨"struct variant FileTrackingOperation::" ++ variant, [optional "path" (asOption asText)]⟩

def moveLayout : Layout :=
  ⟨"struct variant FileTrackingOperation::Move",
    [required "oldPath" asText, required "path" asText]⟩

def variants : List (String × Layout) :=
  [("START", pathLayout "Start"), ("STOP", pathLayout "Stop"),
   ("SUSPEND", optionalPathLayout "Suspend"), ("RESUME", optionalPathLayout "Resume"),
   ("MOVE", moveLayout)]

def optionalPath (path : Option String) : List (String × Json) :=
  path.toList.map fun p => ("path", .string p)

def toJson : Tracking → Json
  | .start p => .object [("type", .string "START"), ("path", .string p)]
  | .stop p => .object [("type", .string "STOP"), ("path", .string p)]
  | .suspend p => .object (("type", .string "SUSPEND") :: optionalPath p)
  | .resume p => .object (("type", .string "RESUME") :: optionalPath p)
  | .move old new =>
    .object [("type", .string "MOVE"), ("oldPath", .string old), ("path", .string new)]

def ofJson : Decoder Tracking := fun v => do
  let (tag, fields) ← taggedFields "FileTrackingOperation" .name variants v
  if tag = "START" then return .start (← need fields "path" asText)
  else if tag = "STOP" then return .stop (← need fields "path" asText)
  else if tag = "SUSPEND" then return .suspend (← getOr fields "path" none (asOption asText))
  else if tag = "RESUME" then return .resume (← getOr fields "path" none (asOption asText))
  else return .move (← need fields "oldPath" asText) (← need fields "path" asText)

end Tracking

namespace ErrorReport

def layout : Layout :=
  ⟨"struct ServerError", [required "code" (asNatural .unsigned16), required "message" asText]⟩

def toJson (e : ErrorReport) : Json :=
  .object [("code", .integer e.code), ("message", .string e.message)]

def ofJson : Decoder ErrorReport := fun v => do
  let fields ← layout.fields "ServerError" v
  return ⟨← need fields "code" (asNatural .unsigned16), ← need fields "message" asText⟩

def selection : Selection := .members [("code", .whole), ("message", .whole)]

end ErrorReport

namespace Update

def asInstant : Decoder Time.Instant
  | .string s => (Time.Rfc3339.parse s).mapError fun e => .badDate e.message
  | v => .error (.wrongType v .dateTime)

def layout : Layout :=
  ⟨"struct WorkingCopyUpdated",
    [required "endpointId" asText, required "changes" Edit.ofJson, required "appliedAt" asInstant]⟩

def toJson (u : Update) : Json :=
  .object [("endpointId", .string u.endpoint), ("changes", u.edit.toJson),
    ("appliedAt", .string (Time.Rfc3339.render u.appliedAt))]

def ofJson : Decoder Update := fun v => do
  let fields ← layout.fields "WorkingCopyUpdated" v
  return ⟨← need fields "endpointId" asText, ← need fields "changes" Edit.ofJson,
    ← need fields "appliedAt" asInstant⟩

def selection : Selection :=
  .members [("endpointId", .whole), ("changes", .whole), ("appliedAt", .whole)]

end Update

end DraftKeeper
