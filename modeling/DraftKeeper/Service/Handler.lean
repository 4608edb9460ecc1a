import DraftKeeper.Worker
import DraftKeeper.Wire.Envelope
import DraftKeeper.Wire.Events

namespace DraftKeeper

open Json

inductive Method
  | ping
  | shutdown
  | trackFile
  | trackChanges
  | content
  | persistentPath
  | recoverable
deriving DecidableEq, Repr

namespace Method

def all : List Method :=
  [.ping, .shutdown, .trackFile, .trackChanges, .content, .persistentPath, .recoverable]

def name : Method → String
  | .ping => "rpc.ping"
  | .shutdown => "daemon.shutdown"
  | .trackFile => "track:editor-file"
  | .trackChanges => "track:editor-content-changes"
  | .content => "working_copy.content"
  | .persistentPath => "working_copy.persistent_path"
  | .recoverable => "working_copy.recoverable"

def ofName? (n : String) : Option Method := all.find? fun m => m.name = n

def errorNotice : String := "track:editor-working-copy-error"

def updateNotice : String := "track:editor-working-copy-updated"

def outbound : List String := [errorNotice, updateNotice]

end Method

inductive Refusal
  | unreadable (cause : TextError)
  | invalidRequest
  | unknownMethod (name : String)
  | missingParams (method : String)
  | undecodableParams (method : String) (cause : DecodeError)
  | queueClosed
  | failed (cause : Failure)

namespace Refusal

def parseError : Int := -32700

def invalidRequestError : Int := -32600

def methodNotFound : Int := -32601

def invalidParams : Int := -32602

def internalError : Int := -32603

def note (name text : String) : Option Json := some (.object [(name, .string text)])

def toError : Refusal → ErrorObject
  | .unreadable cause => ⟨parseError, "Parse error", note "reason" cause.message⟩
  | .invalidRequest => ⟨invalidRequestError, "Invalid Request", none⟩
  | .unknownMethod name => ⟨methodNotFound, "Method not found", note "method" name⟩
  | .missingParams method =>
    ⟨invalidParams, "Invalid params", note "reason" (method ++ " requires params")⟩
  | .undecodableParams method cause =>
    ⟨invalidParams, "Invalid params",
      note "reason" ("failed to decode " ++ method ++ " params: " ++ cause.message)⟩
  | .queueClosed => ⟨internalError, "Internal error", note "reason" "event queue is closed"⟩
  | .failed cause => ⟨cause.status, cause.message, note "kind" cause.kind.name⟩

end Refusal

structure PathQuery where
  path : String
deriving DecidableEq, Repr

namespace PathQuery

def layout : Layout := ⟨"struct PathParams", [required "path" asText]⟩

def ofJson : Decoder PathQuery := fun v => do
  let fields ← layout.fields "PathParams" v
  return ⟨← need fields "path" asText⟩

end PathQuery

structure Reply where
  response : Option Response
  shutdown : Bool

namespace Handler

/-- The parameters of a request, their fields taken in the order of their names. -/
def params {α : Type} (decode : Decoder α) (r : Request) : Except Refusal α :=
  match r.params with
  | none => .error (.missingParams r.method)
  | some v => (decode v.sorted).mapError (.undecodableParams r.method)

def okay (name : String) : Json := .object [(name, .bool true)]

def orNull (s : Option String) : Json := (s.map Json.string).getD .null

def enqueue (e : Event) (w : Worker) : Except Refusal Json × Worker :=
  match w.send e with
  | some w => (.ok (okay "accepted"), w)
  | none => (.error .queueClosed, w)

def query (ask : String → Keeping Json) (request : Request) (w : Worker) :
    Except Refusal Json × Worker :=
  match params PathQuery.ofJson request with
  | .error e => (.error e, w)
  | .ok p =>
    match ask p.path w.keeper with
    | .ok v keeper => (.ok v, { w with keeper })
    | .error f keeper => (.error (.failed f), { w with keeper })

def perform (endpoint : String) (request : Request) (w : Worker) :
    Method → Except Refusal Json × Worker
  | .ping | .shutdown => (.ok (okay "ok"), w)
  | .trackFile =>
    match params Tracking.ofJson request with
    | .error e => (.error e, w)
    | .ok signal => enqueue (.tracking endpoint signal) w
  | .trackChanges =>
    match params Edit.ofJson request with
    | .error e => (.error e, w)
    | .ok edit => enqueue (.edited endpoint edit) w
  | .content =>
    query (fun p => do return .object [("content", .string (← Keeper.content p))]) request w
  | .persistentPath =>
    query (fun p => do return .object [("path", orNull (← Keeper.persistentLocation? p))]) request w
  | .recoverable =>
    query (fun p => do return .object [("content", orNull (← Keeper.recoverable? p))]) request w

def serve (endpoint : String) (request : Request) (w : Worker) : Except Refusal Json × Worker :=
  match Method.ofName? request.method with
  | none => (.error (.unknownMethod request.method), w)
  | some m => perform endpoint request w m

def toResponse (id : CallId) : Except Refusal Json → Response
  | .ok v => .success id v
  | .error e => .failure id e.toError

def handle (endpoint : String) (request : Request) (w : Worker) : Reply × Worker :=
  if request.jsonrpc ≠ protocolVersion then
    (⟨some (toResponse (request.id.getD .null) (.error .invalidRequest)), false⟩, w)
  else
    let (outcome, w) := serve endpoint request w
    (⟨request.id.map fun id => toResponse id outcome,
      Method.ofName? request.method = some .shutdown⟩, w)

def handleLine (endpoint : String) (line : Bytes) (w : Worker) : Reply × Worker :=
  match Request.ofText line with
  | .error e => (⟨some (toResponse .null (.error (.unreadable e))), false⟩, w)
  | .ok request => handle endpoint request w

end Handler

end DraftKeeper
