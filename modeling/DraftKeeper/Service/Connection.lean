import DraftKeeper.Service.Framing
import DraftKeeper.Service.Handler

namespace DraftKeeper

inductive Message
  | response (r : Response)
  | notice (report : ErrorReport)
  | update (u : Update)

namespace Message

def noticeRequest (report : ErrorReport) : Request :=
  .notification Method.errorNotice (some report.toJson)

def updateRequest (u : Update) : Request := .notification Method.updateNotice (some u.toJson)

def toJson : Message → Json
  | .response r => r.toJson
  | .notice report => (noticeRequest report).toJson
  | .update u => (updateRequest u).toJson

end Message

inductive Exit
  | finished
  | writeFailed
deriving DecidableEq, Repr

def Exit.message? : Exit → Option String
  | .finished => none
  | .writeFailed => some "failed to write json-rpc message"

structure Connection where
  endpoint : String
  reader : Framing.LineReader
  clientReads : Bool
  exit : Option Exit

/-- A connection at work over a worker, and the messages it has sent, in order. -/
structure Serving where
  connection : Connection
  worker : Worker
  sent : List Message

namespace Connection

def new (endpoint : String) : Connection := ⟨endpoint, .empty, true, none⟩

def isOpen (c : Connection) : Bool := c.exit.isNone

end Connection

namespace Serving

def isOpen (s : Serving) : Bool := s.connection.isOpen

def close (s : Serving) (e : Exit) : Serving :=
  { s with connection := { s.connection with exit := some e } }

def write (s : Serving) (m : Message) : Serving :=
  if s.connection.clientReads then { s with sent := s.sent ++ [m] } else s.close .writeFailed

def handleLine (s : Serving) (l : Bytes) : Serving :=
  if !s.isOpen then s
  else match Framing.request? l with
    | none => s
    | some request =>
      let (reply, worker) := Handler.handleLine s.connection.endpoint request s.worker
      let s := { s with worker }
      let s := match reply.response with
        | some r => s.write (.response r)
        | none => s
      if reply.shutdown && s.isOpen then s.close .finished else s

def receive (s : Serving) (bs : Bytes) : Serving :=
  if !s.isOpen then s
  else
    let (lines, reader) := s.connection.reader.feed bs
    let s := lines.foldl handleLine s
    { s with connection := { s.connection with reader } }

def finish (s : Serving) : Serving :=
  if !s.isOpen then s
  else
    let s := (s.connection.reader.last?.map s.handleLine).getD s
    if s.isOpen then s.close .finished else s

def interrupt (s : Serving) : Serving :=
  { s with connection := { s.connection with reader := s.connection.reader.interrupt } }

def deliver (s : Serving) (m : Message) : Serving := if s.isOpen then s.interrupt.write m else s

def deliverNotice (s : Serving) (n : Notice) : Serving :=
  if n.endpoint = s.connection.endpoint then s.deliver (.notice n.report) else s.interrupt

def flush (s : Serving) : Serving :=
  let k := s.worker.keeper
  let notices := k.outbox.notices
  let updates := k.updates
  let keeper := { k with updates := [], outbox := { k.outbox with notices := [] } }
  let s := { s with worker := { s.worker with keeper } }
  updates.foldl (fun s u => s.deliver (.update u)) (notices.foldl deliverNotice s)

def settle (s : Serving) : Serving := { s with worker := s.worker.settle }.flush

def advance (s : Serving) (milliseconds : Nat) : Serving :=
  { s with worker := s.worker.advance milliseconds }

/-- Closes the queue of events, handles what it holds and sweeps all drafts. -/
def shutdown (s : Serving) : Serving := { s with worker := s.worker.shutdown }

end Serving

end DraftKeeper
