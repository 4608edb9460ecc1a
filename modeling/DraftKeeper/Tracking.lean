namespace DraftKeeper

inductive Tracking
  | start (path : String)
  | stop (path : String)
  | suspend (path : Option String)
  | resume (path : Option String)
  | move (old new : String)
deriving DecidableEq, Repr

namespace Tracking

def kind : Tracking → String
  | .start _ => "start"
  | .stop _ => "stop"
  | .suspend _ => "suspend"
  | .resume _ => "resume"
  | .move .. => "move"

def paths : Tracking → List String
  | .start p | .stop p => [p]
  | .suspend p | .resume p => p.toList
  | .move old new => [old, new]

end Tracking

end DraftKeeper
