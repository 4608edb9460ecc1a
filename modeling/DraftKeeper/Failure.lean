import DraftKeeper.DraftFolder
import DraftKeeper.Delta
import DraftKeeper.Edit

namespace DraftKeeper

inductive FailureKind
  | notFound
  | forbidden
  | conflict
  | storage
  | outOfRange
  | unknown
deriving DecidableEq, Repr

namespace FailureKind

def name : FailureKind → String
  | .notFound => "NOT_FOUND"
  | .forbidden => "FORBIDDEN"
  | .conflict => "CONFLICT"
  | .storage => "STORAGE"
  | .outOfRange => "OUT_OF_RANGE"
  | .unknown => "UNKNOWN"

def status : FailureKind → Nat
  | .notFound => 400
  | _ => 500

end FailureKind

inductive Failure
  | invalidPath (cause : PathFault)
  | missing (path : String)
  | alreadyTracked (path : String)
  | outOfRange (cause : OutOfRange)
  | storage (cause : DraftFolderError)
  | stated (kind : FailureKind) (text : String)
deriving DecidableEq, Repr

namespace Failure

def itemKind : ItemError → FailureKind
  | .notFound _ => .notFound
  | .wrongKind .. | .invalidPath .. => .forbidden
  | .conflict _ => .conflict
  | .failure .. => .storage

def kind : Failure → FailureKind
  | .invalidPath _ => .forbidden
  | .missing _ => .notFound
  | .alreadyTracked _ => .conflict
  | .outOfRange _ => .outOfRange
  | .storage (.item cause) => itemKind cause
  | .storage (.projectUnavailable _) => .storage
  | .stated kind _ => kind

def status (f : Failure) : Nat := f.kind.status

def message : Failure → String
  | .invalidPath cause => "invalid path: " ++ cause.message
  | .missing path => (ItemError.notFound path).message
  | .alreadyTracked path => s!"Item '{path}' is already tracked"
  | .outOfRange cause => cause.message
  | .storage cause => cause.message
  | .stated _ text => text

/-- What every report to an endpoint begins with. -/
def reportIntroduction : String := "Can not handle file operation: "

def report (f : Failure) : ErrorReport := ⟨f.status, reportIntroduction ++ f.message⟩

end Failure

end DraftKeeper
