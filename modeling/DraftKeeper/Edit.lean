import DraftKeeper.Delta
import DraftKeeper.Time.Rfc3339

namespace DraftKeeper

structure Edit where
  location : String
  delta : Delta
deriving DecidableEq, Repr

structure Update where
  endpoint : String
  edit : Edit
  appliedAt : Time.Instant
deriving DecidableEq, Repr

structure ErrorReport where
  code : Nat
  message : String
deriving DecidableEq, Repr

end DraftKeeper
