import DraftKeeper.Keeper

namespace DraftKeeper

structure DraftSettings where
  folder : String
  unit : TextUnit
  sweepSeconds : Nat
deriving DecidableEq, Repr

structure EventSettings where
  capacity : Nat
deriving DecidableEq, Repr

structure Settings where
  drafts : DraftSettings
  events : EventSettings
deriving DecidableEq, Repr

namespace Settings

def defaultDrafts : DraftSettings := ⟨DraftFolder.defaultName, .char, 30⟩

def defaultEvents : EventSettings := ⟨512⟩

def default : Settings := ⟨defaultDrafts, defaultEvents⟩

def options (s : Settings) : Options := ⟨s.drafts.folder, s.drafts.unit, s.events.capacity⟩

def sweepInterval? (s : Settings) : Option Nat :=
  if s.drafts.sweepSeconds = 0 then none else some s.drafts.sweepSeconds

end Settings

namespace TextUnit

def name : TextUnit → String
  | .char => "char"
  | .utf16 => "utf16"

def all : List TextUnit := [.char, .utf16]

def ofName? (n : String) : Option TextUnit := all.find? fun u => u.name = n

end TextUnit

end DraftKeeper
