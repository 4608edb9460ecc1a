import DraftKeeper.Delta
import DraftKeeper.Text.Utf8

namespace DraftKeeper

/-- What an editor has made of a file's content, under the flat name by which it is kept in the draft folder
of its project. It is dirty from its first change until it is written there. -/
structure Draft where
  flat : String
  project : String
  content : Bytes
  dirty : Bool
deriving DecidableEq, Repr

namespace Draft

def new (flat project : String) (content : Bytes) : Draft := ⟨flat, project, content, false⟩

def text (d : Draft) : String := Text.Utf8.decode d.content

def replace (d : Draft) (content : Bytes) : Draft := { d with content, dirty := true }

def clean (d : Draft) : Draft := { d with dirty := false }

def rename (d : Draft) (flat project : String) : Draft := { d with flat, project }

/-- The draft after an edit of its text, or nothing if the edit has no effect. -/
def apply (d : Draft) (e : Delta) (u : TextUnit) : Except OutOfRange (Option Draft) :=
  match e.splice u d.text with
  | .ok (some text) => .ok (some (d.replace (Text.Utf8.encode text)))
  | .ok none => .ok none
  | .error cause => .error cause

end Draft

end DraftKeeper
