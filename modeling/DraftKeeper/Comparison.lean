import DraftKeeper.Digest.Sha256
import DraftKeeper.Drafts
import DraftKeeper.Workspace

namespace DraftKeeper.Comparison

def textDigest (bs : Bytes) : String :=
  Digest.Sha256.digestHex (Text.Utf8.encode (Text.Utf8.decode bs))

/-- Both sides are decoded and encoded again before their digests are compared, so that a malformed file
equals an untouched draft of itself. -/
def differ (left right : Bytes) : Bool := textDigest left ≠ textDigest right

def fileContent? (w : Workspace) (path : String) : Except ItemError (Option Bytes) := do
  match ← w.file? path with
  | none => pure none
  | some _ => (w.read path).map some

/-- Whether the draft of a path holds what the file lacks. Where the two cannot be compared the
answer is no. -/
def isAhead (w : Workspace) (o : Drafts) (path : String) : Bool :=
  match o.get? path with
  | none => false
  | some draft =>
    match fileContent? w path with
    | .ok (some content) => differ draft.content content
    | .ok none => false
    | .error _ => false

end DraftKeeper.Comparison
