namespace DraftKeeper

inductive Json
  | null
  | bool (b : Bool)
  | integer (n : Int)
  | float (x : Float)
  | string (s : String)
  | array (items : List Json)
  | object (fields : List (String × Json))
deriving Inhabited, Repr

namespace Json

/-- Puts a field before the first greater name, unless the name is there already. -/
def insertNew (name : String) (v : Json) : List (String × Json) → List (String × Json)
  | [] => [(name, v)]
  | (n, w) :: fs =>
    if name < n then (name, v) :: (n, w) :: fs
    else if name = n then (n, w) :: fs
    else (n, w) :: insertNew name v fs

mutual

/-- The form in which fields are ordered by name, and of several fields with one name the last counts. -/
def sorted : Json → Json
  | .array items => .array (sortedItems items)
  | .object fields => .object (sortedFields fields)
  | v => v

def sortedItems : List Json → List Json
  | [] => []
  | v :: vs => v.sorted :: sortedItems vs

def sortedFields : List (String × Json) → List (String × Json)
  | [] => []
  | (n, v) :: fs => insertNew n v.sorted (sortedFields fs)

end

def field? (name : String) (fields : List (String × Json)) : Option Json := fields.lookup name

end Json

end DraftKeeper
