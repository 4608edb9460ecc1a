import DraftKeeper.Assoc

namespace DraftKeeper.Toml

inductive Scalar
  | string (s : String)
  | integer (n : Int)
  | float
  | bool (b : Bool)
  | dateTime
deriving DecidableEq, Repr

inductive TableForm
  | defined
  | implied
  | dotted
deriving DecidableEq, Repr

inductive Node
  | scalar (s : Scalar)
  | array (items : List Node)
  | inlined (entries : List (String × Node))
  | table (form : TableForm) (entries : List (String × Node))
  | tables (ts : List (TableForm × List (String × Node)))
deriving Inhabited

abbrev Entries := List (String × Node)

abbrev Table := TableForm × Entries

/-- Changes the table that keys lead to from a table; tables missing on the way are made in the
given form. Keys with dots do not lead into a table that is defined, and nothing leads into a
value. -/
def within (made : TableForm) : List String → (Table → Option Table) → Table → Option Table
  | [], f, t => f t
  | k :: ks, f, (form, entries) =>
    match Assoc.get? k entries with
    | none =>
      (within made ks f (made, [])).map fun (g, es) => (form, Assoc.put k (.table g es) entries)
    | some (.table g es) =>
      if made = .dotted ∧ g = .defined then none
      else (within made ks f (g, es)).map fun (g, es) => (form, Assoc.put k (.table g es) entries)
    | some (.tables ts) =>
      match ts.getLast? with
      | none => none
      | some last =>
        (within made ks f last).map fun t =>
          (form, Assoc.put k (.tables (ts.dropLast ++ [t])) entries)
    | some _ => none

def addEntry (path : List String) (key : String) (v : Node) (t : Table) : Option Table :=
  within .dotted path (fun (form, entries) =>
    if decide (form = .dotted) == path.isEmpty then none
    else match Assoc.get? key entries with
      | some _ => none
      | none => some (form, Assoc.put key v entries)) t

def defineTable (path : List String) (key : String) (root : Table) : Option Table :=
  within .implied path (fun (form, entries) =>
    match Assoc.get? key entries with
    | none => some (form, Assoc.put key (.table .defined []) entries)
    | some (.table .implied es) => some (form, Assoc.put key (.table .defined es) entries)
    | some _ => none) root

def addTable (path : List String) (key : String) (root : Table) : Option Table :=
  within .implied path (fun (form, entries) =>
    match Assoc.get? key entries with
    | none => some (form, Assoc.put key (.tables [(.defined, [])]) entries)
    | some (.tables ts) => some (form, Assoc.put key (.tables (ts ++ [(.defined, [])])) entries)
    | some _ => none) root

end DraftKeeper.Toml
