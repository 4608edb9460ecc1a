import DraftKeeper.Text.Blank

namespace DraftKeeper

inductive PathFault
  | empty
  | tooLong
  | traversal (component : String)
  | nullByte
  | invalidComponent (component : String)
deriving DecidableEq, Repr

namespace Path

def maxLength : Nat := 512

end Path

def PathFault.message : PathFault → String
  | .empty => "path is empty"
  | .tooLong => "path exceeds maximum length of 512 characters"
  | .traversal component => s!"path contains directory traversal component: {component}"
  | .nullByte => "path contains null byte"
  | .invalidComponent component => s!"path contains invalid component: {component}"

namespace Path

/-- The pieces between separators, empty ones included. -/
def pieces (isSeparator : Char → Bool) : List Char → List (List Char)
  | [] => [[]]
  | c :: cs =>
    if isSeparator c then [] :: pieces isSeparator cs
    else match pieces isSeparator cs with
      | [] => [[c]]
      | p :: ps => (c :: p) :: ps

def componentsBy (isSeparator : Char → Bool) (path : String) : List String :=
  ((pieces isSeparator path.toList).filter fun p => !p.isEmpty).map String.ofList

/-- The components of a path as a client writes it, where a backslash separates too. -/
def components (path : String) : List String := componentsBy (fun c => c = '/' || c = '\\') path

def slashComponents (path : String) : List String := componentsBy (fun c => c = '/') path

def fault? (component : String) : Option PathFault :=
  if component = "." then some (.traversal ".")
  else if component = ".." then some (.traversal "..")
  else if Text.Blank.allBlank component then
    some (.invalidComponent "(whitespace-only component)")
  else none

def ofComponents (cs : List String) : String := String.join (cs.map fun c => "/" ++ c)

/-- The one spelling of a path, or the first thing wrong with it. It starts with one slash, ends with none, and has
no empty, dotted or blank component. -/
def normalize (path : String) : Except PathFault String :=
  if path.isEmpty then .error .empty
  else if path.toList.contains (Char.ofNat 0) then .error .nullByte
  else
    let cs := components path
    if cs.isEmpty then .error .empty
    else match cs.findSome? fault? with
      | some e => .error e
      | none =>
        let result := ofComponents cs
        if maxLength < result.length then .error .tooLong else .ok result

def withoutSlash (path : String) : List Char :=
  match path.toList with
  | '/' :: cs => cs
  | cs => cs

/-- The project of a path: its first component, with the leading slash if the path has one. -/
def project? (path : String) : Option String :=
  match path.toList with
  | '/' :: cs =>
    let first := cs.takeWhile (· ≠ '/')
    if first.isEmpty then none else some (String.ofList ('/' :: first))
  | cs =>
    let first := cs.takeWhile (· ≠ '/')
    if first.isEmpty then none else some (String.ofList first)

/-- The path as one file name: without its leading slash, every other slash a dot. -/
def flatten (path : String) : String :=
  String.ofList ((withoutSlash path).map fun c => if c = '/' then '.' else c)

def trimStart (path : String) : List Char := path.toList.dropWhile (· = '/')

def trimEnd (path : String) : List Char := (path.toList.reverse.dropWhile (· = '/')).reverse

/-- Two parts with a single slash between them; an empty second part adds nothing. -/
def join (base relative : String) : String :=
  let rest := trimStart relative
  if rest.isEmpty then String.ofList (trimEnd base)
  else String.ofList (trimEnd base ++ '/' :: rest)

end Path

end DraftKeeper
