namespace DraftKeeper

inductive Command
  | serve (root : String) (settings : Option String)
  | help
  | version
deriving DecidableEq, Repr

inductive UsageError
  | unexpected (argument : String)
  | missingValue (option : String)
  | repeated (option : String)
deriving DecidableEq, Repr

namespace UsageError

def message : UsageError → String
  | .unexpected argument => s!"error: unexpected argument '{argument}' found"
  | .missingValue option => s!"error: a value is required for '{option}' but none was supplied"
  | .repeated option => s!"error: the argument '{option}' cannot be used multiple times"

end UsageError

namespace CommandLine

structure Given where
  root : Option String
  settings : Option String
deriving DecidableEq, Repr

namespace Given

def nothing : Given := ⟨none, none⟩

def command (g : Given) : Command := .serve (g.root.getD ".") g.settings

end Given

def rootOption : String := "--root"

def settingsOption : String := "--config"

def take (g : Given) (option value : String) : Except UsageError Given :=
  if value.isEmpty then .error (.missingValue option)
  else if option = rootOption then
    if g.root.isSome then .error (.repeated option) else .ok { g with root := some value }
  else if g.settings.isSome then .error (.repeated option)
  else .ok { g with settings := some value }

/-- Whether an argument is an option rather than a value; a lone dash is a value. -/
def isOption (argument : String) : Bool :=
  match argument.toList with
  | '-' :: _ :: _ => true
  | _ => false

def splitValue? (argument : String) : Option (String × String) :=
  let cs := argument.toList
  let name := cs.takeWhile (· ≠ '=')
  if name.length < cs.length then
    some (String.ofList name, String.ofList (cs.drop (name.length + 1)))
  else none

def takesValue (name : String) : Bool := name = rootOption || name = settingsOption

def letters (argument : String) : Except UsageError Command :=
  match argument.toList with
  | '-' :: 'h' :: _ => .ok .help
  | '-' :: 'V' :: _ => .ok .version
  | _ => .error (.unexpected argument)

def parseFrom (g : Given) : List String → Except UsageError Command
  | [] => .ok g.command
  | argument :: rest =>
    if argument = "--" then
      match rest with
      | [] => .ok g.command
      | extra :: _ => .error (.unexpected extra)
    else if argument = "--help" then .ok .help
    else if argument = "--version" then .ok .version
    else if takesValue argument then
      match rest with
      | [] => .error (.missingValue argument)
      | value :: rest =>
        if isOption value then .error (.missingValue argument)
        else match take g argument value with
          | .error e => .error e
          | .ok g => parseFrom g rest
    else match splitValue? argument with
      | some (name, value) =>
        if takesValue name then
          match take g name value with
          | .error e => .error e
          | .ok g => parseFrom g rest
        else letters argument
      | none => letters argument

def help : String :=
  "Keeps drafts of the files that an editor has open.\n\n" ++
  "Usage: draftkeeper [OPTIONS]\n\n" ++
  "Options:\n" ++
  "      --root <ROOT>      Workspace root; every top-level folder is a project [default: .]\n" ++
  "      --config <CONFIG>  Settings file [default: ~/.draftsync/config.toml]\n" ++
  "  -h, --help             Print help\n" ++
  "  -V, --version          Print version"

def version : String := "draftkeeper 0.1.0"

def parse (arguments : List String) : Except UsageError Command := parseFrom .nothing arguments

end CommandLine

end DraftKeeper
