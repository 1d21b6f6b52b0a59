/-!
The command line: which command with which file and options.
-/
namespace Scriptlet.Shell

inductive Action where
  | tokenize (json : Bool)
  | parse
  | evaluate
  | run
deriving DecidableEq, Repr

inductive Command where
  | onFile (action : Action) (file : Option String)
  | repl
  | version
  | invalid
deriving DecidableEq, Repr

/-- The arguments read so far. -/
structure Reading where
  command : Option String
  file : Option String
  json : Bool
  log : Bool

def Reading.empty : Reading := ⟨none, none, false, false⟩

/-- Takes an argument that is not an option: first the command, then its file. -/
def Reading.word (r : Reading) (argument : String) : Option Reading :=
  match r.command, r.file with
  | none, _ => some { r with command := some argument }
  | some "repl", _ => none
  | some _, none => if argument.isEmpty then none else some { r with file := some argument }
  | some _, some _ => none

def Reading.option (r : Reading) (argument : String) : Option Reading :=
  if argument = "--log" && !r.log then some { r with log := true }
  else if argument = "--json" && r.command = some "tokenize" && !r.json then some { r with json := true }
  else none

def Reading.command? (r : Reading) : Option Command :=
  match r.command with
  | some "tokenize" => some (.onFile (.tokenize r.json) r.file)
  | some "parse" => some (.onFile .parse r.file)
  | some "evaluate" => some (.onFile .evaluate r.file)
  | some "run" => some (.onFile .run r.file)
  | some "repl" => some .repl
  | _ => none

/-- Reads arguments from left to right; after `--` none is an option or the command. -/
def Reading.arguments (r : Reading) : List String → Option (Command × Bool)
  | [] => r.command?.map (·, r.log)
  | "--" :: rest =>
    if r.command.isNone then none
    else do
      let r ← rest.foldlM Reading.word r
      return (← r.command?, r.log)
  | argument :: rest =>
    if r.command.isNone && (argument = "--version" || argument = "-V") then some (.version, r.log)
    else if argument.startsWith "-" && argument ≠ "-" then do
      (← r.option argument).arguments rest
    else do
      (← r.word argument).arguments rest

/-- The command that the arguments ask for, and whether a log is wanted. -/
def Command.ofArguments (arguments : List String) : Command × Bool :=
  (Reading.empty.arguments arguments).getD (.invalid, false)

def Command.file? : Command → Option String
  | .onFile _ file => file
  | _ => none

end Scriptlet.Shell
