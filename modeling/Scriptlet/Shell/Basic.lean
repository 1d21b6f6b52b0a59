import Scriptlet.Ast.Printer
import Scriptlet.Session.Basic
import Scriptlet.Shell.Command
import Scriptlet.Text.Blank
import Scriptlet.Text.Quoted
import Scriptlet.Token.Listing

/-!
The shell as a state machine. It is done, runs a program, or waits for a line: at its prompt, or for `input`. Whoever
drives it feeds it lines and takes away what it has written.
-/
namespace Scriptlet

/-- What reading a line can give. -/
inductive Line where
  | text (text : String)
  | unreadable
  | eof
deriving DecidableEq, Repr

namespace Shell

/-- Why the text of a file cannot be had. -/
inductive FileFault where
  | open (message : String)
  | read (message : String)
deriving DecidableEq, Repr

inductive Phase where
  | prompt
  | running (form : Session.Form) (state : Machine.State)
  | done (status : Nat)

end Shell

structure Shell where
  session : Session
  interactive : Bool
  phase : Shell.Phase
  out : String
  err : String

namespace Shell

def notUtf8 : String := "stream did not contain valid UTF-8"

def FileFault.message (file : String) : FileFault → String
  | .open message => "Error: Failed to open file " ++ Text.quote file ++ "\n\nCaused by:\n    " ++ message ++ "\n"
  | .read message => "Error: Failed to read file " ++ Text.quote file ++ "\n\nCaused by:\n    " ++ message ++ "\n"

/-- Status for a failed program: 70 if it ran, 65 if it was refused. -/
def status (e : Error) : Nat := if e.isRuntime then 70 else 65

/-- A shell that has written something and is done. -/
def finished (session : Session) (status : Nat) (out err : String) : Shell :=
  ⟨session, false, .done status, out, err⟩

def textLines (lines : List String) : String := String.join (lines.map (· ++ "\n"))

/-- Moves what the session has printed and reported into what the shell has written. -/
def collect (sh : Shell) : Shell :=
  let s := sh.session
  { sh with
    session := { s with
      world := { s.world with console := { s.world.console with output := #[] } }
      reporter := { s.reporter with lines := #[] } }
    out := sh.out ++ textLines s.world.console.output.toList
    err := sh.err ++ textLines s.reporter.lines.toList }

def showPrompt (sh : Shell) : Shell := { sh with phase := .prompt, out := sh.out ++ "> " }

/-- After some text has been dealt with: a script ends the shell, the prompt comes again with a clean slate. -/
def conclude (sh : Shell) (form : Session.Form) (session : Session) (result : Except Error Value) : Shell :=
  let sh := { sh with session }.collect
  match result with
  | .ok v =>
    let sh := if form = .expression then { sh with out := sh.out ++ session.store.display v ++ "\n" } else sh
    if sh.interactive then sh.showPrompt else { sh with phase := .done 0 }
  | .error e =>
    if sh.interactive then { sh with session := sh.session.reset }.showPrompt
    else { sh with phase := .done (status e) }

/-- Takes text: what passes the checks starts to run. -/
def submit (sh : Shell) (form : Session.Form) (source : String) : Shell :=
  match sh.session.check form source with
  | (session, .error e) => sh.conclude form session (.error e)
  | (session, .ok control) =>
    { sh with session, phase := .running form (session.start control) }.collect

/-- A line at the prompt is a program if it ends like one, else an expression. -/
def lineForm (line : String) : Session.Form :=
  match line.toList.getLast? with
  | some ';' => .program
  | some '\x7d' => .program
  | _ => .expression

/-- Whether the shell cannot go on without a line. -/
def wantsLine (sh : Shell) : Bool :=
  match sh.phase with
  | .prompt => true
  | .running _ state => state.waiting
  | .done _ => false

/-- Lets `input` see one more line, or the end. -/
def provide (state : Machine.State) (line : Line) : Machine.State :=
  let c := state.console
  match line with
  | .text t => { state with console := { c with input := c.input ++ [some (Text.chomp t)] } }
  | .unreadable => { state with console := { c with input := c.input ++ [none] } }
  | .eof => { state with console := { c with closed := true } }

def feed (sh : Shell) (line : Line) : Shell :=
  match sh.phase, line with
  | .prompt, .text t =>
    let t := Text.trim t
    if t.isEmpty then sh.showPrompt else sh.submit (lineForm t) t
  | .prompt, .unreadable => { sh with phase := .done 1, err := sh.err ++ "Error: " ++ notUtf8 ++ "\n" }
  | .prompt, .eof => { sh with phase := .done 0 }
  | .running form state, line => { sh with phase := .running form (provide state line) }
  | .done _, _ => sh

/-- Sets the time that a running program sees. -/
def withClock (sh : Shell) (clock : Number) : Shell :=
  match sh.phase with
  | .running form state => { sh with phase := .running form { state with console := { state.console with clock } } }
  | _ => sh

/-- Runs the machine for at most so many steps. -/
def advance (host : Host) (limit : Nat) (sh : Shell) : Shell :=
  match sh.phase with
  | .running form state =>
    let state := Machine.run host limit state
    match sh.session.finish state with
    | some (session, result) => sh.conclude form session result
    | none =>
      let sh := { sh with session := { sh.session with world := state.toWorld } }.collect
      { sh with phase := .running form { state with console := sh.session.world.console } }
  | _ => sh

def tokenize (session : Session) (json : Bool) (source : String) : Shell :=
  let items := Token.scan source
  let tokens := Item.tokens items
  let errors := (Item.faults items).map fun (line, fault) => (Error.ofLex line fault).display
  finished session (if errors.isEmpty then 0 else 65)
    (if json then Token.Listing.render tokens ++ "\n" else textLines (tokens.map Token.display))
    (textLines errors)

/-- Shows the tree of an expression; both lexical and structural errors are told. -/
def showTree (session : Session) (source : String) : Shell :=
  let items := Token.scan source
  let errors := (Item.faults items).map fun (line, fault) => (Error.ofLex line fault).display
  match (Parser.parseExpression (Item.tokens items) 0).result, errors with
  | .ok e, [] => finished session 0 (e.print ++ "\n") ""
  | .ok _, errors => finished session 65 "" (textLines errors)
  | .error es, errors => finished session 65 "" (textLines (errors ++ es.map fun e => (Error.ofParse e).display))

def perform (session : Session) (action : Action) (source : String) : Shell :=
  match action with
  | .tokenize json => tokenize session json source
  | .parse => showTree session source
  | .evaluate => (⟨session, false, .prompt, "", ""⟩ : Shell).submit .expression source
  | .run => (⟨session, false, .prompt, "", ""⟩ : Shell).submit .program source

/-- The shell at the start of a command; `contents` gives the bytes of a file. -/
def start (session : Session) (contents : String → Except FileFault ByteArray) : Command → Shell
  | .version => finished session 0 "roux 0.1.0\n" ""
  | .invalid => finished session 2 "" "error: invalid arguments\n"
  | .repl => showPrompt ⟨session, true, .prompt, "", ""⟩
  | .onFile _ none => finished session 0 "No input filepath was provided. Exiting...\n" ""
  | .onFile action (some file) =>
    match contents file with
    | .error fault => finished session 1 "" (fault.message file)
    | .ok bytes =>
      match String.fromUTF8? bytes with
      | none => finished session 1 "" ((FileFault.read notUtf8).message file)
      | some source => perform session action source

/-- Drives a shell with the given lines, within a limit of steps for each run and of turns. -/
def play (host : Host) (limit : Nat) : Nat → List Line → Shell → Shell
  | 0, _, sh => sh
  | turns + 1, lines, sh =>
    match sh.phase with
    | .done _ => sh
    | _ =>
      if sh.wantsLine then play host limit turns lines.tail (sh.feed (lines.headD .eof))
      else play host limit turns lines (sh.advance host limit)

/-- Bytes cut after every newline. -/
def splitLines (bytes : List UInt8) : List (List UInt8) :=
  bytes.foldr (fun b lines =>
    match lines with
    | [] => [[b]]
    | line :: rest => if b = 10 then [b] :: line :: rest else (b :: line) :: rest) []

def lineOfBytes (bytes : ByteArray) : Line :=
  match String.fromUTF8? bytes with
  | some t => .text t
  | none => .unreadable

def linesOfBytes (bytes : ByteArray) : List Line :=
  (splitLines bytes.toList).map fun line => lineOfBytes ⟨line.toArray⟩

end Shell

end Scriptlet
