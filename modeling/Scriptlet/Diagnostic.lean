import Scriptlet.Ast.Fault
import Scriptlet.Machine.Fault
import Scriptlet.Scope.Basic
import Scriptlet.Token.Lexer

/-!
What is reported to a user: errors of every stage and warnings, and the reporter that passes them on and remembers
which kinds of errors there were.
-/
namespace Scriptlet

inductive Error where
  | lex (line : Nat) (message : String)
  | parse (place : Place) (message : String)
  | resolve (place : Place) (message : String)
  | runtime (line : Nat) (message : String)
  | native (message : String)
  /-- Earlier errors have not been cleared. -/
  | pending
  | io (message : String)
deriving DecidableEq, Repr

namespace Error

def display : Error → String
  | .lex line message => lineTag line ++ "Error: " ++ message
  | .parse place message => lineTag place.line ++ "Error" ++ place.location ++ ": " ++ message
  | .resolve place message => lineTag place.line ++ "Error" ++ place.location ++ ": " ++ message
  | .runtime line message => lineTag line ++ "Runtime error: " ++ message
  | .native message => "Native error: " ++ message
  | .pending => "Previous errors must be cleared with reset_error_system() before running again"
  | .io message => message

/-- Whether the error arose while a program ran. -/
def isRuntime : Error → Bool
  | .runtime _ _ => true
  | .native _ => true
  | _ => false

def ofLex (line : Nat) (fault : Token.Fault) : Error := .lex line fault.message

def ofParse (e : Parser.Error) : Error := .parse e.place e.fault.message

def ofResolve (e : Scope.Error) : Error := .resolve e.place e.fault.message

def ofFailure : Failure → Error
  | .runtime line fault => .runtime line fault.message
  | .native fault => .native fault.message

theorem display_ofFailure (f : Failure) : (ofFailure f).display = f.display := by
  cases f <;> rfl

end Error

/-- Advice that does not stop a program. -/
structure Warning where
  place : Place
  message : String
deriving DecidableEq, Repr

namespace Warning

def display (w : Warning) : String :=
  lineTag w.place.line ++ "Warning" ++ w.place.location ++ ": " ++ w.message

def ofScope (w : Scope.Warning) : Warning := ⟨w.place, w.advice.message⟩

end Warning

/-- The lines reported so far, and which kinds of errors there were since the last reset. -/
structure Reporter where
  lines : Array String
  hadError : Bool
  hadRuntimeError : Bool

namespace Reporter

def empty : Reporter := ⟨#[], false, false⟩

def error (r : Reporter) (e : Error) : Reporter where
  lines := r.lines.push e.display
  hadError := r.hadError || !e.isRuntime
  hadRuntimeError := r.hadRuntimeError || e.isRuntime

def errors (r : Reporter) (es : List Error) : Reporter := es.foldl error r

def warning (r : Reporter) (w : Warning) : Reporter := { r with lines := r.lines.push w.display }

def warnings (r : Reporter) (ws : List Warning) : Reporter := ws.foldl warning r

def reset (r : Reporter) : Reporter := { r with hadError := false, hadRuntimeError := false }

/-- Whether errors have been reported since the last reset. -/
def blocked (r : Reporter) : Bool := r.hadError || r.hadRuntimeError

end Reporter

end Scriptlet
