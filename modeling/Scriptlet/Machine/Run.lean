import Scriptlet.Machine.Step

/-!
Runs of the machine: from a start in the outermost frame, step by step, until nothing is pending or input has to be
waited for. A run has a limit on its steps; what it has not finished then can be run further.
-/
namespace Scriptlet.Machine

/-- How a run ends. -/
inductive Outcome where
  | value (value : Value)
  | flow (flow : Flow)
  | failure (failure : Failure)
deriving DecidableEq, Repr

namespace State

def start (world : World) (control : Control) : State :=
  { world with control, frame := Store.globals, pending := [] }

def outcome? (s : State) : Option Outcome :=
  match s.pending, s.control with
  | [], .value v => some (.value v)
  | [], .flow f => some (.flow f)
  | [], .raise e => some (.failure e)
  | _, _ => none

/-- A call of `input` for which no line has come yet. -/
def waiting (s : State) : Bool :=
  match s.control with
  | .enter (.function (.native n)) _ => n.behaviour = .input && s.console.read?.isNone
  | _ => false

end State

/-- Steps until the machine halts or waits, at most the given number of times. -/
def run (host : Host) : Nat → State → State
  | 0, s => s
  | n + 1, s => if s.outcome?.isSome || s.waiting then s else run host n (step host s)

end Scriptlet.Machine
