import Scriptlet.Shell.Basic
import Std.Time.DateTime.Timestamp

/-!
The command line: reads files and lines, writes what the shell has written, and tells the time.
-/
namespace Scriptlet.Shell

/-- A refusal of the operating system in its own words, with its code. -/
def systemMessage : IO.Error → String
  | .noFileOrDirectory _ code details => details ++ " (os error " ++ toString code ++ ")"
  | .inappropriateType _ code details => details ++ " (os error " ++ toString code ++ ")"
  | .permissionDenied _ code details => details ++ " (os error " ++ toString code ++ ")"
  | .invalidArgument _ code details => details ++ " (os error " ++ toString code ++ ")"
  | .resourceExhausted _ code details => details ++ " (os error " ++ toString code ++ ")"
  | .otherError code details => details ++ " (os error " ++ toString code ++ ")"
  | e => toString e

def readContents (file : String) : IO (Except FileFault ByteArray) := do
  match ← (IO.FS.Handle.mk file .read).toBaseIO with
  | .error e => return .error (.open (systemMessage e))
  | .ok handle =>
    match ← handle.readBinToEnd.toBaseIO with
    | .error e => return .error (.read (systemMessage e))
    | .ok bytes => return .ok bytes

/-- One line with its end, byte by byte, since a line need not be readable text. -/
partial def readLine (input : IO.FS.Stream) (line : ByteArray) : IO Line := do
  let byte ← input.read 1
  if byte.isEmpty then return if line.isEmpty then .eof else lineOfBytes line
  else if byte.toList = [10] then return lineOfBytes (line ++ byte)
  else readLine input (line ++ byte)

def now : IO Number := do
  let time ← Std.Time.Timestamp.now
  return .ofDecimal false time.toNanosecondsSinceUnixEpoch.toInt.toNat (-9)

/-- Steps between two looks at the clock. -/
def slice : Nat := 100000

partial def serve (sh : Shell) : IO UInt32 := do
  let output ← IO.getStdout
  output.putStr sh.out
  output.flush
  (← IO.getStderr).putStr sh.err
  let sh := { sh with out := "", err := "" }
  match sh.phase with
  | .done status => return status.toUInt32
  | _ =>
    if sh.wantsLine then serve (sh.feed (← readLine (← IO.getStdin) ByteArray.empty))
    else serve ((sh.withClock (← now)).advance Host.empty slice)

end Scriptlet.Shell

open Scriptlet in
def main (arguments : List String) : IO UInt32 := do
  let (command, log) := Shell.Command.ofArguments arguments
  if log then
    match ← (IO.FS.writeFile "roux.log" "").toBaseIO with
    | .ok () => pure ()
    | .error e =>
      IO.eprint ("Error: Failed to create roux.log\n\nCaused by:\n    " ++ Shell.systemMessage e ++ "\n")
      return 1
  let contents ← match command.file? with
    | some file => Shell.readContents file
    | none => pure (.ok ByteArray.empty)
  let session := Session.withConsole ⟨#[], [], false, ← Shell.now⟩
  Shell.serve (Shell.start session (fun _ => contents) command)
