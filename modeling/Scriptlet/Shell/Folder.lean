import Scriptlet.Shell.Basic

/-!
Folders in memory, for a shell without a file system. A path is followed name by name from the root or from the
working folder; the first name that leads nowhere decides why it cannot be opened.
-/
namespace Scriptlet.Shell

inductive Node where
  | file (contents : ByteArray)
  | folder (entries : List (String × Node))

/-- Why a path cannot be opened, or what it leads to not be read. -/
inductive Refusal where
  | missing
  | notFolder
  | isFolder
  | nameTooLong
deriving DecidableEq, Repr

def Refusal.message : Refusal → String
  | .missing => "No such file or directory (os error 2)"
  | .notFolder => "Not a directory (os error 20)"
  | .isFolder => "Is a directory (os error 21)"
  | .nameTooLong => "File name too long (os error 36)"

/-- Most bytes of one name in a path. -/
def maxName : Nat := 255

/-- Most bytes of a whole path. -/
def maxPath : Nat := 4095

/-- Follows names from the first node of a trail, whose other nodes are the folders around it, the nearest first.
Only a folder has anything behind it, not even an empty name; the outermost folder is around itself. -/
def follow : List Node → List String → Except Refusal Node
  | [], _ => .error .missing
  | node :: _, [] => .ok node
  | .file _ :: _, _ :: _ => .error .notFolder
  | .folder entries :: around, name :: rest =>
    if name = "" || name = "." then follow (.folder entries :: around) rest
    else if name = ".." then follow (if around.isEmpty then [.folder entries] else around) rest
    else if maxName < name.utf8ByteSize then .error .nameTooLong
    else match entries.lookup name with
      | some node => follow (node :: .folder entries :: around) rest
      | none => .error .missing

/-- The node at a path; `trail` leads from the working folder out to the root. -/
def locate (trail : List Node) (path : String) : Except Refusal Node :=
  if maxPath < path.utf8ByteSize then .error .nameTooLong
  else follow (if path.startsWith "/" then trail.getLast?.toList else trail) (path.splitOn "/")

/-- The bytes of the file at a path. -/
def contentsAt (trail : List Node) (path : String) : Except FileFault ByteArray :=
  match locate trail path with
  | .ok (.file contents) => .ok contents
  | .ok (.folder _) => .error (.read Refusal.isFolder.message)
  | .error refusal => .error (.open refusal.message)

end Scriptlet.Shell
