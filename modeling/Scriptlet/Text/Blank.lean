/-!
Blank characters: those with the Unicode property `White_Space`.
-/
namespace Scriptlet.Text

def isBlank (c : Char) : Bool :=
  let n := c.toNat
  (9 ≤ n && n ≤ 13) || n = 0x20 || n = 0x85 || n = 0xa0 || n = 0x1680 || (0x2000 ≤ n && n ≤ 0x200a)
    || n = 0x2028 || n = 0x2029 || n = 0x202f || n = 0x205f || n = 0x3000

def dropEnd (p : Char → Bool) (cs : List Char) : List Char := (cs.reverse.dropWhile p).reverse

/-- The text without blanks at either end. -/
def trim (s : String) : String := String.ofList (dropEnd isBlank (s.toList.dropWhile isBlank))

/-- The text of a line without the characters that end it. -/
def chomp (s : String) : String := String.ofList (dropEnd (fun c => c = '\n' || c = '\r') s.toList)

end Scriptlet.Text
