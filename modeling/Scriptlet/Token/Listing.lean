import Scriptlet.Token.Lexer

/-!
The token listing: an indented array of objects with the fields `token_type`, `lexeme` and `line`.
-/
namespace Scriptlet.Token.Listing

/-- Four lower-case hexadecimal digits. -/
def hex4 (n : Nat) : List Char :=
  let ds := Nat.toDigits 16 n
  List.replicate (4 - ds.length) '0' ++ ds

/-- Quotes, backslashes and control characters are escaped; all else stands for itself. -/
def escapeChar (c : Char) : List Char :=
  if c = '\x22' then ['\\', '\x22']
  else if c = '\\' then ['\\', '\\']
  else if c = '\x08' then ['\\', 'b']
  else if c = '\x0c' then ['\\', 'f']
  else if c = '\n' then ['\\', 'n']
  else if c = '\r' then ['\\', 'r']
  else if c = '\t' then ['\\', 't']
  else if c.toNat < 32 then '\\' :: 'u' :: hex4 c.toNat
  else [c]

def quote (s : String) : String :=
  "\"" ++ String.ofList (s.toList.flatMap escapeChar) ++ "\""

def field (key value : String) : String := quote key ++ ": " ++ value

/-- An object over several lines; `indent` stands before its fields, one level less before its end. -/
def object (indent : String) (fields : List String) : String :=
  "\x7b\n  " ++ indent ++ (",\n  " ++ indent).intercalate fields ++ "\n" ++ indent ++ "\x7d"

/-- The name of the kind, in an object with the literal if there is one. -/
def kind (k : Kind) : String :=
  match k with
  | .string s => object "    " [field k.name (quote s)]
  | .number n => object "    " [field k.name n.listed]
  | _ => quote k.name

def entry (t : Token) : String :=
  object "  "
    [field "token_type" (kind t.kind), field "lexeme" (quote t.lexeme), field "line" (Nat.repr t.line)]

def render (ts : List Token) : String :=
  match ts with
  | [] => "[]"
  | ts => "[\n  " ++ ",\n  ".intercalate (ts.map entry) ++ "\n]"

end Scriptlet.Token.Listing
