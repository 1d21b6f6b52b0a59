import Scriptlet.Number.Reader
import Scriptlet.Token.Basic

/-!
The lexer cuts a source into pieces that tile it: blanks and comments, tokens, and faults. Each piece is the
longest that its first character allows. Lines are counted afterwards over the pieces, so a token's line is the
line on which its text ends.
-/
namespace Scriptlet

namespace Token

/-- What can be wrong with the text of a program. -/
inductive Fault where
  | unterminatedString
  | unexpected (c : Char)
deriving DecidableEq, Repr

def Fault.message : Fault → String
  | .unterminatedString => "Unterminated string."
  | .unexpected c => "Unexpected character: " ++ c.toString

inductive Meaning where
  | blank
  | token (kind : Kind)
  | fault (fault : Fault)
deriving DecidableEq, Repr

structure Piece where
  text : List Char
  meaning : Meaning
deriving DecidableEq, Repr

def isBlank (c : Char) : Bool := c = ' ' || c = '\t' || c = '\r' || c = '\n'

def isQuote (c : Char) : Bool := c = '\x22' || c = '\x27'

def isDigit (c : Char) : Bool := '0' ≤ c && c ≤ '9'

def isNameStart (c : Char) : Bool := ('a' ≤ c && c ≤ 'z') || ('A' ≤ c && c ≤ 'Z') || c = '_'

def isNamePart (c : Char) : Bool := isNameStart c || isDigit c

def numberValue (whole fraction : List Char) : Number :=
  .ofDecimal false (Number.digitsOf (whole ++ fraction)) (-fraction.length)

/-- Splits after the first `*/`, or at the end of the text if there is none. -/
def splitComment : List Char → List Char × List Char
  | '*' :: '/' :: rest => (['*', '/'], rest)
  | c :: rest => let (body, after) := splitComment rest; (c :: body, after)
  | [] => ([], [])

def wordKind (cs : List Char) : Kind :=
  match Keyword.ofText? (String.ofList cs) with
  | some k => .keyword k
  | none => .identifier

def wordPiece (c : Char) (cs : List Char) : Piece × List Char :=
  let text := c :: cs.takeWhile isNamePart
  (⟨text, .token (wordKind text)⟩, cs.dropWhile isNamePart)

/-- A point belongs to a number only if a digit follows it. -/
def numberPiece (c : Char) (cs : List Char) : Piece × List Char :=
  let whole := c :: cs.takeWhile isDigit
  match cs.dropWhile isDigit with
  | '.' :: d :: rest =>
    if isDigit d then
      let fraction := d :: rest.takeWhile isDigit
      (⟨whole ++ '.' :: fraction, .token (.number (numberValue whole fraction))⟩, rest.dropWhile isDigit)
    else (⟨whole, .token (.number (numberValue whole []))⟩, '.' :: d :: rest)
  | rest => (⟨whole, .token (.number (numberValue whole []))⟩, rest)

/-- Strings have no escapes and may span lines. -/
def stringPiece (quote : Char) (cs : List Char) : Piece × List Char :=
  let body := cs.takeWhile (· ≠ quote)
  match cs.dropWhile (· ≠ quote) with
  | [] => (⟨quote :: body, .fault .unterminatedString⟩, [])
  | close :: rest => (⟨quote :: body ++ [close], .token (.string (String.ofList body))⟩, rest)

/-- A punctuator of two characters if there is one, else of one. -/
def punctPiece (c : Char) (cs : List Char) : Piece × List Char :=
  match cs.head?.bind fun d => Punct.ofChars? [c, d] with
  | some p => (⟨c :: cs.take 1, .token (.punct p)⟩, cs.drop 1)
  | none =>
    match Punct.ofChars? [c] with
    | some p => (⟨[c], .token (.punct p)⟩, cs)
    | none => (⟨[c], .fault (.unexpected c)⟩, cs)

/-- The piece that starts with `c`, and what is left of `cs` after it. -/
def firstPiece (c : Char) (cs : List Char) : Piece × List Char :=
  if isBlank c then (⟨[c], .blank⟩, cs)
  else if isQuote c then stringPiece c cs
  else if isDigit c then numberPiece c cs
  else if isNameStart c then wordPiece c cs
  else match c, cs with
    | '/', '/' :: rest => (⟨'/' :: '/' :: rest.takeWhile (· ≠ '\n'), .blank⟩, rest.dropWhile (· ≠ '\n'))
    | '/', '*' :: rest =>
      let (body, after) := splitComment rest
      (⟨'/' :: '*' :: body, .blank⟩, after)
    | _, _ => punctPiece c cs

theorem splitComment_append (cs : List Char) : (splitComment cs).1 ++ (splitComment cs).2 = cs := by
  fun_induction splitComment cs with
  | case1 => rfl
  | case2 c rest _ body after h ih => simpa [h] using ih
  | case3 => rfl

theorem wordPiece_append (c : Char) (cs : List Char) :
    (wordPiece c cs).1.text ++ (wordPiece c cs).2 = c :: cs := by
  simp [wordPiece]

theorem numberPiece_append (c : Char) (cs : List Char) :
    (numberPiece c cs).1.text ++ (numberPiece c cs).2 = c :: cs := by
  unfold numberPiece
  split
  · next d rest h =>
    split <;> simp [← h]
  · simp

theorem stringPiece_append (c : Char) (cs : List Char) :
    (stringPiece c cs).1.text ++ (stringPiece c cs).2 = c :: cs := by
  have tiles : cs.takeWhile (· ≠ c) ++ cs.dropWhile (· ≠ c) = cs := List.takeWhile_append_dropWhile
  unfold stringPiece
  split
  · next h => rw [h] at tiles; exact congrArg (c :: ·) tiles
  · next close rest h =>
    rw [h] at tiles
    exact congrArg (c :: ·) ((List.append_cons _ close rest).symm.trans tiles)

theorem punctPiece_append (c : Char) (cs : List Char) :
    (punctPiece c cs).1.text ++ (punctPiece c cs).2 = c :: cs := by
  unfold punctPiece
  split
  · exact congrArg (c :: ·) (List.take_append_drop 1 cs)
  · split <;> rfl

/-- A piece and what is left of the source make up the source again. -/
theorem firstPiece_append (c : Char) (cs : List Char) :
    (firstPiece c cs).1.text ++ (firstPiece c cs).2 = c :: cs := by
  unfold firstPiece
  split
  · rfl
  split
  · exact stringPiece_append c cs
  split
  · exact numberPiece_append c cs
  split
  · exact wordPiece_append c cs
  split
  · simp
  · simp [splitComment_append]
  · exact punctPiece_append c cs

theorem firstPiece_text_ne_nil (c : Char) (cs : List Char) : (firstPiece c cs).1.text ≠ [] := by
  unfold firstPiece stringPiece numberPiece wordPiece punctPiece
  repeat' split
  all_goals simp

theorem length_firstPiece_rest (c : Char) (cs : List Char) : (firstPiece c cs).2.length ≤ cs.length := by
  have whole := congrArg List.length (firstPiece_append c cs)
  have text := List.length_pos_iff.mpr (firstPiece_text_ne_nil c cs)
  simp only [List.length_append, List.length_cons] at whole
  omega

/-- The pieces of a text, in order. -/
def pieces : List Char → List Piece
  | [] => []
  | c :: cs => (firstPiece c cs).1 :: pieces (firstPiece c cs).2
termination_by cs => cs.length
decreasing_by
  have := length_firstPiece_rest c cs
  simp only [List.length_cons]
  omega

/-- The pieces tile the text. -/
theorem pieces_flatMap_text (cs : List Char) : (pieces cs).flatMap Piece.text = cs := by
  fun_induction pieces cs with
  | case1 => rfl
  | case2 c cs ih => simp [ih, firstPiece_append]

end Token

/-- What the lexer reports: a token, or a fault at a line. -/
inductive Item where
  | token (token : Token)
  | fault (line : Nat) (fault : Token.Fault)
deriving DecidableEq, Repr

namespace Token

def newlines (cs : List Char) : Nat := cs.count '\n'

/-- The items of a sequence of pieces that starts on `line`, closed by the end token. -/
def items (line : Nat) : List Piece → List Item
  | [] => [.token (.eof line)]
  | p :: ps =>
    let line := line + newlines p.text
    match p.meaning with
    | .blank => items line ps
    | .token kind => .token ⟨kind, String.ofList p.text, line⟩ :: items line ps
    | .fault f => .fault line f :: items line ps

/-- All tokens and faults of a source, in order. -/
def scan (source : String) : List Item := items 1 (pieces source.toList)

end Token

namespace Item

def token? : Item → Option Token
  | .token t => some t
  | .fault _ _ => none

def fault? : Item → Option (Nat × Token.Fault)
  | .token _ => none
  | .fault line f => some (line, f)

def tokens (items : List Item) : List Token := items.filterMap token?

def faults (items : List Item) : List (Nat × Token.Fault) := items.filterMap fault?

end Item

end Scriptlet
