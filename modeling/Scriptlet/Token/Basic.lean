import Scriptlet.Number.Decimal

/-!
Tokens: punctuators and keywords are enumerations with their spelling, names and literals carry what was read.
A token keeps its exact text and the line on which it ends.
-/
namespace Scriptlet

inductive Punct where
  | leftParen | rightParen | leftBrace | rightBrace | leftBracket | rightBracket
  | comma | dot | semicolon | colon | question
  | minus | minusMinus | minusEqual | plus | plusPlus | plusEqual
  | slash | slashEqual | star | starEqual | percent | percentEqual
  | ampersand | bar | caret
  | bang | bangEqual | equal | equalEqual | greater | greaterEqual | less | lessEqual
deriving DecidableEq, Repr

namespace Punct

def all : List Punct :=
  [leftParen, rightParen, leftBrace, rightBrace, leftBracket, rightBracket,
    comma, dot, semicolon, colon, question,
    minus, minusMinus, minusEqual, plus, plusPlus, plusEqual,
    slash, slashEqual, star, starEqual, percent, percentEqual,
    ampersand, bar, caret,
    bang, bangEqual, equal, equalEqual, greater, greaterEqual, less, lessEqual]

theorem mem_all (p : Punct) : p ∈ all := by
  cases p <;> decide

/-- The spelling, one or two characters. -/
def chars : Punct → List Char
  | leftParen => ['('] | rightParen => [')'] | leftBrace => ['\x7b'] | rightBrace => ['\x7d']
  | leftBracket => ['['] | rightBracket => [']']
  | comma => [','] | dot => ['.'] | semicolon => [';'] | colon => [':'] | question => ['?']
  | minus => ['-'] | minusMinus => ['-', '-'] | minusEqual => ['-', '=']
  | plus => ['+'] | plusPlus => ['+', '+'] | plusEqual => ['+', '=']
  | slash => ['/'] | slashEqual => ['/', '='] | star => ['*'] | starEqual => ['*', '=']
  | percent => ['%'] | percentEqual => ['%', '=']
  | ampersand => ['&'] | bar => ['|'] | caret => ['^']
  | bang => ['!'] | bangEqual => ['!', '='] | equal => ['='] | equalEqual => ['=', '=']
  | greater => ['>'] | greaterEqual => ['>', '='] | less => ['<'] | lessEqual => ['<', '=']

def text (p : Punct) : String := String.ofList p.chars

def ofChars? (cs : List Char) : Option Punct := all.find? fun p => p.chars = cs

/-- Name in token listings. -/
def name : Punct → String
  | leftParen => "LEFT_PAREN" | rightParen => "RIGHT_PAREN"
  | leftBrace => "LEFT_BRACE" | rightBrace => "RIGHT_BRACE"
  | leftBracket => "LEFT_BRACKET" | rightBracket => "RIGHT_BRACKET"
  | comma => "COMMA" | dot => "DOT" | semicolon => "SEMICOLON" | colon => "COLON" | question => "QUESTION"
  | minus => "MINUS" | minusMinus => "MINUS_MINUS" | minusEqual => "MINUS_EQUAL"
  | plus => "PLUS" | plusPlus => "PLUS_PLUS" | plusEqual => "PLUS_EQUAL"
  | slash => "SLASH" | slashEqual => "SLASH_EQUAL" | star => "STAR" | starEqual => "STAR_EQUAL"
  | percent => "PERCENT" | percentEqual => "PERCENT_EQUAL"
  | ampersand => "AMPERSAND" | bar => "BAR" | caret => "CARET"
  | bang => "BANG" | bangEqual => "BANG_EQUAL" | equal => "EQUAL" | equalEqual => "EQUAL_EQUAL"
  | greater => "GREATER" | greaterEqual => "GREATER_EQUAL" | less => "LESS" | lessEqual => "LESS_EQUAL"

end Punct

inductive Keyword where
  | and | base | break | classWord | continue | else | false | fun | if | null | or | print | return
  | static | this | true | var | while
deriving DecidableEq, Repr

namespace Keyword

def all : List Keyword :=
  [.and, .base, .break, .classWord, .continue, .else, .false, .fun, .if, .null, .or, .print, .return,
    .static, .this, .true, .var, .while]

theorem mem_all (k : Keyword) : k ∈ all := by
  cases k <;> decide

def text : Keyword → String
  | .and => "and" | .base => "base" | .break => "break" | .classWord => "class" | .continue => "continue"
  | .else => "else" | .false => "false" | .fun => "fun" | .if => "if" | .null => "null" | .or => "or"
  | .print => "print" | .return => "return" | .static => "static" | .this => "this" | .true => "true"
  | .var => "var" | .while => "while"

def ofText? (s : String) : Option Keyword := all.find? fun k => k.text = s

/-- Name in token listings. -/
def name : Keyword → String
  | .and => "AND" | .base => "BASE" | .break => "BREAK" | .classWord => "CLASS" | .continue => "CONTINUE"
  | .else => "ELSE" | .false => "FALSE" | .fun => "FUN" | .if => "IF" | .null => "NULL" | .or => "OR"
  | .print => "PRINT" | .return => "RETURN" | .static => "STATIC" | .this => "THIS" | .true => "TRUE"
  | .var => "VAR" | .while => "WHILE"

end Keyword

namespace Token

inductive Kind where
  | punct (p : Punct)
  | keyword (k : Keyword)
  | identifier
  | string (contents : String)
  | number (value : Number)
  | eof
deriving DecidableEq, Repr

def Kind.name : Kind → String
  | .punct p => p.name
  | .keyword k => k.name
  | .identifier => "IDENTIFIER"
  | .string _ => "STRING"
  | .number _ => "NUMBER"
  | .eof => "EOF"

/-- The literal as listings show it; tokens without one show `null`. -/
def Kind.literal : Kind → String
  | .string s => s
  | .number n => n.literalText
  | _ => "null"

end Token

structure Token where
  kind : Token.Kind
  lexeme : String
  line : Nat
deriving DecidableEq, Repr

namespace Token

def eof (line : Nat) : Token := ⟨.eof, "", line⟩

/-- A punctuator in its own spelling. -/
def ofPunct (p : Punct) (line : Nat) : Token := ⟨.punct p, p.text, line⟩

def is (t : Token) (p : Punct) : Bool := t.kind = .punct p

def isKeyword (t : Token) (k : Keyword) : Bool := t.kind = .keyword k

def display (t : Token) : String := t.kind.name ++ " " ++ t.lexeme ++ " " ++ t.kind.literal

end Token

/-- How reports name a line. -/
def lineTag (line : Nat) : String := "[line " ++ Nat.repr line ++ "] "

/-- Where a diagnostic points: a line, and the text there unless it is the end of the source. -/
structure Place where
  line : Nat
  near : Option String
deriving DecidableEq, Repr

def Token.place (t : Token) : Place :=
  ⟨t.line, if t.kind = .eof then none else some t.lexeme⟩

def Place.location (p : Place) : String :=
  match p.near with
  | none => " at end"
  | some s => " at '" ++ s ++ "'"

end Scriptlet
