import StreamLang.Source

/-!
The words of the language: reserved words, punctuation, and the tokens of a source text.
-/

namespace StreamLang

/-- The reserved words. -/
inductive Keyword
  | letKw | fnKw | asyncKw | awaitKw | matchKw | ifKw | elseKw | recordKw | enumKw
  | typeKw | whereKw | importKw | exportKw | fromKw | asKw | withKw | trueKw | falseKw
deriving DecidableEq, Repr

namespace Keyword

def all : List Keyword :=
  [letKw, fnKw, asyncKw, awaitKw, matchKw, ifKw, elseKw, recordKw, enumKw, typeKw, whereKw,
    importKw, exportKw, fromKw, asKw, withKw, trueKw, falseKw]

def text : Keyword → String
  | letKw => "let" | fnKw => "fn" | asyncKw => "async" | awaitKw => "await" | matchKw => "match"
  | ifKw => "if" | elseKw => "else" | recordKw => "record" | enumKw => "enum" | typeKw => "type"
  | whereKw => "where" | importKw => "import" | exportKw => "export" | fromKw => "from"
  | asKw => "as" | withKw => "with" | trueKw => "true" | falseKw => "false"

def ofText? (s : String) : Option Keyword := all.find? (·.text == s)

theorem ofText?_text (k : Keyword) : ofText? k.text = some k := by cases k <;> decide

end Keyword

/-- The punctuation marks. -/
inductive Punct
  | ellipsis | dotDot | pipe | path | fatArrow | arrow | eqEq | notEq | le | ge | andAnd | orOr
  | assign | plus | minus | star | slash | percent | bang | lt | gt | question | colon | semicolon
  | comma | dot | lparen | rparen | lbracket | rbracket | lbrace | rbrace | bar
deriving DecidableEq, Repr

namespace Punct

/-- Every mark stands before the marks it begins with, so the first that fits is the longest. -/
def all : List Punct :=
  [ellipsis, dotDot, pipe, path, fatArrow, arrow, eqEq, notEq, le, ge, andAnd, orOr,
    assign, plus, minus, star, slash, percent, bang, lt, gt, question, colon, semicolon,
    comma, dot, lparen, rparen, lbracket, rbracket, lbrace, rbrace, bar]

def chars : Punct → List Char
  | ellipsis => ['.', '.', '.'] | dotDot => ['.', '.'] | pipe => ['|', '>'] | path => [':', ':']
  | fatArrow => ['=', '>'] | arrow => ['-', '>'] | eqEq => ['=', '='] | notEq => ['!', '=']
  | le => ['<', '='] | ge => ['>', '='] | andAnd => ['&', '&'] | orOr => ['|', '|']
  | assign => ['='] | plus => ['+'] | minus => ['-'] | star => ['*'] | slash => ['/']
  | percent => ['%'] | bang => ['!'] | lt => ['<'] | gt => ['>'] | question => ['?']
  | colon => [':'] | semicolon => [';'] | comma => [','] | dot => ['.'] | lparen => ['(']
  | rparen => [')'] | lbracket => ['['] | rbracket => [']'] | lbrace => ['\x7b']
  | rbrace => ['\x7d'] | bar => ['|']

def text (p : Punct) : String := String.ofList p.chars

/-- The longest mark with which a text begins. -/
def ofStart? (cs : List Char) : Option Punct := all.find? (·.chars.isPrefixOf cs)

theorem ofStart?_chars (p : Punct) : ofStart? p.chars = some p := by cases p <;> decide

end Punct

inductive TokenKind
  | ident (name : String)
  | int (digits : String)
  | float (digits : String)
  /-- A string literal by its contents. -/
  | text (contents : String)
  | symbol (mark : Punct)
  | keyword (word : Keyword)
deriving DecidableEq, Repr

namespace TokenKind

/-- The token's text; for a string literal its contents. -/
def lexeme : TokenKind → String
  | ident name => name
  | int digits => digits
  | float digits => digits
  | text contents => contents
  | symbol mark => mark.text
  | keyword word => word.text

end TokenKind

structure Token where
  kind : TokenKind
  span : Span
deriving DecidableEq, Repr

namespace Token

def lexeme (t : Token) : String := t.kind.lexeme

end Token

end StreamLang
