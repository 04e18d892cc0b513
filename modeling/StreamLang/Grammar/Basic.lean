import StreamLang.Token.Scan
import StreamLang.Diagnostic
import StreamLang.Literal
import StreamLang.Decimal.Read

/-!
Reading a sequence of tokens. A reader takes tokens from the front and never gives one back, so
when it fails, the first token that is left is the one that does not fit.
-/

namespace StreamLang.Grammar

/-- What a reader wanted when it failed. -/
inductive Want
  | thing (what : String)
  | symbol (mark : Punct)
  | valid (what : String)
  /-- A bound on the length of a loop was hit; it is never hit before the tokens are used up. -/
  | budget
deriving DecidableEq, Repr

def Want.message : Want → String
  | thing what => "expected " ++ what
  | symbol mark => "expected `" ++ mark.text ++ "`"
  | valid what => "invalid " ++ what
  | budget => "unexpected token"

/-- A reader of tokens; a failure leaves the tokens that were not taken. -/
abbrev Reader (α : Type) : Type := EStateM Want (List Token) α

def wanted {α : Type} (what : String) : Reader α := throw (.thing what)

def peek : Reader (Option TokenKind) := do return (← get).head?.map Token.kind

/-- Takes one token. -/
def skip : Reader Unit := modify (List.drop 1)

/-- The span of the next token. -/
def nextSpan : Reader Span := do
  match ← get with
  | [] => return .none
  | t :: _ => return t.span

def nextIs (mark : Punct) : Reader Bool := do return (← peek) == some (.symbol mark)

/-- Takes the mark if it comes next. -/
def accept (mark : Punct) : Reader Bool := do
  if ← nextIs mark then
    skip
    return true
  else return false

def expect (mark : Punct) : Reader Unit := do
  if ← accept mark then return () else throw (.symbol mark)

def nextIsWord (word : Keyword) : Reader Bool := do return (← peek) == some (.keyword word)

def acceptWord (word : Keyword) : Reader Bool := do
  if ← nextIsWord word then
    skip
    return true
  else return false

def expectWord (word : Keyword) (what : String) : Reader Unit := do
  if ← acceptWord word then return () else wanted what

/-- A name and its span. -/
def ident (what : String) : Reader (String × Span) := do
  let span ← nextSpan
  match ← peek with
  | some (.ident name) =>
    skip
    return (name, span)
  | _ => wanted what

/-- A key of a map: a name or a string. -/
def mapKey : Reader String := do
  match ← peek with
  | some (.ident name) =>
    skip
    return name
  | some (.text contents) =>
    skip
    return contents
  | _ => wanted "map key"

/-- The state for another round of a loop, or its result. -/
inductive Round (σ α : Type)
  | again (s : σ)
  | done (a : α)

def loopFor {σ α : Type} (round : σ → Reader (Round σ α)) : Nat → σ → Reader α
  | 0, _ => throw .budget
  | n + 1, s => do
    match ← round s with
    | .again s' => loopFor round n s'
    | .done a => return a

/-- Repeats a round that takes at least one token each time it goes on. -/
def loop {σ α : Type} (round : σ → Reader (Round σ α)) (s : σ) : Reader α := do
  loopFor round ((← get).length + 1) s

/-- Items separated by commas up to the closing mark, which is taken. A comma may stand before
it. -/
def listUntil {α : Type} (close : Punct) (item : Reader α) : Reader (List α) :=
  loop (fun acc => do
    if ← accept close then return .done acc.reverse
    let a ← item
    if ← accept .comma then return .again (a :: acc)
    expect close
    return .done (a :: acc).reverse) []

def withoutUnderscores (s : String) : List Char := s.toList.filter (· != '_')

/-- The value of the digits, if it is a 64-bit integer. -/
def intValue? (digits : String) : Option Int64 :=
  let n := Decimal.natOfDigits (withoutUnderscores digits)
  if n < Decimal.pow2 63 then some (Int64.ofNat n) else none

def floatValue? (digits : String) : Option Binary64 :=
  Decimal.readUnsigned? false (withoutUnderscores digits)

/-- An integer token that is next and was read as `digits`. -/
def intLiteral (digits : String) : Reader Int64 := do
  match intValue? digits with
  | some n =>
    skip
    return n
  | none => throw (.valid "integer literal")

def floatLiteral (digits : String) : Reader Binary64 := do
  match floatValue? digits with
  | some x =>
    skip
    return x
  | none => throw (.valid "float literal")

/-- Names of types begin with a capital letter. -/
def isTypeName (name : String) : Bool := name.toList.head?.any Char.isUpper

end StreamLang.Grammar

namespace StreamLang

/-- Why a text is not a program. -/
inductive GrammarError
  | scan (e : ScanError)
  | unmet (want : Grammar.Want) (found : Option Token) (atEnd : Span)
  | trailing (t : Token)
deriving DecidableEq, Repr

namespace GrammarError

def message : GrammarError → String
  | scan e => e.cause.message
  | unmet want (some t) _ => want.message ++ ", found '" ++ t.lexeme ++ "'"
  | unmet want none _ => want.message ++ ", found end of input"
  | trailing t => "unexpected trailing token '" ++ t.lexeme ++ "'"

def span : GrammarError → Span
  | scan e => e.span
  | unmet _ (some t) _ => t.span
  | unmet _ none atEnd => atEnd
  | trailing t => t.span

def toDiagnostic (e : GrammarError) : Diagnostic := .ofSpan .grammar e.message e.span

def toFailure (e : GrammarError) : Failure := .grammar e.toDiagnostic

end GrammarError

namespace Grammar

/-- Reads from the tokens of a text; gives the result and the tokens that are left. -/
def readSource {α : Type} (reader : Reader α) (source : String) :
    Except GrammarError (α × List Token) :=
  match Token.scan source with
  | .error e => .error (.scan e)
  | .ok tokens =>
    match reader tokens with
    | .ok a rest => .ok (a, rest)
    | .error want rest => .error (.unmet want rest.head? (Position.atEnd source).point)

end Grammar

end StreamLang
