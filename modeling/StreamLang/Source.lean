/-!
Places in a source text. An offset counts bytes of the text's UTF-8 form; lines and columns count
from one, and a column counts characters.
-/

namespace StreamLang

/-- Where a piece of text stands: its bytes `lo` to `hi`, and the line and column of `lo`. Spans of a
text are made by `Position.spanTo`, which keeps 32 bits of each number. -/
structure Span where
  lo : Nat
  hi : Nat
  line : Nat
  column : Nat
deriving DecidableEq, Repr, Inhabited

namespace Span

/-- The span of what stands in no text. -/
def none : Span := ⟨0, 0, 0, 0⟩

/-- The first span, stretched to the end of the second. -/
def through (a b : Span) : Span := { a with hi := max b.hi a.hi }

/-- What 32 bits keep of a number. -/
def narrow (n : Nat) : Nat := n.toUInt32.toNat

theorem narrow_of_lt {n : Nat} (h : n < UInt32.size) : narrow n = n := UInt32.toNat_ofNat_of_lt' h

def text (s : Span) : String :=
  toString s.line ++ ":" ++ toString s.column ++ "@" ++ toString s.lo ++ "-" ++ toString s.hi

end Span

/-- A point between two characters of a text. -/
structure Position where
  offset : Nat
  line : Nat
  column : Nat
deriving DecidableEq, Repr, Inhabited

namespace Position

def start : Position := ⟨0, 1, 1⟩

/-- The position behind the character `c`. -/
def advance (p : Position) (c : Char) : Position :=
  if c = '\n' then ⟨p.offset + c.utf8Size, p.line + 1, 1⟩
  else ⟨p.offset + c.utf8Size, p.line, p.column + 1⟩

/-- The position behind all of `cs`. -/
def advanceAll (p : Position) (cs : List Char) : Position := cs.foldl advance p

@[simp] theorem advanceAll_nil (p : Position) : p.advanceAll [] = p := rfl

@[simp] theorem advanceAll_cons (p : Position) (c : Char) (cs : List Char) :
    p.advanceAll (c :: cs) = (p.advance c).advanceAll cs := rfl

theorem advanceAll_append (p : Position) (as bs : List Char) :
    p.advanceAll (as ++ bs) = (p.advanceAll as).advanceAll bs := List.foldl_append

/-- The span from one position to another. -/
def spanTo (p q : Position) : Span :=
  ⟨Span.narrow p.offset, Span.narrow q.offset, Span.narrow p.line, Span.narrow p.column⟩

/-- The empty span at a position. -/
def point (p : Position) : Span := p.spanTo p

/-- The end of the text. -/
def atEnd (source : String) : Position := start.advanceAll source.toList

/-- The position of a byte offset, searched from `p` on. An offset past the end counts as the end,
and one inside a character has column 1. -/
def seek (offset : Nat) (p : Position) : List Char → Position
  | [] => p
  | c :: rest =>
    if offset ≤ p.offset then p
    else if offset < p.offset + c.utf8Size then ⟨offset, p.line, 1⟩
    else seek offset (p.advance c) rest

def ofOffset (source : String) (offset : Nat) : Position := start.seek offset source.toList

end Position

/-- The span between two byte offsets of a text. -/
def Span.ofOffsets (source : String) (lo hi : Nat) : Span :=
  let p := Position.ofOffset source lo
  ⟨narrow lo, narrow hi, narrow p.line, narrow p.column⟩

end StreamLang
