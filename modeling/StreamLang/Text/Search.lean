/-!
White space: the 25 characters of Unicode's `White_Space` property, and trimming by them.
-/

namespace StreamLang.Text

def isBlank (c : Char) : Bool :=
  let n := c.toNat
  (0x09 ≤ n && n ≤ 0x0d) || n == 0x20 || n == 0x85 || n == 0xa0 || n == 0x1680
    || (0x2000 ≤ n && n ≤ 0x200a) || n == 0x2028 || n == 0x2029 || n == 0x202f || n == 0x205f
    || n == 0x3000

/-- Core's white space is a part of it. -/
theorem isBlank_of_isWhitespace {c : Char} (h : c.isWhitespace = true) : isBlank c = true := by
  simp only [Char.isWhitespace, Bool.or_eq_true, decide_eq_true_eq] at h
  obtain ((rfl | rfl) | rfl) | rfl := h <;> rfl

def trimChars (cs : List Char) : List Char :=
  ((cs.dropWhile isBlank).reverse.dropWhile isBlank).reverse

/-- Removes the blanks at both ends. -/
def trim (s : String) : String := String.ofList (trimChars s.toList)

end StreamLang.Text

/-!
Finding a text inside another, and cutting a text at a separator.
-/

namespace StreamLang.Text

/-- `needle` stands somewhere in `hay`. -/
def containsChars (needle : List Char) : List Char → Bool
  | [] => needle.isEmpty
  | c :: rest => needle.isPrefixOf (c :: rest) || containsChars needle rest

def contains (hay needle : String) : Bool := containsChars needle.toList hay.toList

/-- The pieces between the places where `sep`, which is not empty, stands. `skip` characters of a
separator are still to be passed; `piece` is the piece being read, backwards. -/
def splitFrom (sep : List Char) : Nat → List Char → List Char → List (List Char)
  | _, piece, [] => [piece.reverse]
  | skip + 1, piece, _ :: rest => splitFrom sep skip piece rest
  | 0, piece, c :: rest =>
    if sep.isPrefixOf (c :: rest) then piece.reverse :: splitFrom sep (sep.length - 1) [] rest
    else splitFrom sep 0 (c :: piece) rest

/-- An empty separator cuts a text into its characters. -/
def split (s sep : String) : List String :=
  if sep.isEmpty then s.toList.map fun c => String.ofList [c]
  else (splitFrom sep.toList 0 [] s.toList).map String.ofList

end StreamLang.Text
