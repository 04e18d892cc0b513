import StreamLang.Text.Printable

/-!
Quoted text, the form in which a string is shown inside another value. A quote and a backslash
take a backslash, five controls have a letter of their own, whatever else is not printable is
written by its code point, and every other character stands for itself.
-/

namespace StreamLang.Text

def escapeChar (c : Char) : List Char :=
  match c with
  | '\x00' => ['\\', '0']
  | '\t' => ['\\', 't']
  | '\n' => ['\\', 'n']
  | '\r' => ['\\', 'r']
  | '"' => ['\\', '"']
  | '\\' => ['\\', '\\']
  | c =>
    if isPrintable c then [c]
    else ['\\', 'u', '\x7b'] ++ Nat.toDigits 16 c.toNat ++ ['\x7d']

/-- The string between quotes, with what cannot stand for itself escaped. -/
def quote (s : String) : String :=
  String.ofList ('"' :: s.toList.flatMap escapeChar ++ ['"'])

/-- No quote inside the quotes is left bare. -/
theorem escapeChar_ne_quote (c : Char) : escapeChar c ≠ ['"'] := by
  unfold escapeChar
  split <;> try simp
  split <;> simp_all

end StreamLang.Text
