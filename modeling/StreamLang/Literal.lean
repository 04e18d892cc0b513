import StreamLang.Text.Quoted
import StreamLang.Decimal.Layout

/-!
The constants a program can write down.
-/

namespace StreamLang

inductive Literal
  | int (n : Int64)
  | float (x : Binary64)
  | text (s : String)
  | bool (b : Bool)
  | void
deriving Inhabited

namespace Literal

def render : Literal → String
  | int n => toString n.toInt
  | float x => Decimal.Layout.shown.write x
  | text s => Text.quote s
  | bool b => if b then "true" else "false"
  | void => "()"

end Literal

end StreamLang
