import StreamLang.Source

/-!
Types as they are written in a program.
-/

namespace StreamLang

inductive TypeExpr
  | named (span : Span) (name : String) (args : List TypeExpr)
  | tuple (span : Span) (items : List TypeExpr)
  | function (span : Span) (params : List TypeExpr) (ret : TypeExpr)
deriving Inhabited

namespace TypeExpr

def span : TypeExpr → Span
  | named s _ _ => s
  | tuple s _ => s
  | function s _ _ => s

mutual

def render : TypeExpr → String
  | named _ name args =>
    if args.isEmpty then name else name ++ "<" ++ ", ".intercalate (renderAll args) ++ ">"
  | tuple _ items => "(" ++ ", ".intercalate (renderAll items) ++ ")"
  | function _ params ret => "fn(" ++ ", ".intercalate (renderAll params) ++ ") -> " ++ render ret

def renderAll : List TypeExpr → List String
  | [] => []
  | t :: rest => render t :: renderAll rest

end

end TypeExpr

end StreamLang
