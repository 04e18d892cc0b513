import StreamLang.Source
import StreamLang.Literal

/-!
Patterns, and the names they bind.
-/

namespace StreamLang

/-- The markers that stand around exactly one value. -/
inductive Marker
  | some
  | ok
  | err
  | resolved
  | failed
deriving DecidableEq, Repr

mutual

inductive Pattern
  | wildcard (span : Span)
  | bind (span : Span) (name : String)
  | literal (span : Span) (value : Literal)
  | marked (span : Span) (marker : Marker) (inner : Pattern)
  | none (span : Span)
  | pending (span : Span)
  /-- With `rest` the fields that are not named are allowed to be there. -/
  | record (span : Span) (name : String) (fields : List FieldPattern) (rest : Bool)
  | variant (span : Span) (enum variant : String) (payload : Option Pattern)
  | tuple (span : Span) (items : List Pattern)
  /-- With a rest pattern the items are only the first ones. -/
  | list (span : Span) (items : List Pattern) (rest : Option Pattern)
  /-- Keys that are not named are allowed to be there. -/
  | map (span : Span) (entries : List (String × Pattern))

/-- Without a pattern the field is bound to its own name. -/
structure FieldPattern where
  name : String
  span : Span
  pattern : Option Pattern

end

instance : Inhabited Pattern := ⟨.wildcard .none⟩

namespace Pattern

def span : Pattern → Span
  | wildcard s => s
  | bind s _ => s
  | literal s _ => s
  | marked s _ _ => s
  | none s => s
  | pending s => s
  | record s _ _ _ => s
  | variant s _ _ _ => s
  | tuple s _ => s
  | list s _ _ => s
  | map s _ => s

def isWildcard : Pattern → Bool
  | wildcard _ => true
  | _ => false

mutual

/-- The names a pattern binds, in the order of the text. -/
def names : Pattern → List String
  | wildcard _ => []
  | bind _ name => [name]
  | literal _ _ => []
  | marked _ _ inner => names inner
  | none _ => []
  | pending _ => []
  | record _ _ fields _ => fieldNames fields
  | variant _ _ _ payload => optionNames payload
  | tuple _ items => listNames items
  | list _ items rest => listNames items ++ optionNames rest
  | map _ entries => entryNames entries

def optionNames : Option Pattern → List String
  | .none => []
  | .some p => names p

def listNames : List Pattern → List String
  | [] => []
  | p :: rest => names p ++ listNames rest

def fieldNames : List FieldPattern → List String
  | [] => []
  | ⟨name, _, .none⟩ :: rest => name :: fieldNames rest
  | ⟨_, _, .some p⟩ :: rest => names p ++ fieldNames rest

def entryNames : List (String × Pattern) → List String
  | [] => []
  | (_, p) :: rest => names p ++ entryNames rest

end

end Pattern

end StreamLang
