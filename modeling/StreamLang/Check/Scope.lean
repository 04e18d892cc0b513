import StreamLang.Const

/-!
The names that are known while a module is checked. A name is declared at most once in a scope; an
inner scope hides the outer ones.
-/

namespace StreamLang

/-- What is known of a name. -/
structure Binding where
  ty : Ty
  /-- The value, when it folds to a constant. -/
  constant : Option Const
  /-- It is a stream that visibly never ends. -/
  unbounded : Bool

def Binding.ofTy (ty : Ty) : Binding := ⟨ty, none, false⟩

abbrev Scope : Type := List (String × Binding)

/-- The scope of the module and the scopes inside it, innermost first. -/
structure Scopes where
  globals : Scope
  locals : List Scope

namespace Scopes

def empty : Scopes := ⟨[], []⟩

def enter (s : Scopes) : Scopes := { s with locals := [] :: s.locals }

/-- Leaves the innermost scope; the scope of the module stays. -/
def exit (s : Scopes) : Scopes := { s with locals := s.locals.drop 1 }

/-- Declares a name in the innermost scope, unless it is there already. -/
def declare? (s : Scopes) (name : String) (b : Binding) : Option Scopes :=
  match s.locals with
  | [] =>
    if Keyed.contains name s.globals then none
    else some { s with globals := Keyed.insert name b s.globals }
  | top :: rest =>
    if Keyed.contains name top then none
    else some { s with locals := Keyed.insert name b top :: rest }

/-- Replaces what is known of a name of the module. -/
def refineGlobal (s : Scopes) (name : String) (b : Binding) : Scopes :=
  { s with globals := Keyed.insert name b s.globals }

def lookup? (s : Scopes) (name : String) : Option Binding :=
  match s.locals.findSome? (Keyed.get? name ·) with
  | some b => some b
  | none => Keyed.get? name s.globals

/-- The name is one of the module, and no inner scope hides it. -/
def isGlobal (s : Scopes) (name : String) : Bool :=
  !s.locals.any (Keyed.contains name ·) && Keyed.contains name s.globals

/-- The constants that can be seen. -/
def constant? (s : Scopes) (name : String) : Option Const := (s.lookup? name).bind Binding.constant

/-- The constants of the module that can be seen. -/
def globalConstant? (s : Scopes) (name : String) : Option Const :=
  if s.isGlobal name then s.constant? name else none

theorem lookup?_of_declare?_self {s t : Scopes} {name : String} {b : Binding}
    (h : s.declare? name b = some t) : t.lookup? name = some b := by
  unfold declare? at h
  split at h <;> split at h <;> cases h <;> simp_all [lookup?, Keyed.get?_insert_self]

theorem lookup?_of_declare?_of_ne {s t : Scopes} {name other : String} {b : Binding}
    (h : s.declare? name b = some t) (hn : other ≠ name) : t.lookup? other = s.lookup? other := by
  unfold declare? at h
  split at h <;> split at h <;> cases h <;>
    simp_all [lookup?, List.findSome?_cons, Keyed.get?_insert_of_ne hn]

@[simp] theorem exit_enter (s : Scopes) : s.enter.exit = s := rfl

end Scopes

end StreamLang
