/-!
Types of values, when a value of one type may stand where another is wanted, and the type of what
may come from either of two branches.
-/

namespace StreamLang

inductive Ty
  | int
  | float
  | text
  | bool
  | void
  | list (elem : Ty)
  | map (key value : Ty)
  | set (elem : Ty)
  | option (inner : Ty)
  | result (ok err : Ty)
  | stream (elem : Ty)
  | future (inner : Ty)
  | tuple (items : List Ty)
  | function (params : List Ty) (ret : Ty)
  | record (name : String)
  | enum (name : String)
  /-- The values of `base` on which the predicate of the alias holds. -/
  | refined (name : String) (base : Ty)
  | model
  | prediction
  /-- Nothing is known; such a value may be anything. -/
  | unknown
deriving Inhabited, Repr

namespace Ty

/-- The type without refinements at the top. -/
def base : Ty → Ty
  | refined _ b => b.base
  | t => t

def isUnknown (t : Ty) : Bool :=
  match t.base with
  | unknown => true
  | _ => false

def isNumeric (t : Ty) : Bool :=
  match t.base with
  | int | float => true
  | _ => false

/-- A value of this type could take part in arithmetic. -/
def maybeNumeric (t : Ty) : Bool := t.isNumeric || t.isUnknown

def isText (t : Ty) : Bool :=
  match t.base with
  | text => true
  | _ => false

def maybeText (t : Ty) : Bool := t.isText || t.isUnknown

/-- The type of the items of a sequence. -/
def element? (t : Ty) : Option Ty :=
  match t.base with
  | list e | stream e | set e => some e
  | unknown => some unknown
  | _ => none

mutual

/-- Equality, refinements included. -/
def same : Ty → Ty → Bool
  | int, int => true
  | float, float => true
  | text, text => true
  | bool, bool => true
  | void, void => true
  | list a, list b => same a b
  | map k v, map l w => same k l && same v w
  | set a, set b => same a b
  | option a, option b => same a b
  | result a e, result b f => same a b && same e f
  | stream a, stream b => same a b
  | future a, future b => same a b
  | tuple as, tuple bs => sameAll as bs
  | function ps r, function qs s => sameAll ps qs && same r s
  | record a, record b => a == b
  | enum a, enum b => a == b
  | refined n a, refined m b => n == m && same a b
  | model, model => true
  | prediction, prediction => true
  | unknown, unknown => true
  | _, _ => false

def sameAll : List Ty → List Ty → Bool
  | [], [] => true
  | a :: as, b :: bs => same a b && sameAll as bs
  | _, _ => false

end

mutual

/-- Compatibility in one direction: `fits false a b` says that a value of type `b` may stand where
an `a` is wanted, `fits true a b` the reverse. Parameters of functions turn the direction. -/
def fits (flip : Bool) : Ty → Ty → Bool
  | refined _ a, b => fits flip a b
  | unknown, _ => true
  | int, b =>
    match b.base with
    | int | unknown => true
    | float => flip
    | _ => false
  | float, b =>
    match b.base with
    | float | unknown => true
    | int => !flip
    | _ => false
  | text, b =>
    match b.base with
    | text | unknown => true
    | _ => false
  | bool, b =>
    match b.base with
    | bool | unknown => true
    | _ => false
  | void, b =>
    match b.base with
    | void | unknown => true
    | _ => false
  | list a, b =>
    match b.base with
    | list c => fits flip a c
    | unknown => true
    | _ => false
  | map k v, b =>
    match b.base with
    | map l w => fits flip k l && fits flip v w
    | unknown => true
    | _ => false
  | set a, b =>
    match b.base with
    | set c => fits flip a c
    | unknown => true
    | _ => false
  | option a, b =>
    match b.base with
    | option c => fits flip a c
    | unknown => true
    | _ => false
  | result a e, b =>
    match b.base with
    | result c f => fits flip a c && fits flip e f
    | unknown => true
    | _ => false
  | stream a, b =>
    match b.base with
    | stream c => fits flip a c
    | unknown => true
    | _ => false
  | future a, b =>
    match b.base with
    | future c => fits flip a c
    | unknown => true
    | _ => false
  | tuple as, b =>
    match b.base with
    | tuple cs => fitsAll flip as cs
    | unknown => true
    | _ => false
  | function ps r, b =>
    match b.base with
    | function qs s => fitsAll (!flip) ps qs && fits flip r s
    | unknown => true
    | _ => false
  | record n, b =>
    match b.base with
    | record m => n == m
    | unknown => true
    | _ => false
  | enum n, b =>
    match b.base with
    | enum m => n == m
    | unknown => true
    | _ => false
  | model, b =>
    match b.base with
    | model | unknown => true
    | _ => false
  | prediction, b =>
    match b.base with
    | prediction | unknown => true
    | _ => false

def fitsAll (flip : Bool) : List Ty → List Ty → Bool
  | [], [] => true
  | a :: as, b :: bs => fits flip a b && fitsAll flip as bs
  | _, _ => false

end

/-- A value of type `actual` may stand where an `expected` is wanted. -/
def accepts (expected actual : Ty) : Bool := fits false expected actual

/-- The type of what is either an `a` or a `b`; unknown when neither fits the other. -/
def join (a b : Ty) : Ty :=
  if a.accepts b && !a.isUnknown then a.base
  else if b.accepts a && !b.isUnknown then b.base
  else unknown

/-- The common type of several values, from left to right; unknown when there are none. -/
def joinAll : List Ty → Ty
  | [] => unknown
  | t :: ts => ts.foldl join t

mutual

def render : Ty → String
  | int => "Int"
  | float => "Float"
  | text => "String"
  | bool => "Bool"
  | void => "Void"
  | list t => "List<" ++ render t ++ ">"
  | map k v => "Map<" ++ render k ++ ", " ++ render v ++ ">"
  | set t => "Set<" ++ render t ++ ">"
  | option t => "Option<" ++ render t ++ ">"
  | result t e => "Result<" ++ render t ++ ", " ++ render e ++ ">"
  | stream t => "Stream<" ++ render t ++ ">"
  | future t => "Future<" ++ render t ++ ">"
  | tuple items => "(" ++ ", ".intercalate (renderAll items) ++ ")"
  | function params ret =>
    "fn(" ++ ", ".intercalate (renderAll params) ++ ") -> " ++ render ret
  | record name => name
  | enum name => name
  | refined name _ => name
  | model => "Model"
  | prediction => "Prediction"
  | unknown => "?"

def renderAll : List Ty → List String
  | [] => []
  | t :: ts => render t :: renderAll ts

end

@[simp] theorem base_base (t : Ty) : t.base.base = t.base := by
  fun_induction base t <;> simp_all [base]

theorem fits_unknown_right (flip : Bool) : ∀ t : Ty, fits flip t unknown = true
  | refined _ a => by simpa [fits] using fits_unknown_right flip a
  | int | float | text | bool | void | model | prediction | unknown => by simp [fits, base]
  | list _ | set _ | option _ | stream _ | future _ => by simp [fits, base]
  | map _ _ | result _ _ | tuple _ | function _ _ => by simp [fits, base]
  | record _ | enum _ => by simp [fits, base]

end Ty

end StreamLang
