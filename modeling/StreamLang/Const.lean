import StreamLang.Schema
import StreamLang.Text.Case
import StreamLang.Text.Search
import StreamLang.Whole

/-!
Constants known before a program runs, and the folding of expressions to them. What depends on a
run, or would fail, does not fold.
-/

namespace StreamLang

inductive Const
  | int (n : Int64)
  | float (x : Binary64)
  | text (s : String)
  | bool (b : Bool)
  | void
  | list (items : List Const)
deriving Inhabited

namespace Const

def label : Const → String
  | int _ => "Int"
  | float _ => "Float"
  | text _ => "Str"
  | bool _ => "Bool"
  | void => "Void"
  | list _ => "List"

mutual

def render : Const → String
  | int n => toString n.toInt
  | float x => Decimal.Layout.plain.write x
  | text s => Text.quote s
  | bool b => if b then "true" else "false"
  | void => "()"
  | list items => "[" ++ ", ".intercalate (renderAll items) ++ "]"

def renderAll : List Const → List String
  | [] => []
  | c :: rest => render c :: renderAll rest

end

def ofLiteral : Literal → Const
  | .int n => int n
  | .float x => float x
  | .text s => text s
  | .bool b => bool b
  | .void => void

def toBinary64? : Const → Option Binary64
  | int n => some (Decimal.ofInt n.toInt)
  | float x => some x
  | _ => none

mutual

/-- Numbers are equal when they are so as floating-point numbers. -/
def equals : Const → Const → Bool
  | list as, list bs => equalsAll as bs
  | text a, text b => a == b
  | bool a, bool b => a == b
  | void, void => true
  | int a, int b => (Decimal.ofInt a.toInt).equals (Decimal.ofInt b.toInt)
  | int a, float b => (Decimal.ofInt a.toInt).equals b
  | float a, int b => a.equals (Decimal.ofInt b.toInt)
  | float a, float b => a.equals b
  | _, _ => false

def equalsAll : List Const → List Const → Bool
  | [], [] => true
  | a :: as, b :: bs => equals a b && equalsAll as bs
  | _, _ => false

end

/-- The order of two constants; none between different kinds, nor with what is no number. -/
def compare? : Const → Const → Option Ordering
  | int a, int b => some (compare a.toInt b.toInt)
  | text a, text b => some (compareOfLessAndEq a b)
  | bool a, bool b => some (compare a.toNat b.toNat)
  | a, b => do
    let x ← a.toBinary64?
    let y ← b.toBinary64?
    x.compare? y

/-- Arithmetic: on integers when both are, and else on floating-point numbers. -/
def arithmetic? (onInts : Int64 → Int64 → Option Int64)
    (onFloats : Binary64 → Binary64 → Option Binary64) : Const → Const → Option Const
  | int a, int b => (onInts a b).map int
  | a, b => do
    let x ← a.toBinary64?
    let y ← b.toBinary64?
    (onFloats x y).map float

def binary? (op : BinaryOp) (a b : Const) : Option Const :=
  match op with
  | .eq => some (bool (a.equals b))
  | .ne => some (bool (!a.equals b))
  | .lt => (a.compare? b).map fun o => bool (o == .lt)
  | .le => (a.compare? b).map fun o => bool (o != .gt)
  | .gt => (a.compare? b).map fun o => bool (o == .gt)
  | .ge => (a.compare? b).map fun o => bool (o != .lt)
  | .and | .or =>
    match a, b with
    | bool _, bool y => some (bool y)
    | _, _ => none
  | .add =>
    match a, b with
    | text x, text y => some (text (x ++ y))
    | _, _ => arithmetic? Whole.add? (fun x y => some (x.add y)) a b
  | .sub => arithmetic? Whole.sub? (fun x y => some (x.sub y)) a b
  | .mul => arithmetic? Whole.mul? (fun x y => some (x.mul y)) a b
  | .div => arithmetic? Whole.div? (fun x y => if y.isZero then none else some (x.div y)) a b
  | .mod =>
    match a, b with
    | int x, int y => (Whole.rem? x y).map int
    | _, _ => none

def unary? (op : UnaryOp) (a : Const) : Option Const :=
  match op, a with
  | .not, bool b => some (bool (!b))
  | .neg, int n => (Whole.neg? n).map int
  | .neg, float x => some (float x.neg)
  | _, _ => none

/-- The builtins that fold. -/
def call? (name : String) (args : List Const) : Option Const :=
  match name, args with
  | "len", [text s] => some (int (Int64.ofNat s.length))
  | "len", [list items] => some (int (Int64.ofNat items.length))
  | "abs", [int n] => (Whole.abs? n).map int
  | "abs", [float x] => some (float x.abs)
  | "upper", [text s] => some (text (Text.upper s))
  | "lower", [text s] => some (text (Text.lower s))
  | "contains", [text s, text needle] => some (bool (Text.contains s needle))
  | "contains", [list items, c] => some (bool (items.any (·.equals c)))
  | _, _ => none

mutual

/-- The constant an expression stands for, over a scope of named constants. -/
def fold (scope : String → Option Const) : Expr → Option Const
  | .literal _ v => some (ofLiteral v)
  | .name _ n => scope n
  | .list _ items => (foldAll scope items).map list
  | .unary _ op operand => do unary? op (← fold scope operand)
  | .binary _ op lhs rhs => do
    let a ← fold scope lhs
    match op, a with
    | .and, bool false => some (bool false)
    | .or, bool true => some (bool true)
    | _, _ => do binary? op a (← fold scope rhs)
  | .branch _ test whenTrue whenFalse => do
    match ← fold scope test with
    | bool true => fold scope whenTrue
    | bool false => foldOr scope whenFalse
    | _ => none
  | .block _ stmts tail => if stmts.isEmpty then foldOr scope tail else none
  | .call _ (.name _ n) args =>
    if (scope n).isSome then none else do call? n (← foldAll scope args)
  | _ => none

/-- What is left out is void. -/
def foldOr (scope : String → Option Const) : Option Expr → Option Const
  | none => some void
  | some e => fold scope e

def foldAll (scope : String → Option Const) : List Expr → Option (List Const)
  | [] => some []
  | e :: rest => do
    let c ← fold scope e
    let cs ← foldAll scope rest
    return c :: cs

end

/-- The scope in which a predicate speaks of the candidate as `value`. -/
def withValue (candidate : Const) (scope : String → Option Const) (name : String) : Option Const :=
  if name == "value" then some candidate else scope name

/-- The verdict of an alias on a candidate; none when the predicate does not fold to a truth
value. -/
def refinementHolds? (a : AliasSchema) (candidate : Const) (scope : String → Option Const) :
    Option Bool :=
  match a.predicate with
  | none => some true
  | some p =>
    match fold (withValue candidate scope) p with
    | some (bool b) => some b
    | _ => none

end Const

end StreamLang
