/-!
The operators of expressions: their symbols, their classes, and how tightly they bind.
-/

namespace StreamLang

inductive BinaryOp
  | add | sub | mul | div | mod
  | eq | ne | lt | le | gt | ge
  | and | or
deriving DecidableEq, Repr

inductive UnaryOp
  | not | neg
deriving DecidableEq, Repr

namespace BinaryOp

def all : List BinaryOp := [add, sub, mul, div, mod, eq, ne, lt, le, gt, ge, and, or]

def text : BinaryOp → String
  | add => "+" | sub => "-" | mul => "*" | div => "/" | mod => "%"
  | eq => "==" | ne => "!=" | lt => "<" | le => "<=" | gt => ">" | ge => ">="
  | and => "&&" | or => "||"

def label : BinaryOp → String
  | add => "Add" | sub => "Sub" | mul => "Mul" | div => "Div" | mod => "Mod"
  | eq => "Eq" | ne => "Ne" | lt => "Lt" | le => "Le" | gt => "Gt" | ge => "Ge"
  | and => "And" | or => "Or"

def ofText? (s : String) : Option BinaryOp := all.find? (·.text == s)

theorem ofText?_text (op : BinaryOp) : ofText? op.text = some op := by cases op <;> decide

def isArithmetic : BinaryOp → Bool
  | add | sub | mul | div | mod => true
  | _ => false

def isComparison : BinaryOp → Bool
  | lt | le | gt | ge => true
  | _ => false

def isEquality : BinaryOp → Bool
  | eq | ne => true
  | _ => false

def isLogical : BinaryOp → Bool
  | and | or => true
  | _ => false

/-- Higher binds tighter. The pipe binds less than any of these. -/
def precedence : BinaryOp → Nat
  | or => 2
  | and => 3
  | eq | ne => 4
  | lt | le | gt | ge => 5
  | add | sub => 6
  | mul | div | mod => 7

end BinaryOp

namespace UnaryOp

def text : UnaryOp → String
  | not => "!"
  | neg => "-"

def label : UnaryOp → String
  | not => "Not"
  | neg => "Neg"

def ofText? (s : String) : Option UnaryOp := [not, neg].find? (·.text == s)

end UnaryOp

end StreamLang
