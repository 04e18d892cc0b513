import StreamLang.Value

/-!
Equality of values. An integer equals the floating-point number of the same value, at any depth;
members of a set are of one kind besides. Two sets are equal when they have as many members and
each member of the first equals one of the second.
-/

namespace StreamLang

namespace Json

/-- Equality of numbers; a whole number never equals another number. -/
def Number.same : Number → Number → Bool
  | int a, int b => a == b
  | float a _, float b _ => a.equals b
  | _, _ => false

mutual

/-- Equality of documents. -/
def same : Json → Json → Bool
  | null, null => true
  | bool a, bool b => a == b
  | number a, number b => a.same b
  | text a, text b => a == b
  | array as, array bs => sameItems as bs
  | object as, object bs => sameMembers as bs
  | _, _ => false

def sameItems : List Json → List Json → Bool
  | [], [] => true
  | a :: as, b :: bs => same a b && sameItems as bs
  | _, _ => false

def sameMembers : List (String × Json) → List (String × Json) → Bool
  | [], [] => true
  | (k, a) :: as, (l, b) :: bs => k == l && same a b && sameMembers as bs
  | _, _ => false

end

end Json

namespace Value

def sameKind (a b : Value) : Bool := a.kind == b.kind

mutual

/-- Equality, read from left to right, or from right to left when `flip` is set. The direction
shows only where floating-point numbers that stand for several integers meet inside sets. -/
def equalsFrom (flip : Bool) : Value → Value → Bool
  | int a, int b => a == b
  | int a, float b => (Decimal.ofInt a.toInt).equals b
  | float a, int b => a.equals (Decimal.ofInt b.toInt)
  | float a, float b => a.equals b
  | text a, text b => a == b
  | bool a, bool b => a == b
  | void, void => true
  | list as, list bs => equalsAll flip as bs
  | map as, map bs => equalsEntries flip as bs
  | set as, set bs =>
    as.length == bs.length && (if flip then bs.all (isAmong as) else allAmong as bs)
  | record n as, record m bs => n == m && equalsEntries flip as bs
  | enum e v p, enum f w q => e == f && v == w && equalsOption flip p q
  | tuple as, tuple bs => equalsAll flip as bs
  | option a, option b => equalsOption flip a b
  | ok a, ok b => equalsFrom flip a b
  | err a, err b => equalsFrom flip a b
  | future a, future b => a == b
  | stream a _, stream b _ => a == b
  | function a _, function b _ => a == b
  | model a, model b => a.same b
  | prediction a, prediction b => a.same b
  | _, _ => false
termination_by structural a _ => a

def equalsOption (flip : Bool) : Option Value → Option Value → Bool
  | none, none => true
  | some a, some b => equalsFrom flip a b
  | _, _ => false
termination_by structural a _ => a

def equalsAll (flip : Bool) : List Value → List Value → Bool
  | [], [] => true
  | a :: as, b :: bs => equalsFrom flip a b && equalsAll flip as bs
  | _, _ => false
termination_by structural as _ => as

def equalsEntries (flip : Bool) : List (String × Value) → List (String × Value) → Bool
  | [], [] => true
  | (k, a) :: as, (l, b) :: bs => k == l && equalsFrom flip a b && equalsEntries flip as bs
  | _, _ => false
termination_by structural as _ => as

/-- Each of the first values equals one of the second that is of its kind. -/
def allAmong : List Value → List Value → Bool
  | [], _ => true
  | a :: as, bs => bs.any (fun b => sameKind b a && equalsFrom true a b) && allAmong as bs
termination_by structural as _ => as

/-- One of the values is of the kind of the given one and equals it. -/
def isAmong : List Value → Value → Bool
  | [], _ => false
  | a :: as, b => (sameKind a b && equalsFrom false a b) || isAmong as b
termination_by structural as _ => as

end

def equals (a b : Value) : Bool := equalsFrom false a b

/-- Equality of members of a set. -/
def sameMember (a b : Value) : Bool := sameKind a b && equals a b

/-- Adds a member to the end, unless it is there. -/
def addMember (members : List Value) (v : Value) : List Value :=
  if members.any (·.sameMember v) then members else members ++ [v]

/-- The set of the values, each in the place where it comes first. -/
def setOf (vs : List Value) : Value := set (vs.foldl addMember [])

end Value

end StreamLang
