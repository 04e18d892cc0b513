import StreamLang.Fault

/-!
Computations of the evaluator: they change a state, and end with a value or with an unwinding. The
state at the end of a computation that unwinds is kept.
-/

namespace StreamLang

/-- How a computation ends without a value. -/
inductive Unwind
  /-- It failed. The line is 0 until an expression around it is known. -/
  | fail (fault : Fault) (line : Nat)
  /-- A `?` met a failure, and the function around it ends with `v`. -/
  | early (v : Value) (line : Nat)
  /-- The bound on the length of the computation was too small. -/
  | exhausted

/-- Gives a failure without a line its line. -/
def Unwind.locate (line : Nat) : Unwind → Unwind
  | fail fault 0 => fail fault line
  | u => u

/-- The innermost line that is known stays. -/
theorem Unwind.locate_locate {inner : Nat} (h : inner ≠ 0) (outer : Nat) (u : Unwind) :
    (u.locate inner).locate outer = u.locate inner := by
  cases u with
  | fail fault line => cases line <;> cases inner <;> simp_all [locate]
  | early v line => rfl
  | exhausted => rfl

abbrev Eval (σ α : Type) : Type := EStateM Unwind σ α

namespace Eval

variable {σ α : Type}

def fail (fault : Fault) : Eval σ α := throw (.fail fault 0)

def failAt (fault : Fault) (line : Nat) : Eval σ α := throw (.fail fault line)

def ofExcept (r : Except Fault α) : Eval σ α :=
  match r with
  | .ok a => pure a
  | .error fault => fail fault

/-- Failures inside that have no line get this one. -/
def located (line : Nat) (x : Eval σ α) : Eval σ α := fun s =>
  match x s with
  | .ok a s => .ok a s
  | .error u s => .error (u.locate line) s

/-- Changes the state at the end, however that is reached. -/
def restoring (restore : σ → σ) (x : Eval σ α) : Eval σ α := fun s =>
  match x s with
  | .ok a s => .ok a (restore s)
  | .error u s => .error u (restore s)

/-- An early end inside gives its value here. -/
def catchEarly (x : Eval σ Value) : Eval σ Value := fun s =>
  match x s with
  | .error (.early v _) s => .ok v s
  | r => r

end Eval

end StreamLang
