import StreamLang.Eval

/-!
Pulling elements through a stream, one at a time. Each pull walks the stages once for one element,
and nothing is computed before it is pulled. Operations that pull until the end want a stream whose
shape bounds it; so do they of the inner streams of a `flat_map` that no later `take` caps.
-/

namespace StreamLang

/-- Calls a function value on behalf of a stage. -/
abbrev Host (σ : Type) : Type := Value → List Value → Eval σ Value

/-- The elements of a source that are still to come. -/
inductive SourceCursor
  | items (rest : List Value)
  | range (next stop step : Int64)
  /-- Without a count the numbers never end. -/
  | generate (index : Int64) (count : Option Int64) (generator : Value)
  | done

mutual

inductive StageCursor
  | map (f : Value)
  | filter (f : Value)
  /-- Elements of `inner` come first. With a terminal, its name, inner streams must be bounded. -/
  | flatMap (f : Value) (inner : Option InnerCursor) (terminal : Option String)
  | take (remaining : Nat)
  | skip (remaining : Nat)

/-- The elements of one result of a `flat_map` callback that are still to come. -/
inductive InnerCursor
  | items (rest : List Value)
  | stream (cursor : Cursor)

/-- A traversal of a stream; the last stage stands first. -/
structure Cursor where
  source : SourceCursor
  stages : List StageCursor

end

namespace SourceCursor

def ofSource : Source → SourceCursor
  | .list vs => items vs
  | .range start stop step => range start stop step
  | .generate count generator => generate 0 (some count) generator
  | .infinite generator => generate 0 none generator
  | .empty => done

/-- The sum, or the limit of the 64 bits in its direction. -/
def saturatingAdd (a b : Int64) : Int64 :=
  let sum := a.toInt + b.toInt
  if sum < Int64.minValue.toInt then Int64.minValue
  else if Int64.maxValue.toInt < sum then Int64.maxValue
  else Int64.ofInt sum

variable {σ : Type}

/-- The next element of the source. -/
def next (host : Host σ) : SourceCursor → Eval σ (Option Value × SourceCursor)
  | items [] => return (none, items [])
  | items (v :: rest) => return (some v, items rest)
  | range next stop step =>
    if (if 0 < step then next < stop else stop < next) then
      return (some (.int next), range (saturatingAdd next step) stop step)
    else return (none, range next stop step)
  | generate index count generator =>
    if (count.map fun n => decide (n ≤ index)).getD false then
      return (none, generate index count generator)
    else do
      let v ← host generator [.int index]
      return (some v, generate (index + 1) count generator)
  | done => return (none, done)

end SourceCursor

namespace StageCursor

def ofStage (terminal : Option String) : Stage → StageCursor
  | .map f => map f
  | .filter f => filter f
  | .flatMap f => flatMap f none terminal
  | .take n => take n
  | .skip n => skip n

/-- A `take` behind a stage frees the stage from the terminal. -/
def ofStages (terminal : Option String) : List Stage → List StageCursor
  | [] => []
  | stage :: later =>
    ofStage (if later.any Stage.isTake then none else terminal) stage :: ofStages terminal later

/-- The name of the terminal is not known to the stages that a `take` is behind of. -/
theorem ofStages_append (terminal : Option String) (stages : List Stage)
    (stage : Stage) : ofStages terminal (stages ++ [stage]) =
      ofStages (if stage.isTake then none else terminal) stages ++ [ofStage terminal stage] := by
  induction stages with
  | nil => rfl
  | cons first stages ih =>
    rw [List.cons_append, ofStages, ofStages, ih, List.any_append, List.any_cons, List.any_nil,
      Bool.or_false]
    cases stages.any Stage.isTake <;> cases stage.isTake <;> rfl

end StageCursor

namespace Pipeline

/-- A traversal, for the terminal operation of that name if one is given. -/
def cursor (p : Pipeline) (terminal : Option String) : Cursor :=
  ⟨.ofSource p.source, (StageCursor.ofStages terminal p.stages).reverse⟩

/-- A traversal for an operation that pulls until the end. -/
def boundedCursor (p : Pipeline) (terminal : String) : Except Fault Cursor :=
  if p.isBounded then .ok (p.cursor (some terminal)) else .error (.unboundedStream terminal)

end Pipeline

namespace InnerCursor

/-- The elements of what a `flat_map` callback gave. -/
def ofValue (terminal : Option String) : Value → Except Fault InnerCursor
  | .list vs => .ok (items vs)
  | .set vs => .ok (items vs)
  | .stream _ p =>
    match terminal with
    | some t => (p.boundedCursor t).map stream
    | none => .ok (stream (p.cursor none))
  | v => .error (.flatMapResult v.kind)

end InnerCursor

namespace Cursor

variable {σ β : Type}

/-- Puts a stage behind the others. -/
def push (c : Cursor) (stage : StageCursor) : Cursor := ⟨c.source, stage :: c.stages⟩

/-- The next element. A stage that drops an element tries again; `fuel` bounds the tries. -/
def pull (host : Host σ) : Nat → Cursor → Eval σ (Option Value × Cursor)
  | 0, _ => throw .exhausted
  | fuel + 1, ⟨source, stages⟩ =>
    match stages with
    | [] => do
      let (v?, source) ← source.next host
      return (v?, ⟨source, []⟩)
    | .map f :: before => do
      let (v?, c) ← pull host fuel ⟨source, before⟩
      match v? with
      | none => return (none, c.push (.map f))
      | some v => return (some (← host f [v]), c.push (.map f))
    | .filter f :: before => do
      let (v?, c) ← pull host fuel ⟨source, before⟩
      match v? with
      | none => return (none, c.push (.filter f))
      | some v =>
        match ← host f [v] with
        | .bool true => return (some v, c.push (.filter f))
        | .bool false => pull host fuel (c.push (.filter f))
        | other => Eval.fail (.predicateResult other.kind)
    | .take 0 :: before => return (none, ⟨source, .take 0 :: before⟩)
    | .take (n + 1) :: before => do
      let (v?, c) ← pull host fuel ⟨source, before⟩
      return (v?, c.push (.take n))
    | .skip 0 :: before => do
      let (v?, c) ← pull host fuel ⟨source, before⟩
      return (v?, c.push (.skip 0))
    | .skip (n + 1) :: before => do
      let (v?, c) ← pull host fuel ⟨source, before⟩
      match v? with
      | none => return (none, c.push (.skip 0))
      | some _ => pull host fuel (c.push (.skip n))
    | .flatMap f none t :: before => do
      let (v?, c) ← pull host fuel ⟨source, before⟩
      match v? with
      | none => return (none, c.push (.flatMap f none t))
      | some v =>
        let inner ← Eval.ofExcept (InnerCursor.ofValue t (← host f [v]))
        pull host fuel (c.push (.flatMap f (some inner) t))
    | .flatMap f (some (.items [])) t :: before =>
      pull host fuel ⟨source, .flatMap f none t :: before⟩
    | .flatMap f (some (.items (v :: rest))) t :: before =>
      return (some v, ⟨source, .flatMap f (some (.items rest)) t :: before⟩)
    | .flatMap f (some (.stream inner)) t :: before => do
      let (v?, inner) ← pull host fuel inner
      match v? with
      | some v => return (some v, ⟨source, .flatMap f (some (.stream inner)) t :: before⟩)
      | none => pull host fuel ⟨source, .flatMap f none t :: before⟩

/-- Combines all elements, first to last. -/
def fold (host : Host σ) (step : β → Value → Eval σ β) : Nat → Cursor → β → Eval σ β
  | 0, _, _ => throw .exhausted
  | fuel + 1, c, acc => do
    let (v?, c) ← c.pull host fuel
    match v? with
    | none => return acc
    | some v => fold host step fuel c (← step acc v)

end Cursor

namespace Pipeline

theorem cursor_withStage (p : Pipeline) (stage : Stage) (terminal : Option String) :
    (p.withStage stage).cursor terminal =
      (p.cursor (if stage.isTake then none else terminal)).push (.ofStage terminal stage) := by
  rw [cursor, withStage, StageCursor.ofStages_append, List.reverse_append]
  rfl

variable {σ : Type}

/-- All elements, for the terminal operation of that name. -/
def drain (host : Host σ) (fuel : Nat) (terminal : String) (p : Pipeline) :
    Eval σ (List Value) := do
  let c ← Eval.ofExcept (p.boundedCursor terminal)
  let reversed ← c.fold host (fun vs v => return v :: vs) fuel []
  return reversed.reverse

end Pipeline

end StreamLang
