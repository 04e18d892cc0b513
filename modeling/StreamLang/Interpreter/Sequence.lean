import StreamLang.Builtin.Argument
import StreamLang.Interpreter.Refinement

/-!
The builtins on sequences. On a list or a set they work at once, item by item. On a stream they add
a stage, or, when they are terminal, pull the elements through.
-/

namespace StreamLang

namespace Value

/-- The items in groups of `size`, the last one maybe smaller; `group` is the group being filled,
backwards, and has room for `room` more. -/
def chunksFrom (size : Nat) (group : List Value) (room : Nat) : List Value → List Value
  | [] => if group.isEmpty then [] else [list group.reverse]
  | v :: rest =>
    if room ≤ 1 then list (v :: group).reverse :: chunksFrom size [] size rest
    else chunksFrom size (v :: group) (room - 1) rest

def chunks (size : Nat) (items : List Value) : List Value := chunksFrom size [] size items

/-- The integers, when all the values are integers. -/
def allInts? : List Value → Option (List Int64)
  | [] => some []
  | int n :: rest => (allInts? rest).map (n :: ·)
  | _ :: _ => none

def sumInts (ns : List Int64) : Except Fault Value :=
  match ns.foldlM Whole.add? 0 with
  | some n => .ok (int n)
  | none => .error .overflow

def sum (items : List Value) : Except Fault Value :=
  match allInts? items with
  | some ns => sumInts ns
  | none => do
    let plus (t : Binary64) (v : Value) := do return t.add (← Argument.number (.sequence .sum) v)
    return float (← items.foldlM plus Binary64.zero)

end Value

namespace Recur

variable {γ : Type}

/-- The verdict of a predicate on a value. -/
def passes (r : Recur γ) (f v : Value) : Run γ Bool := do
  match ← r.call f [v] with
  | .bool b => return b
  | other => Eval.fail (.predicateResult other.kind)

/-- What a callback of `flat_map` gives for an item of a list. -/
def spread (r : Recur γ) (f v : Value) : Run γ (List Value) := do
  match ← r.call f [v] with
  | .list items => return items
  | .set items => return items
  | .stream _ p => p.drain r.call r.fuel "flat_map"
  | other => Eval.fail (.flatMapResult other.kind)

/-- A number of elements that is given as an argument. -/
def countOf (op : SequenceOp) (v : Value) : Run γ Nat :=
  Eval.ofExcept (Argument.count (.sequence op) v)

/-- A builtin on the items of a list or a set. -/
def onItems (r : Recur γ) (op : SequenceOp) (items args : List Value) : Run γ Value :=
  match op, args with
  | .map, [f] => return .list (← items.mapM fun v => r.call f [v])
  | .filter, [f] => do
    let kept ← items.foldlM (fun kept v => return if ← r.passes f v then v :: kept else kept) []
    return .list kept.reverse
  | .flatMap, [f] => do
    let parts ← items.mapM (r.spread f)
    return .list parts.flatten
  | .take, [n] => return .list (items.take (← countOf op n))
  | .skip, [n] => return .list (items.drop (← countOf op n))
  | .reduce, [start, f] => items.foldlM (fun acc v => r.call f [acc, v]) start
  | .collect, [] => return .list items
  | .chunk, [n] => do
    let size ← countOf op n
    if size = 0 then Eval.fail .chunkSize else return .list (Value.chunks size items)
  | .count, [] => return .int (Int64.ofNat items.length)
  | .first, [] => return .option items.head?
  | .forEach, [f] => do
    items.forM fun v => do let _ ← r.call f [v]
    return .void
  | .sum, [] => Eval.ofExcept (Value.sum items)
  | _, _ => Eval.fail (.notSequenceOp op)

/-- Combines the elements of a stream as they come, for a terminal operation. -/
def foldStream {β : Type} (r : Recur γ) (terminal : String) (p : Pipeline)
    (step : β → Value → Run γ β) (start : β) : Run γ β := do
  let c ← Eval.ofExcept (p.boundedCursor terminal)
  c.fold r.call step r.fuel start

/-- A builtin on a stream. -/
def onStream (r : Recur γ) (op : SequenceOp) (p : Pipeline) (args : List Value) : Run γ Value :=
  match op, args with
  | .map, [f] => Run.newStream (p.withStage (.map f))
  | .filter, [f] => Run.newStream (p.withStage (.filter f))
  | .flatMap, [f] => Run.newStream (p.withStage (.flatMap f))
  | .take, [n] => do
    let count ← countOf op n
    Run.newStream (p.withStage (.take count))
  | .skip, [n] => do
    let count ← countOf op n
    Run.newStream (p.withStage (.skip count))
  | .first, [] => return .option (← (p.cursor none).pull r.call r.fuel).1
  | .reduce, [start, f] => r.foldStream op.name p (fun acc v => r.call f [acc, v]) start
  | .forEach, [f] => do
    r.foldStream op.name p (fun _ v => do let _ ← r.call f [v]) ()
    return .void
  | .count, [] => do
    let n ← r.foldStream op.name p (fun n _ => return n + 1) (0 : Nat)
    return .int (Int64.ofNat n)
  | op, args => do r.onItems op (← p.drain r.call r.fuel op.name) args

/-- A builtin on a sequence, which is the first argument. -/
def onSequence (r : Recur γ) (op : SequenceOp) (args : List Value) : Run γ Value :=
  match args with
  | .list items :: rest => r.onItems op items rest
  | .set items :: rest => r.onItems op items rest
  | .stream _ p :: rest => r.onStream op p rest
  | v :: _ => Eval.ofExcept (Argument.bad (.sequence op) .sequence v)
  | [] => Eval.fail (.notSequenceOp op)

end Recur

end StreamLang
