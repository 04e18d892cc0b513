import StreamLang.Future
import StreamLang.Value.Equality

/-!
Matching a value against a pattern. The result is what the pattern binds, in the order of the text;
a value that does not fit binds nothing. Patterns for futures look at the table of futures.
-/

namespace StreamLang

/-- A number fits the literal it equals, be it an integer or not. -/
def Literal.fits (l : Literal) (v : Value) : Bool :=
  match l, v with
  | .int n, _ => v.equals (.int n)
  | .float x, _ => v.equals (.float x)
  | .text a, .text b => a == b
  | .bool a, .bool b => a == b
  | .void, .void => true
  | _, _ => false

/-- The value the marker stands around. -/
def Marker.inside? (futures : FutureTable) (m : Marker) (v : Value) : Option Value :=
  match m, v with
  | .some, .option inner => inner
  | .ok, .ok inner => inner
  | .err, .err error => error
  | .resolved, .future id =>
    match futures.state? id with
    | .some (.resolved inner) => inner
    | _ => none
  | .failed, .future id =>
    match futures.state? id with
    | .some (.failed f) => f.error
    | _ => none
  | _, _ => none

namespace Value

/-- The value stored under a name, in a record or a map. -/
def member? (name : String) : Value → Option Value
  | record _ fields => fieldOf? name fields
  | map entries => fieldOf? name entries
  | _ => Option.none

end Value

namespace Pattern

mutual

/-- What the pattern binds when the value fits it. -/
def bindings? (futures : FutureTable) : Pattern → Value → Option (List (String × Value))
  | wildcard _, _ => some []
  | bind _ name, v => some [(name, v)]
  | literal _ l, v => if l.fits v then some [] else Option.none
  | marked _ m inner, v =>
    match m.inside? futures v with
    | some inside => bindings? futures inner inside
    | Option.none => Option.none
  | none _, .option Option.none => some []
  | pending _, .future id => if futures.isPending id then some [] else Option.none
  | record _ name fields _, .record actual values =>
    if actual == name then fieldBindings? futures fields (.record actual values) else Option.none
  | variant _ enum label payload, .enum e w actual =>
    if e == enum && w == label then payloadBindings? futures payload actual else Option.none
  | tuple _ items, .tuple values =>
    if items.length == values.length then itemBindings? futures items values else Option.none
  | list _ items Option.none, .list values =>
    if items.length == values.length then itemBindings? futures items values else Option.none
  | list _ items (some rest), .list values => do
    let first ← itemBindings? futures items values
    let more ← bindings? futures rest (.list (values.drop items.length))
    return first ++ more
  | map _ entries, .map values => entryBindings? futures entries (.map values)
  | map _ entries, .record name values => entryBindings? futures entries (.record name values)
  | _, _ => Option.none
termination_by structural p _ => p

/-- Without a pattern any payload will do. -/
def payloadBindings? (futures : FutureTable) :
    Option Pattern → Option Value → Option (List (String × Value))
  | Option.none, _ => some []
  | some _, Option.none => Option.none
  | some p, some v => bindings? futures p v
termination_by structural p _ => p

/-- Each pattern with the value in its place; further values do not matter. -/
def itemBindings? (futures : FutureTable) :
    List Pattern → List Value → Option (List (String × Value))
  | [], _ => some []
  | _ :: _, [] => Option.none
  | p :: ps, v :: vs => do
    let first ← bindings? futures p v
    let more ← itemBindings? futures ps vs
    return first ++ more
termination_by structural ps _ => ps

def fieldBindings? (futures : FutureTable) :
    List FieldPattern → Value → Option (List (String × Value))
  | [], _ => some []
  | ⟨name, _, pattern⟩ :: rest, whole => do
    let v ← whole.member? name
    let first ← fieldBinding? futures name pattern v
    let more ← fieldBindings? futures rest whole
    return first ++ more
termination_by structural fields _ => fields

/-- A field without a pattern binds its own name. -/
def fieldBinding? (futures : FutureTable) (name : String) :
    Option Pattern → Value → Option (List (String × Value))
  | Option.none, v => some [(name, v)]
  | some p, v => bindings? futures p v
termination_by structural p _ => p

def entryBindings? (futures : FutureTable) :
    List (String × Pattern) → Value → Option (List (String × Value))
  | [], _ => some []
  | (key, p) :: rest, whole => do
    let first ← bindings? futures p (← whole.member? key)
    let more ← entryBindings? futures rest whole
    return first ++ more
termination_by structural entries _ => entries

end

end Pattern

end StreamLang
