import StreamLang.Interpreter.Refinement
import StreamLang.Value.Access

/-!
Building records and variants, and copying them with changes. Fields stand in the order of the
declaration, and each satisfies the refinements of its type.
-/

namespace StreamLang

/-- Replaces the first value stored under the name. -/
def setField (name : String) (v : Value) : List (String × Value) → List (String × Value)
  | [] => []
  | entry :: rest =>
    if entry.1 = name then (name, v) :: rest else entry :: setField name v rest

namespace Recur

variable {γ : Type}

/-- The fields of a declaration with the values given for them. -/
def declaredFields (r : Recur γ) (name : String) (given : List (FieldInit × Value)) :
    List (String × Ty) → Run γ (List (String × Value))
  | [] => return []
  | (field, ty) :: rest => do
    match given.find? (·.1.name == field) with
    | none => Eval.fail (.missingField name field)
    | some g =>
      r.checkRefinements g.1.span.line ty g.2
      return (field, g.2) :: (← declaredFields r name given rest)

def buildRecord (r : Recur γ) (name : String) (given : List (FieldInit × Value)) :
    Run γ Value := do
  match (← get).schemas.record? name with
  | none => Eval.fail (.unknownRecord name)
  | some schema =>
    let fields ← r.declaredFields name given schema.fields
    match given.find? fun g => (schema.field? g.1.name).isNone with
    | some extra => Eval.fail (.noField name extra.1.name)
    | none => return .record name fields

/-- Replaces fields of a record, in the order of the text. -/
def updateFields (r : Recur γ) (name : String) :
    List (FieldInit × Value) → List (String × Value) → Run γ (List (String × Value))
  | [], fields => return fields
  | u :: rest, fields => do
    if (fieldOf? u.1.name fields).isNone then Eval.fail (.noField name u.1.name)
    else
      match ((← get).schemas.record? name).bind (·.field? u.1.name) with
      | some ty => r.checkRefinements u.1.span.line ty u.2
      | none => pure ()
      updateFields r name rest (setField u.1.name u.2 fields)

/-- A copy with changes; a map takes new keys, a record does not. -/
def update (r : Recur γ) (target : Value) (updates : List (FieldInit × Value)) : Run γ Value := do
  match target with
  | .record name fields => return .record name (← r.updateFields name updates fields)
  | .map entries =>
    return .map (updates.foldl (fun m u => Keyed.insert u.1.name u.2 m) entries)
  | v => Eval.fail (.notUpdatable v.kind)

end Recur

namespace Run

variable {γ : Type}

/-- Several arguments of a variant make up a tuple. -/
def variantPayload : List Value → Option Value
  | [] => none
  | [v] => some v
  | vs => some (.tuple vs)

def buildVariant (enum variant : String) (args : List Value) : Run γ Value := do
  let known := ((← get).schemas.enum? enum).bind (·.variant? variant)
  if known.isSome then return .enum enum variant (variantPayload args)
  else Eval.fail (.noVariant enum variant)

end Run

end StreamLang
