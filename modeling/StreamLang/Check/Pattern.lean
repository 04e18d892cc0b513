import StreamLang.Check.Basic

/-!
Patterns against the type of the value they take apart. The names a pattern binds are declared in
the innermost scope; `seen` holds those of the same pattern that came before.
-/

namespace StreamLang.Check

/-- Declares a name that a pattern binds. -/
def declareName (name : String) (ty : Ty) (span : Span) (seen : List String) :
    CheckM (List String) := do
  if seen.contains name then
    report (.boundTwice name) span
    return seen
  else
    if !(← declare name (.ofTy ty)) then report (.definedTwice name) span
    return name :: seen

def markerForm : Marker → PatternForm
  | .some => .some
  | .ok => .ok
  | .err => .err
  | .resolved | .failed => .future

/-- The type of what stands inside a marker. -/
def markedType (m : Marker) (ty : Ty) (span : Span) : CheckM Ty :=
  match m, ty with
  | _, .unknown => return .unknown
  | .some, .option t => return t
  | .ok, .result t _ => return t
  | .err, .result _ e => return e
  | .resolved, .future t => return t
  | .failed, .future _ => return .unknown
  | m, other => do
    report (.formPattern (markerForm m) other) span
    return .unknown

mutual

/-- Checks a pattern against a type and declares the names it binds. -/
def bindPattern : Pattern → Ty → List String → CheckM (List String)
  | .wildcard _, _, seen => return seen
  | .bind span name, ty, seen => declareName name ty.base span seen
  | .literal span value, ty, seen => do
    let lit := literalType value
    if !lit.accepts ty.base && !ty.base.accepts lit then
      report (.literalPattern lit ty.base) span
    return seen
  | .marked span m inner, ty, seen => do
    let innerTy ← markedType m ty.base span
    bindPattern inner innerTy seen
  | .none span, ty, seen => do
    match ty.base with
    | .option _ | .unknown => return seen
    | other =>
      report (.formPattern .none other) span
      return seen
  | .pending span, ty, seen => do
    match ty.base with
    | .future _ | .unknown => return seen
    | other =>
      report (.formPattern .future other) span
      return seen
  | .record span name fields _, ty, seen => do
    match ← recordSchema? name with
    | none =>
      report (.unknownRecord name) span
      return seen
    | some schema =>
      if !(Ty.record name).accepts ty.base then report (.recordPattern name ty.base) span
      bindFields name schema span fields seen
  | .variant span enum variant payload, ty, seen => do
    match ← enumSchema? enum with
    | none =>
      report (.unknownEnum enum) span
      return seen
    | some schema =>
      if !(Ty.enum enum).accepts ty.base then report (.variantPattern enum variant ty.base) span
      match schema.variant? variant with
      | none =>
        report (.noVariant enum variant) span
        return seen
      | some declared =>
        match payload with
        | none => return seen
        | some sub =>
          match declared with
          | some payloadTy => bindPattern sub payloadTy seen
          | none =>
            report (.payloadPattern enum variant) span
            return seen
  | .tuple span items, ty, seen => do
    match ty.base with
    | .tuple types =>
      if types.length ≠ items.length then
        report (.tuplePatternSize items.length types.length) span
        return seen
      else bindEach items types seen
    | .unknown => bindAll items .unknown seen
    | other =>
      report (.formPattern .tuple other) span
      return seen
  | .list span items rest, ty, seen => do
    match ty.base with
    | .list elem =>
      let seen ← bindAll items elem seen
      bindOptional rest (.list elem) seen
    | .unknown =>
      let seen ← bindAll items .unknown seen
      bindOptional rest (.list .unknown) seen
    | other =>
      report (.formPattern .list other) span
      return seen
  | .map span entries, ty, seen => do
    match ty.base with
    | .map _ value => bindEntries entries value seen
    | .unknown => bindEntries entries .unknown seen
    | other =>
      report (.formPattern .map other) span
      return seen

def bindOptional : Option Pattern → Ty → List String → CheckM (List String)
  | none, _, seen => return seen
  | some p, ty, seen => bindPattern p ty seen

/-- Patterns against one type. -/
def bindAll : List Pattern → Ty → List String → CheckM (List String)
  | [], _, seen => return seen
  | p :: rest, ty, seen => do
    let seen ← bindPattern p ty seen
    bindAll rest ty seen

/-- Patterns against as many types. -/
def bindEach : List Pattern → List Ty → List String → CheckM (List String)
  | p :: rest, ty :: tys, seen => do
    let seen ← bindPattern p ty seen
    bindEach rest tys seen
  | _, _, seen => return seen

def bindFields (record : String) (schema : RecordSchema) (span : Span) :
    List FieldPattern → List String → CheckM (List String)
  | [], seen => return seen
  | ⟨name, fieldSpan, pattern⟩ :: rest, seen => do
    match schema.field? name with
    | none =>
      report (.noField record name) fieldSpan
      bindFields record schema span rest seen
    | some ty =>
      match pattern with
      | some sub =>
        let seen ← bindPattern sub ty seen
        bindFields record schema span rest seen
      | none =>
        let seen ← declareName name ty span seen
        bindFields record schema span rest seen

def bindEntries : List (String × Pattern) → Ty → List String → CheckM (List String)
  | [], _, seen => return seen
  | (_, p) :: rest, ty, seen => do
    let seen ← bindPattern p ty seen
    bindEntries rest ty seen

end

end StreamLang.Check
