import StreamLang.Check.Call
import StreamLang.Check.Pattern

/-!
The type of an expression, and everything that is visibly wrong with it.
-/

namespace StreamLang.Check

def nameType (name : String) : CheckM Ty := do
  match ← lookup? name with
  | some b => return b.ty
  | none => return (Builtin.constantType? name).getD .unknown

/-- An operator between operands of known types. -/
def binaryType (op : BinaryOp) (lhs rhs : Ty) (lhsSpan rhsSpan span : Span) : CheckM Ty := do
  if op.isLogical then
    expectOperand lhs .bool (.binary op) lhsSpan
    expectOperand rhs .bool (.binary op) rhsSpan
    return .bool
  if op.isEquality then return .bool
  if op.isComparison then
    if !((lhs.maybeNumeric && rhs.maybeNumeric) || (lhs.maybeText && rhs.maybeText)) then
      report (.comparison lhs rhs) span
    return .bool
  if op == .add && (lhs.isText || rhs.isText) then
    if lhs.maybeText && rhs.maybeText then return .text
    report (.addition lhs rhs) span
    return .unknown
  if !lhs.maybeNumeric then
    report (.arithmetic op lhs) lhsSpan
    return .unknown
  if !rhs.maybeNumeric then
    report (.arithmetic op rhs) rhsSpan
    return .unknown
  match lhs.base, rhs.base with
  | .int, .int => return .int
  | .float, _ => return .float
  | _, .float => return .float
  | _, _ => return .unknown

def unaryType (op : UnaryOp) (operand : Ty) (span : Span) : CheckM Ty := do
  match op with
  | .not =>
    expectOperand operand .bool (.unary op) span
    return .bool
  | .neg =>
    if operand.maybeNumeric then return operand.base
    report (.negation operand) span
    return .unknown

def indexType (target key : Ty) (index : Expr) (span : Span) : CheckM Ty := do
  match target.base with
  | .list elem =>
    expectOperand key .int .listIndex index.span
    return elem
  | .text =>
    expectOperand key .int .textIndex index.span
    return .text
  | .map _ value =>
    expectOperand key .text .mapKey index.span
    return value
  | .tuple items =>
    match ← constantOf index with
    | some (.int i) =>
      match if 0 ≤ i.toInt then items[i.toInt.toNat]? else none with
      | some ty => return ty
      | none =>
        report (.tupleIndex i (.tuple items)) index.span
        return .unknown
    | _ => return .unknown
  | .unknown => return .unknown
  | other =>
    report (.notIndexable other) span
    return .unknown

def selectType (target : Ty) (field : String) (span : Span) : CheckM Ty := do
  match target.base with
  | .record name =>
    match (← recordSchema? name).bind (·.field? field) with
    | some ty => return ty
    | none =>
      report (.noField name field) span
      return .unknown
  | .tuple items =>
    match (Whole.readNat? field.toList).bind (items[·]?) with
    | some ty => return ty
    | none =>
      report (.noElement (.tuple items) field) span
      return .unknown
  | .map _ value => return value
  | .unknown => return .unknown
  | other =>
    report (.noFields other field) span
    return .unknown

def awaitedType (future : Ty) (span : Span) : CheckM Ty := do
  match future.base with
  | .future t => return t
  | .unknown => return .unknown
  | other =>
    report (.awaitOf other) span
    return .unknown

def attemptedType (inner : Ty) (span : Span) : CheckM Ty := do
  match inner.base with
  | .result ok _ => return ok
  | .option t => return t
  | .unknown => return .unknown
  | other =>
    report (.attemptOf other) span
    return .unknown

/-- The payload of a variant against its declaration. -/
def expectPayload (enum variant : String) (declared : Option Ty) (args : List Ty)
    (exprs : List Expr) (span : Span) : CheckM Unit :=
  let site : Site := .payload enum variant
  let rec eachItem : List Ty → List Ty → List Expr → CheckM Unit
    | t :: ts, a :: as, e :: es => do
      expectType t a e site
      eachItem ts as es
    | _, _, _ => return ()
  match declared, args, exprs with
  | none, [], _ => return ()
  | none, _, _ => report (.noPayload enum variant) span
  | some expected, [arg], e :: _ => expectType expected arg e site
  | some (.tuple items), _, _ =>
    if items.length = args.length then eachItem items args exprs
    else report (.payloadCount enum variant items.length args.length) span
  | some _, _, _ => report (.payloadCount enum variant 1 args.length) span

def variantType (enum variant : String) (args : List Ty) (exprs : List Expr) (span : Span) :
    CheckM Ty := do
  match ← enumSchema? enum with
  | none =>
    report (.unknownEnum enum) span
    return .unknown
  | some schema =>
    match schema.variant? variant with
    | none =>
      report (.noVariant enum variant) span
      return .unknown
    | some declared =>
      expectPayload enum variant declared args exprs span
      return .enum enum

/-- Reports the fields that are given again. -/
def expectDistinct : List FieldInit → List String → CheckM Unit
  | [], _ => return ()
  | ⟨name, span, _⟩ :: rest, seen => do
    if seen.contains name then report (.fieldGivenTwice name) span
    expectDistinct rest (name :: seen)

/-- Reports the fields that are not given. -/
def expectComplete (record : String) (span : Span) (given : List String) :
    List (String × Ty) → CheckM Unit
  | [] => return ()
  | f :: rest => do
    if !given.contains f.1 then report (.missingField f.1 record) span
    expectComplete record span given rest

/-- A call of a method: of a field of the receiver's record, of a visible function, or of a
builtin. -/
def methodType (receiver : Ty) (receiverExpr : Expr) (method : String) (args : List Ty)
    (exprs : List Expr) (span : Span) : CheckM Ty := do
  let field ← match receiver.base with
    | .record name => pure ((← recordSchema? name).bind (·.field? method))
    | _ => pure none
  match field with
  | some ty => apply ty args exprs span
  | none =>
    match ← lookup? method with
    | some b => apply b.ty (receiver :: args) (receiverExpr :: exprs) span
    | none =>
      match Builtin.ofName? method with
      | some b => applyBuiltin b (receiver :: args) (receiverExpr :: exprs) span
      | none => return .unknown

/-- Declares the parameters of a function. -/
def declareParams : List Param → CheckM (List Ty)
  | [] => return []
  | p :: rest => do
    let ty ← match p.ty with
      | some written => resolveType written
      | none => pure .unknown
    if !(← declare p.name (.ofTy ty)) then report (.parameterTwice p.name) p.span
    let more ← declareParams rest
    return ty :: more

/-- Declares what a `let` binds, once the type of its value is known. -/
def declareLet (pattern : Pattern) (written : Option TypeExpr) (value : Expr) (valueTy : Ty) :
    CheckM Unit := do
  let ty ← match written with
    | some w => do
      let declared ← resolveType w
      expectType declared valueTy value .letBinding
      pure declared
    | none => pure valueTy
  match pattern with
  | .bind span name =>
    let constant ← constantOf value
    let unbounded := isUnbounded (← get).scopes value
    if !(← declare name ⟨ty, constant, unbounded⟩) then report (.definedTwice name) span
  | _ =>
    let _ ← bindPattern pattern ty []

/-- The body of a function against the declared result. -/
def expectReturn (written : Option TypeExpr) (body : Ty) (e : Expr) : CheckM Ty := do
  match written with
  | some w =>
    let declared ← resolveType w
    expectType declared body e .returnValue
    return declared
  | none => return body

/-- Async functions give a future. -/
def functionType (params : List Ty) (ret : Ty) (isAsync : Bool) : Ty :=
  .function params (if isAsync then .future ret else ret)

mutual

def infer (body : Body) : Expr → CheckM Ty
  | .literal _ value => return literalType value
  | .name _ name => nameType name
  | .list _ items => do return .list (.joinAll (← inferAll body items))
  | .tuple _ items => do return .tuple (← inferAll body items)
  | .map _ entries => do return .map .text (.joinAll (← inferEntries body entries))
  | .record span name fields => do
    match ← recordSchema? name with
    | none =>
      inferFields body name none fields
      report (.unknownRecord name) span
      return .unknown
    | some schema =>
      expectDistinct fields []
      inferFields body name (some schema) fields
      expectComplete name span (fields.map FieldInit.name) schema.fields
      return .record name
  | .variant span enum variant args => do
    let tys ← inferAll body args
    variantType enum variant tys args span
  | .update span target fields => do
    let ty ← infer body target
    match ty.base with
    | .record name =>
      inferFields body name (← recordSchema? name) fields
      return ty
    | .map key value =>
      let tys ← inferFieldValues body fields
      return .map key (tys.foldl Ty.join value)
    | .unknown =>
      let _ ← inferFieldValues body fields
      return .unknown
    | other =>
      report (.updateOf other) span
      return .unknown
  | .select span target field => do
    let ty ← infer body target
    selectType ty field span
  | .index span target i => do
    let ty ← infer body target
    let key ← infer body i
    indexType ty key i span
  | .call span callee args => do
    let builtin ← match callee with
      | .name _ n => do if (← lookup? n).isNone then pure (Builtin.ofName? n) else pure none
      | _ => pure none
    match builtin with
    | some b =>
      let tys ← inferAll body args
      applyBuiltin b tys args span
    | none =>
      let ty ← infer body callee
      let tys ← inferAll body args
      apply ty tys args span
  | .method span receiver name args => do
    let ty ← infer body receiver
    let tys ← inferAll body args
    methodType ty receiver name tys args span
  | .binary span op lhs rhs => do
    let l ← infer body lhs
    let r ← infer body rhs
    binaryType op l r lhs.span rhs.span span
  | .unary _ op operand => do
    let ty ← infer body operand
    unaryType op ty operand.span
  | .branch _ test whenTrue whenFalse => do
    let t ← infer body test
    expectOperand t .bool .condition test.span
    let a ← infer body whenTrue
    match whenFalse with
    | some e =>
      let b ← infer body e
      return a.join b
    | none => return .void
  | .cases span scrutinee arms => do
    let ty ← infer body scrutinee
    let exhaustive := (arms.getLast?.map fun a => a.pattern.isWildcard && a.guard.isNone).getD false
    if !exhaustive then report .noWildcardArm span
    return .joinAll (← inferArms body ty arms)
  | .block _ stmts tail => do
    enterScope
    inferStmts body stmts
    let ty ← match tail with
      | some e => infer body e
      | none => pure .void
    exitScope
    return ty
  | .closure _ decl => inferFunction decl
  | .async _ inner => do return .future (← infer ⟨true, false⟩ inner)
  | .await span future => do
    if body.inGuard then report .awaitInGuard span
    else if !body.allowsAwait then report .awaitOutsideAsync span
    let ty ← infer body future
    awaitedType ty span
  | .attempt span inner => do
    let ty ← infer body inner
    attemptedType ty span

def inferAll (body : Body) : List Expr → CheckM (List Ty)
  | [] => return []
  | e :: rest => do
    let ty ← infer body e
    let tys ← inferAll body rest
    return ty :: tys

def inferEntries (body : Body) : List (String × Expr) → CheckM (List Ty)
  | [] => return []
  | (_, e) :: rest => do
    let ty ← infer body e
    let tys ← inferEntries body rest
    return ty :: tys

def inferFieldValues (body : Body) : List FieldInit → CheckM (List Ty)
  | [] => return []
  | ⟨_, _, e⟩ :: rest => do
    let ty ← infer body e
    let tys ← inferFieldValues body rest
    return ty :: tys

/-- Fields of a record against its schema, if there is one. -/
def inferFields (body : Body) (record : String) (schema : Option RecordSchema) :
    List FieldInit → CheckM Unit
  | [] => return ()
  | ⟨name, span, e⟩ :: rest => do
    let ty ← infer body e
    match schema with
    | none => pure ()
    | some s =>
      match s.field? name with
      | some expected => expectType expected ty e (.field name)
      | none => report (.noField record name) span
    inferFields body record schema rest

def inferArms (body : Body) (scrutinee : Ty) : List MatchArm → CheckM (List Ty)
  | [] => return []
  | ⟨_, pattern, guard, e⟩ :: rest => do
    enterScope
    let _ ← bindPattern pattern scrutinee []
    match guard with
    | some g =>
      let ty ← infer { body with inGuard := true } g
      expectOperand ty .bool .guard g.span
    | none => pure ()
    let ty ← infer body e
    exitScope
    let tys ← inferArms body scrutinee rest
    return ty :: tys

def inferStmts (body : Body) : List Stmt → CheckM Unit
  | [] => return ()
  | .bind _ pattern written value :: rest => do
    let ty ← infer body value
    declareLet pattern written value ty
    inferStmts body rest
  | .expr e :: rest => do
    let _ ← infer body e
    inferStmts body rest

/-- A function, checked in a scope of its own. -/
def inferFunction : FunctionDecl → CheckM Ty
  | ⟨_, params, ret, e, isAsync, _⟩ => do
    enterScope
    let tys ← declareParams params
    let ty ← infer ⟨isAsync, false⟩ e
    let result ← expectReturn ret ty e
    exitScope
    return functionType tys result isAsync

end

end StreamLang.Check
