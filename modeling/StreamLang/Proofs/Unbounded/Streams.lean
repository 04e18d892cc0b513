import StreamLang.Proofs.Charter.Run
import StreamLang.Proofs.Unbounded.Scopes

/-! Streams without an end in a run: what the builtins make of them, and a charter by which every
expression that visibly is such a stream gives one. -/

namespace StreamLang

/-- A call by a name, and its arguments. A receiver is the first of them. -/
def Expr.called? : Expr → Option (String × List Expr)
  | .call _ (.name _ n) args => some (n, args)
  | .method _ receiver n args => some (n, receiver :: args)
  | _ => none

/-- Its first argument, among the values of its parts. -/
def Expr.firstArgument? : Expr → List Value → Option Value
  | .call .., _ :: v :: _ => some v
  | .method .., v :: _ => some v
  | _, _ => none

theorem Expr.called?_of_not_fromParts {e : Expr} (h : e.isFromParts = false) : e.called? = none := by
  cases e with
  | call | method => cases h
  | _ => rfl

theorem Expr.mem_operands_of_called? {e source : Expr} {n : String} {rest : List Expr}
    (h : e.called? = some (n, source :: rest)) : source ∈ e.operands := by
  cases e with
  | call span callee args =>
    cases callee with
    | name =>
      cases h
      exact .tail _ (.head _)
    | _ => cases h
  | method span receiver n args =>
    cases h
    exact .head _
  | _ => cases h

-- streams without an end

section

variable {γ : Type} {v : Value}

theorem Arity.accepts_exactly {n count : Nat} : (exactly n).accepts count = true ↔ count = n := by
  rw [accepts, Bool.and_eq_true, decide_eq_true_eq]
  change n ≤ count ∧ decide (count ≤ n) = true ↔ count = n
  rw [decide_eq_true_eq]
  exact ⟨fun h => Nat.le_antisymm h.2 h.1, fun h => ⟨Nat.le_of_eq h.symm, Nat.le_of_eq h⟩⟩

theorem Pipeline.isBounded_withStage {p : Pipeline} (h : p.isBounded = false) {stage : Stage}
    (hstage : stage.isTake = false) : (p.withStage stage).isBounded = false := by
  simp only [isBounded, withStage, Bool.or_eq_false_iff, List.any_append, List.any_cons,
    List.any_nil] at h ⊢
  exact ⟨h.1, h.2, hstage, trivial⟩

variable [Gateway γ] (r : Recur γ)

/-- A terminal builtin refuses a stream without an end. -/
theorem Recur.callBuiltin_endless {b : Builtin} (hterminal : Check.isTerminal b = true)
    (hv : v.Endless) {more : List Value} (harity : b.arity.accepts (more.length + 1) = true)
    (hlog : b = .log → more = []) (s : Interpreter γ) :
    r.callBuiltin b (v :: more) s = .error (.fail (.unboundedStream b.name) 0) s := by
  cases v with
  | stream id p =>
    have hcursor : ∀ terminal, p.boundedCursor terminal = .error (.unboundedStream terminal) :=
      fun terminal => if_neg (by simp [show p.isBounded = false from hv])
    have hfold : ∀ {β : Type} (step : β → Value → Run γ β) (start : β) (terminal : String),
        r.foldStream terminal p step start s = .error (.fail (.unboundedStream terminal) 0) s := by
      intro β step start terminal
      rw [Recur.foldStream, hcursor]
      rfl
    have hdrain : ∀ terminal, p.drain r.call r.fuel terminal s =
        .error (.fail (.unboundedStream terminal) 0) s := by
      intro terminal
      rw [Pipeline.drain, hcursor]
      rfl
    cases b with
    | log =>
      rw [hlog rfl, Recur.callBuiltin, Recur.writeLog]
      exact Eval.bind_of_error (hfold _ _ _)
    | sequence op =>
      have hlength : more.length + 1 = op.arity := Arity.accepts_exactly.1 harity
      cases op with
      | collect =>
        obtain rfl := List.eq_nil_of_length_eq_zero (Nat.succ.inj hlength)
        exact Eval.bind_of_error (hdrain _)
      | count =>
        obtain rfl := List.eq_nil_of_length_eq_zero (Nat.succ.inj hlength)
        exact Eval.bind_of_error (hfold _ _ _)
      | chunk =>
        obtain ⟨size, rfl⟩ := List.length_eq_one_iff.1 (Nat.succ.inj hlength)
        exact Eval.bind_of_error (hdrain _)
      | forEach =>
        obtain ⟨f, rfl⟩ := List.length_eq_one_iff.1 (Nat.succ.inj hlength)
        exact Eval.bind_of_error (hfold _ _ _)
      | reduce =>
        obtain ⟨start, f, rfl⟩ := List.length_eq_two.1 (Nat.succ.inj hlength)
        exact hfold _ _ _
      | _ => cases hterminal
    | _ => cases hterminal
  | _ => cases hv

theorem Recur.callBuiltin_source {n : String} (hn : Check.isInfiniteSource n = true) {b : Builtin}
    (hb : Builtin.ofName? n = some b) {g w : Value} {s t : Interpreter γ}
    (h : r.callBuiltin b [g] s = .ok w t) : w.Endless := by
  rw [Check.isInfiniteSource, hb, beq_iff_eq] at hn
  cases hn
  cases h
  rfl

theorem Recur.callBuiltin_stage {n : String} (hn : Check.isOpenStage n = true) {b : Builtin}
    (hb : Builtin.ofName? n = some b) (hv : v.Endless) {g w : Value} {s t : Interpreter γ}
    (h : r.callBuiltin b [v, g] s = .ok w t) : w.Endless := by
  rw [Check.isOpenStage, hb] at hn
  cases v with
  | stream id p =>
    have hp : p.isBounded = false := hv
    cases b with
    | sequence op =>
      cases op with
      | map | filter | flatMap =>
        cases h
        exact Pipeline.isBounded_withStage hp rfl
      | skip =>
        obtain ⟨count, t', -, h⟩ := Eval.bind_eq_ok h
        cases h
        exact Pipeline.isBounded_withStage hp rfl
      | _ => cases hn
    | _ => cases hn
  | _ => cases hv

theorem Recur.call_builtin {fuel : Nat} {b : Builtin} {args : List Value}
    (harity : b.arity.accepts args.length = true) (id : Identity) :
    (Recur.ofFuel (γ := γ) (fuel + 1)).call (.function id (.builtin b)) args =
      (Recur.ofFuel fuel).callBuiltin b args := by
  have hmin : ¬ args.length < b.arity.min := by
    rw [Arity.accepts, Bool.and_eq_true, decide_eq_true_eq] at harity
    exact Nat.not_lt.2 harity.1
  change (Recur.ofFuel fuel).callCallable (.builtin b) args = _
  rw [Recur.callCallable, if_neg (by simp [hmin]), if_pos harity]

end

-- what the check says

namespace Check

/-- The call is of a builtin, which no name in the scopes hides; and its check, in which no error is found,
warns that a stream without an end reaches the builtin. -/
def Warned (b : Builtin) (sc : Scopes) (e : Expr) : Prop :=
  ∃ n source rest, e.called? = some (n, source :: rest) ∧ sc.lookup? n = none ∧
    Builtin.ofName? n = some b ∧ ∃ (tys : List Ty) (s : State), tys.length = rest.length + 1 ∧
      s.scopes = sc ∧ s.Clean ∧
        (applyBuiltin b tys (source :: rest) e.span s).2 = (warn (.unboundedStream b) e.span s).2

/-- A call of a builtin in which the check finds no error, with as many arguments as it takes, is warned
of just then. -/
theorem applyBuiltin_of_clean {b : Builtin} {tys : List Ty} {source : Expr} {rest : List Expr}
    {span : Span} {s : State} (hlength : tys.length = rest.length + 1)
    (harity : b.arity.accepts (rest.length + 1) = true)
    (hclean : (applyBuiltin b tys (source :: rest) span s).2.Clean) :
    (applyBuiltin b tys (source :: rest) span s).2 =
      if isTerminal b && isUnbounded s.scopes source then (warn (.unboundedStream b) span s).2
      else s := by
  let last : CheckM Ty := do
    if isTerminal b then
      if isUnbounded (← get).scopes source then warn (.unboundedStream b) span
    return b.resultType tys
  have hlast : (last s).2 = if isTerminal b && isUnbounded s.scopes source then
      (warn (.unboundedStream b) span s).2 else s := by
    change ((if isTerminal b = true then _ else _ : CheckM Ty) s).2 = _
    cases isTerminal b with
    | false => rfl
    | true =>
      change ((if isUnbounded s.scopes source = true then _ else _ : CheckM Ty) s).2 = _
      cases isUnbounded s.scopes source <;> rfl
  have hquiet : Assures True last := by
    change Assures True (if isTerminal b = true then _ else _ : CheckM Ty)
    split
    · refine .get_bind fun t => ?_
      split
      · exact .next (.warn _ _) fun _ => .pure _
      · exact .pure _
    · exact .pure _
  have hmin : ¬ (tys.length < b.arity.min && b.arity.curries) = true := by
    rw [Arity.accepts, Bool.and_eq_true, decide_eq_true_eq] at harity
    simp [hlength, Nat.not_lt.2 harity.1]
  have haccepts : ¬ (!b.arity.accepts tys.length) = true := by simp [hlength, harity]
  cases tys with
  | nil => cases hlength
  | cons first tys =>
    let reported : CheckM Ty := do
      report (.notSequence b first) source.span
      last
    have hrun : applyBuiltin b (first :: tys) (source :: rest) span =
        if b.isSequence then if first.element?.isNone then reported else last else last := by
      unfold applyBuiltin
      rw [if_neg hmin, if_neg haccepts]
      rfl
    have hreported : Assures False reported := .first (.report _ _) fun _ => hquiet
    rw [hrun] at hclean ⊢
    split
    case isFalse => exact hlast
    case isTrue hsequence =>
      rw [if_pos hsequence] at hclean
      split
      case isFalse => exact hlast
      case isTrue hother =>
        rw [if_pos hother] at hclean
        exact (hreported s hclean).2.elim

/-- A call that is warned of has as many arguments as its builtin takes, and the first is visibly a stream
without an end. -/
theorem Warned.called {b : Builtin} {sc : Scopes} {e : Expr} (h : Warned b sc e) :
    ∃ n source rest, e.called? = some (n, source :: rest) ∧ sc.lookup? n = none ∧
      Builtin.ofName? n = some b ∧ isTerminal b = true ∧
        b.arity.accepts (rest.length + 1) = true ∧ isUnbounded sc source = true := by
  obtain ⟨n, source, rest, hcalled, hsc, hb, tys, s, hlength, rfl, hs, hwarned⟩ := h
  have hnew : (applyBuiltin b tys (source :: rest) e.span s).2 ≠ s := by
    intro hsame
    have hsize := congrArg (fun t : State => t.findings.size) (hwarned.symm.trans hsame)
    exact Nat.succ_ne_self _ ((Array.size_push _).symm.trans hsize)
  have hclean : (applyBuiltin b tys (source :: rest) e.span s).2.Clean := by
    rw [hwarned]
    intro d hd
    rcases Array.mem_push.1 hd with hd | rfl
    · exact hs d hd
    · rfl
  have harity : b.arity.accepts (rest.length + 1) = true := by
    by_contra hother
    have hrefused : (!b.arity.accepts tys.length) = true := by
      rw [hlength, Bool.eq_false_iff.2 hother]
      rfl
    by_cases hfew : (tys.length < b.arity.min && b.arity.curries) = true
    · -- the rest of the arguments is awaited
      exact hnew (by rw [applyBuiltin, if_pos hfew]; rfl)
    · have hrun : applyBuiltin b tys (source :: rest) e.span = do
          report (.builtinArguments b tys.length) e.span
          return .unknown := by
        rw [applyBuiltin, if_neg hfew, if_pos hrefused]
      rw [hrun] at hclean
      cases (hclean _ Array.mem_push_self : true = false)
  rw [applyBuiltin_of_clean hlength harity hclean] at hnew
  have hboth : (isTerminal b && isUnbounded s.scopes source) = true := by
    by_contra hneither
    exact hnew (if_neg hneither)
  rw [Bool.and_eq_true] at hboth
  exact ⟨n, source, rest, hcalled, hsc, hb, hboth.1, harity, hboth.2⟩

/-- A visible stream without an end is a name of one, a call of the source of such streams, or a stage
behind one. -/
theorem rooted_cases {sc : Scopes} {e : Expr} (h : isRooted sc e = true) :
    (∃ span n known, e = .name span n ∧ sc.lookup? n = some known ∧ known.unbounded = true) ∨
    (∃ span nameSpan n g, e = .call span (.name nameSpan n) [g] ∧ sc.lookup? n = none ∧
      isInfiniteSource n = true) ∨
    ∃ n source g, e.called? = some (n, [source, g]) ∧ sc.lookup? n = none ∧ isOpenStage n = true ∧
      isRooted sc source = true := by
  unfold isRooted at h
  split at h
  case h_1 span n =>
    cases hn : sc.lookup? n with
    | none =>
      rw [hn] at h
      cases h
    | some known =>
      rw [hn] at h
      exact .inl ⟨span, n, known, rfl, hn, h⟩
  case h_2 span nameSpan n g =>
    rw [Bool.and_eq_true, Option.isNone_iff_eq_none] at h
    exact .inr (.inl ⟨span, nameSpan, n, g, rfl, h⟩)
  case h_3 span nameSpan n source g =>
    rw [Bool.and_eq_true, Bool.and_eq_true, Option.isNone_iff_eq_none] at h
    exact .inr (.inr ⟨n, source, g, rfl, h⟩)
  case h_4 span receiver n g =>
    rw [Bool.and_eq_true, Bool.and_eq_true, Option.isNone_iff_eq_none] at h
    exact .inr (.inr ⟨n, receiver, g, rfl, h⟩)
  case h_5 => cases h

theorem isOpenStage_eq {n : String} (h : isOpenStage n = true) :
    ∃ b, Builtin.ofName? n = some b ∧ b.arity.accepts 2 = true := by
  unfold isOpenStage at h
  split at h
  case h_5 => cases h
  all_goals exact ⟨_, ‹_›, rfl⟩

/-- The builtin of that name makes streams without an end, passes them on or reads them to their end. -/
def isStreamWord (n : String) : Bool :=
  isInfiniteSource n || isOpenStage n || (Builtin.ofName? n).any isTerminal

theorem isStreamWord_of_infiniteSource {n : String} (h : isInfiniteSource n = true) :
    isStreamWord n = true := by
  rw [isStreamWord, h, Bool.true_or, Bool.true_or]

theorem isStreamWord_of_openStage {n : String} (h : isOpenStage n = true) :
    isStreamWord n = true := by
  rw [isStreamWord, h, Bool.or_true, Bool.true_or]

theorem isStreamWord_of_terminal {n : String} {b : Builtin} (hb : Builtin.ofName? n = some b)
    (h : isTerminal b = true) : isStreamWord n = true := by
  rw [isStreamWord, hb, Option.any_some, h, Bool.or_true]

/-- What is said of an expression in the scopes is borne out: what is taken for a stream without an end
comes from the source of such streams, and of the one call there is a warning. -/
structure BorneOut (b : Builtin) (warned : Expr) (sc : Scopes) (e : Expr) : Prop where
  rooted : isUnbounded sc e = true → isRooted sc e = true
  warned : e = warned → Warned b sc e

/-- A predicate is run with the names of the module that asks for it, whichever that is; so of none but
that of the value anything is known. -/
def predicateScopes : Scopes := ⟨[], [[("value", .ofTy .unknown)]]⟩

end Check

namespace Accepted

/-- The scopes with which the check has come, in a module behind others, through some of its functions
and then of its items. -/
def scopesUpTo (a : Accepted) (before : List ModuleUnit) (u : ModuleUnit)
    (decls : List FunctionDecl) (items : List Item) : Scopes :=
  let p := Check.checkedUnits before (Check.beginning a.checked.schemas)
  (Check.upTo p.1 u decls items p.2).2.scopes

theorem scopesUpTo_locals (a : Accepted) (before : List ModuleUnit) (u : ModuleUnit)
    (decls : List FunctionDecl) (items : List Item) : (a.scopesUpTo before u decls items).locals = [] :=
  Check.upTo_locals _ u _ decls items

/-- The check takes the name, at the top of the module of that number, for a stream without an end. -/
def Endless (a : Accepted) (m : Nat) (n : String) : Prop :=
  ∃ before u after b, a.units = before ++ u :: after ∧ before.length = m ∧
    Keyed.get? n (a.scopesUpTo before u u.functions u.program.items).globals = some b ∧
      b.unbounded = true

/-- The property holds of all expressions of a program, each in the scopes in which it is checked. -/
structure Everywhere (a : Accepted) (P : Scopes → Expr → Prop) : Prop where
  functions : ∀ before u after, a.units = before ++ u :: after → ∀ decls d rest,
    u.functions = decls ++ d :: rest → Check.EverywhereIn P (a.scopesUpTo before u decls []) d
  values : ∀ before u after, a.units = before ++ u :: after → ∀ items i rest,
    u.program.items = items ++ i :: rest →
      (∀ d, i.kind = .binding d →
        Check.Everywhere P (a.scopesUpTo before u u.functions items) d.value) ∧
      ∀ e, i.kind = .expr e → Check.Everywhere P (a.scopesUpTo before u u.functions items) e
  predicates : ∀ u ∈ a.units, u.Predicates (Check.Everywhere P Check.predicateScopes)

/-- No function and no value at the top of a module has the name of a builtin for streams. What the
check takes for a stream without an end has no name that stands for something else where nothing has
that name. -/
def NamesApart (a : Accepted) : Prop :=
  ∀ u ∈ a.units, ∀ n ∈ u.valueNames, Check.isStreamWord n = false ∧
    ((∃ m, a.Endless m n) → Builtin.ofName? n = none ∧ Builtin.constantType? n = none)

end Accepted

namespace Charter

open Check

/-- What the check takes for a stream without an end is one. -/
def endless (a : Accepted) (P : Scopes → Expr → Prop) : Charter where
  closure decl env m := ∃ sc, EverywhereIn P sc decl ∧ Agrees (a.Endless m) env sc
  shape _ _ := True
  loaded l := l.schemas = a.checked.schemas ∧ ∀ m scope, l.modules[m]? = some scope →
    ∃ before u after, a.units = before ++ u :: after ∧ before.length = m ∧ scope.name = u.name ∧
      ∀ n v, Keyed.get? n scope.globals = some v → n ∈ u.valueNames ∧ (a.Endless m n → v.Endless)
  code m env e := ∃ sc, Everywhere P sc e ∧ Agrees (a.Endless m) env sc
  block m env tail stmts := ∃ sc, sc.locals ≠ [] ∧ EverywhereBlock P sc tail stmts ∧
    Agrees (a.Endless m) env sc
  gives m env e v := ∀ sc, Agrees (a.Endless m) env sc →
    (isRooted sc e = true → v.Endless) ∧
      ∀ span n b, e = .name span n → sc.lookup? n = none → isStreamWord n = true →
        Builtin.ofName? n = some b → ∃ id, v = .function id (.builtin b)

variable {γ : Type} {a : Accepted} {P : Scopes → Expr → Prop} {s t : Interpreter γ} {m : Nat}
  {env : Env} {sc : Scopes} {n : String} {b : Builtin} {v : Value}

section

variable (hl : (endless a P).loaded s.loaded)
include hl

theorem global_known (hv : s.global? m n = some v) :
    (∃ u ∈ a.units, n ∈ u.valueNames) ∧ (a.Endless m n → v.Endless) := by
  obtain ⟨scope, hscope, hget⟩ := Option.bind_eq_some_iff.1 hv
  obtain ⟨before, u, after, hsplit, -, -, hknown⟩ := hl.2 m scope hscope
  obtain ⟨hn, hendless⟩ := hknown n v hget
  exact ⟨⟨u, hsplit ▸ List.mem_append_right _ List.mem_cons_self, hn⟩, hendless⟩

variable (hnames : a.NamesApart)
include hnames

/-- The name of a builtin for streams stands for it where nothing in the scope has that name. -/
theorem lookup_builtin (henv : env.lookup? n = none) (hword : isStreamWord n = true)
    (hb : Builtin.ofName? n = some b) :
    Run.lookup n env s = .ok (.function s.nextIdentity (.builtin b))
      { s with nextIdentity := s.nextIdentity.next } := by
  have hglobal : s.global? s.current n = none := by
    rw [Option.eq_none_iff_forall_ne_some]
    intro w hw
    obtain ⟨u, hu, hn⟩ := (global_known hl hw).1
    exact absurd hword (Bool.eq_false_iff.1 (hnames u hu n hn).1)
  rw [Run.lookup, henv]
  dsimp only
  rw [Eval.get_bind_apply, hglobal, hb]
  rfl

end

section

variable {mainName : String} {main : Program} {provider : Provider}
  (haccept : accept mainName main provider = .ok a) (hnames : a.NamesApart)
include haccept hnames

theorem endless_apart (hn : a.Endless m n) :
    Builtin.ofName? n = none ∧ Builtin.constantType? n = none := by
  have hendless := hn
  obtain ⟨before, u, after, b, hsplit, -, hb, -⟩ := hn
  have hclean := clean_of_split (accept_eq_ok haccept).2 hsplit
  have hu : u ∈ a.units := hsplit ▸ List.mem_append_right _ List.mem_cons_self
  exact (hnames u hu n (name_known hclean hb)).2 ⟨m, hendless⟩

/-- A name that is known as a stream without an end stands for one, or for nothing yet. -/
theorem lookup_endless (hl : (endless a P).loaded s.loaded)
    (hagrees : Agrees (a.Endless s.current) env sc) {known : Binding}
    (hb : sc.lookup? n = some known) (hunbounded : known.unbounded = true)
    (h : Run.lookup n env s = .ok v t) : v.Endless := by
  rw [Run.lookup] at h
  cases hlocal : sc.local? n with
  | some b' =>
    rw [Scopes.lookup?_of_local? hlocal] at hb
    cases hb
    obtain ⟨w, hw, hendless⟩ := hagrees.bound n known hlocal
    rw [hw] at h
    cases h
    exact hendless hunbounded
  | none =>
    rw [Scopes.lookup?_of_not_local hlocal] at hb
    have hn := hagrees.globals n known hb hunbounded
    obtain ⟨hbuiltin, hconstant⟩ := endless_apart haccept hnames hn
    rw [hagrees.unbound n hlocal] at h
    dsimp only at h
    rw [Eval.get_bind_apply] at h
    cases hglobal : s.global? s.current n with
    | some w =>
      rw [hglobal] at h
      cases h
      exact (global_known hl hglobal).2 hn
    | none =>
      rw [hglobal, hbuiltin, hconstant] at h
      cases h

end

-- calls of builtins by their names

section

variable [Gateway γ] (hl : (endless a P).loaded s.loaded) (hnames : a.NamesApart)
  (hagrees : Agrees (a.Endless s.current) env sc) (hsc : sc.lookup? n = none)
  (hword : isStreamWord n = true) (hb : Builtin.ofName? n = some b)

omit [Gateway γ] in
include hagrees hsc in
theorem unbound_of_lookup? : env.lookup? n = none := by
  refine hagrees.unbound n ?_
  cases hlocal : sc.local? n with
  | none => rfl
  | some b =>
    rw [Scopes.lookup?_of_local? hlocal] at hsc
    cases hsc

include hagrees hsc hword hb in
theorem combine_call (span : Span) {nameSpan : Span} {args : List Expr} {vs : List Value}
    (hvs : List.Forall₂ ((endless a P).gives s.current env) (.name nameSpan n :: args) vs) :
    ∃ id ws, vs = .function id (.builtin b) :: ws ∧
      List.Forall₂ ((endless a P).gives s.current env) args ws ∧ ∀ fuel,
        (Recur.ofFuel fuel).combine (.call span (.name nameSpan n) args) env vs s =
          (Recur.ofFuel fuel).call (.function id (.builtin b)) ws { s with line := span.line } := by
  obtain _ | ⟨hf, hws⟩ := hvs
  obtain ⟨id, rfl⟩ := (hf sc hagrees).2 nameSpan n b rfl hsc hword hb
  exact ⟨id, _, rfl, hws, fun _ => rfl⟩

include hl hnames hagrees hsc hword hb

theorem combine_method (span : Span) {receiver : Expr} {args : List Expr} {vs : List Value}
    (hvs : List.Forall₂ ((endless a P).gives s.current env) (receiver :: args) vs)
    (hreceiver : ∀ v, (endless a P).gives s.current env receiver v → v.Endless) :
    ∃ id t, ∀ fuel, (Recur.ofFuel fuel).combine (.method span receiver n args) env vs s =
      (Recur.ofFuel fuel).call (.function id (.builtin b)) vs t := by
  obtain _ | ⟨hv, hws⟩ := hvs
  rename_i v ws
  have hendless := hreceiver v hv
  cases v with
  | stream id p =>
    have hlookup := lookup_builtin (s := { s with line := span.line }) hl hnames
      (unbound_of_lookup? hagrees hsc) hword hb
    refine ⟨s.nextIdentity, { s with line := span.line, nextIdentity := s.nextIdentity.next },
      fun fuel => ?_⟩
    exact Eval.bind_of_ok hlookup
  | _ => cases hendless

/-- A call of a builtin, the first argument of which is a stream without an end. -/
theorem combine_called {e source : Expr} {rest : List Expr} {vs : List Value}
    (hcalled : e.called? = some (n, source :: rest))
    (hvs : List.Forall₂ ((endless a P).gives s.current env) e.operands vs)
    (hsource : ∀ v, (endless a P).gives s.current env source v → v.Endless) :
    ∃ v ws id t, e.firstArgument? vs = some v ∧ v.Endless ∧ ws.length = rest.length ∧ ∀ fuel,
      (Recur.ofFuel fuel).combine e env vs s =
        (Recur.ofFuel fuel).call (.function id (.builtin b)) (v :: ws) t := by
  cases e with
  | call span callee args =>
    cases callee with
    | name nameSpan n' =>
      cases hcalled
      obtain ⟨id, ws, rfl, hws, hrun⟩ := combine_call hagrees hsc hword hb span hvs
      obtain _ | ⟨hv, hrest⟩ := hws
      exact ⟨_, _, id, _, rfl, hsource _ hv, hrest.length_eq.symm, hrun⟩
    | _ => cases hcalled
  | method span receiver n' args =>
    cases hcalled
    obtain ⟨id, t, hrun⟩ := combine_method hl hnames hagrees hsc hword hb span hvs hsource
    obtain _ | ⟨hv, hrest⟩ := hvs
    exact ⟨_, _, id, t, rfl, hsource _ hv, hrest.length_eq.symm, hrun⟩
  | _ => cases hcalled

end

theorem gives_of_others {e : Expr} (hname : ∀ span n, e ≠ .name span n) (hcalled : e.called? = none)
    (v : Value) : (endless a P).gives m env e v := by
  refine fun sc _ => ⟨fun hrooted => ?_, fun span n _ heq => absurd heq (hname span n)⟩
  rcases rooted_cases hrooted with ⟨span, n, _, rfl, -⟩ | ⟨span, nameSpan, n, g, rfl, -⟩ |
    ⟨n, source, g, hsome, -⟩
  · exact absurd rfl (hname span n)
  · cases hcalled
  · rw [hcalled] at hsome
    cases hsome

section

variable [Gateway γ] (hl : (endless a P).loaded s.loaded) (hnames : a.NamesApart)
include hl hnames

/-- A call that the check takes for a stream without an end gives one. -/
theorem combine_endless {fuel : Nat} {e : Expr} (hfrom : e.isFromParts = true) {vs : List Value}
    (hvs : List.Forall₂ ((endless a P).gives s.current env) e.operands vs)
    (h : (Recur.ofFuel fuel).combine e env vs s = .ok v t) : (endless a P).gives s.current env e v := by
  refine fun sc hagrees => ⟨fun hrooted => ?_, ?_⟩
  · rcases rooted_cases hrooted with ⟨span, n, _, rfl, -⟩ | ⟨span, nameSpan, n, g, rfl, hsc, hn⟩ |
      ⟨n, source, g, hcalled, hsc, hn, hsource⟩
    · cases hfrom
    · have hb : Builtin.ofName? n = some (.source .infinite) := beq_iff_eq.1 hn
      have hword := isStreamWord_of_infiniteSource hn
      obtain ⟨id, ws, rfl, hws, hrun⟩ := combine_call hagrees hsc hword hb span hvs
      obtain _ | @⟨_, w, _, _, hw, hnil⟩ := hws
      cases hnil
      rw [hrun] at h
      cases fuel with
      | zero => cases h
      | succ fuel =>
        rw [Recur.call_builtin rfl] at h
        exact Recur.callBuiltin_source _ hn hb h
    · obtain ⟨b, hb, harity⟩ := isOpenStage_eq hn
      obtain ⟨w, ws, id, t', -, hw, hlength, hrun⟩ := combine_called hl hnames hagrees hsc
        (isStreamWord_of_openStage hn) hb hcalled hvs fun w hgives => (hgives sc hagrees).1 hsource
      obtain ⟨f, rfl⟩ := List.length_eq_one_iff.1 hlength
      rw [hrun] at h
      cases fuel with
      | zero => cases h
      | succ fuel =>
        rw [Recur.call_builtin harity] at h
        exact Recur.callBuiltin_stage _ hn hb hw h
  · rintro span n b rfl
    cases hfrom

end

theorem agrees_value (m : Nat) (v : Value) :
    Agrees (a.Endless m) (Env.empty.bind "value" v) predicateScopes where
  unbound n hn := by
    have hne : n ≠ "value" := by
      rintro rfl
      cases hn
    rw [Env.lookup?_bind_of_ne hne]
    rfl
  bound n known hknown := by
    have hn : n = "value" := by
      by_contra hne
      simp [Scopes.local?, predicateScopes, Keyed.get?, Ne.symm hne] at hknown
    subst hn
    cases hknown
    refine ⟨v, Env.lookup?_bind_self _ _ _, ?_⟩
    rintro ⟨⟩
  globals := by rintro n known ⟨⟩

theorem arms_of_everywhere {arms : List MatchArm} (harms : EverywhereArms P sc arms)
    (hagrees : Agrees (a.Endless m) env sc) : (endless a P).Arms m env arms := by
  intro arm harm v bindings hbindings
  induction arms with
  | nil => cases harm
  | cons first rest ih =>
    cases harms with
    | cons hpattern hguard hbody hrest =>
      rcases List.mem_cons.1 harm with rfl | harm
      · obtain ⟨futures, hfits⟩ := hbindings
        have hextended := (hagrees.enter.extendTyped (List.cons_ne_nil _ _)
          (bindPattern_declares _ _ _) hpattern (Pattern.names_of_bindings? _ hfits)).2
        exact ⟨fun e he => ⟨_, hguard e he, hextended⟩, _, hbody, hextended⟩
      · exact ih hrest harm

/-- The charter says of code what evaluation needs of it. -/
theorem endless_lawful [Gateway γ] {mainName : String} {main : Program} {provider : Provider}
    (haccept : accept mainName main provider = .ok a) (hnames : a.NamesApart)
    (hall : a.Everywhere P)
    (hP : ∀ sc e, P sc e → isUnbounded sc e = true → isRooted sc e = true) :
    (endless a P).Lawful γ where
  declared _ _ := trivial
  predicate {l name al p} hl hal hp m v := by
    have htable := collectSchemas_predicates hall.predicates
    rw [← (program_eq_ok (accept_eq_ok haccept).2).1, ← hl.1] at htable
    exact ⟨predicateScopes, htable.of_typeAlias? hal hp, agrees_value m v⟩
  others hname hfrom v := gives_of_others hname (Expr.called?_of_not_fromParts hfrom) v
  name {due s t env span n v} hs _ h sc hagrees := by
    refine ⟨fun hrooted => ?_, ?_⟩
    · rcases rooted_cases hrooted with ⟨_, _, known, heq, hknown, hunbounded⟩ |
        ⟨_, _, _, _, heq, -⟩ | ⟨_, _, _, hcalled, -⟩
      · cases heq
        exact lookup_endless haccept hnames hs.loaded hagrees hknown hunbounded h
      · cases heq
      · cases hcalled
    · rintro _ _ b heq hsc hword hb
      cases heq
      rw [lookup_builtin hs.loaded hnames (unbound_of_lookup? hagrees hsc) hword hb] at h
      cases h
      exact ⟨_, rfl⟩
  parts := by
    rintro m env e ⟨sc, he, hagrees⟩ hfrom part hpart
    exact ⟨sc, he.of_parts hfrom part hpart, hagrees⟩
  combined hs _ hfrom hvs h := combine_endless hs.loaded hnames hfrom hvs h
  logical := by
    rintro m env span op lhs rhs ⟨sc, he, hagrees⟩ -
    cases he with
    | parts _ _ hparts =>
      exact ⟨⟨sc, hparts _ (.head _), hagrees⟩, sc, hparts _ (.tail _ (.head _)), hagrees⟩
    | logical _ hlhs hrhs => exact ⟨⟨sc, hlhs, hagrees⟩, sc, hrhs, hagrees⟩
  branch := by
    rintro m env span test whenTrue whenFalse ⟨sc, he, hagrees⟩
    cases he with
    | parts _ hfrom => cases hfrom
    | branch _ htest htrue hfalse =>
      exact ⟨⟨sc, htest, hagrees⟩, ⟨sc, htrue, hagrees⟩, fun e he => ⟨sc, hfalse e he, hagrees⟩⟩
  cases := by
    rintro m env span scrutinee arms ⟨sc, he, hagrees⟩
    cases he with
    | parts _ hfrom => cases hfrom
    | cases _ hscrutinee harms => exact ⟨⟨sc, hscrutinee, hagrees⟩, arms_of_everywhere harms hagrees⟩
  ofBlock := by
    rintro m env span stmts tail ⟨sc, he, hagrees⟩
    cases he with
    | parts _ hfrom => cases hfrom
    | block _ hblock => exact ⟨sc.enter, List.cons_ne_nil _ _, hblock, hagrees.enter⟩
  tail := by
    rintro m env e ⟨sc, -, hblock, hagrees⟩
    cases hblock with
    | done htail => exact ⟨sc, htail e rfl, hagrees⟩
  bind := by
    rintro m env tail span pattern ty e rest ⟨sc, hlocals, hblock, hagrees⟩
    cases hblock with
    | bind he hlet hrest =>
      refine ⟨⟨sc, he, hagrees⟩, fun v bindings hgives hbindings => ?_⟩
      obtain ⟨hlocals', hextended⟩ := hagrees.extendLet hlocals hlet
        (fun h => (hgives sc hagrees).1 (hP sc e he.self h)) hbindings
      exact ⟨_, hlocals', hrest, hextended⟩
  expr := by
    rintro m env tail e rest ⟨sc, hlocals, hblock, hagrees⟩
    cases hblock with
    | expr he hrest => exact ⟨⟨sc, he, hagrees⟩, sc, hlocals, hrest, hagrees⟩
  async := by
    rintro m env span body ⟨sc, he, hagrees⟩
    cases he with
    | parts _ hfrom => cases hfrom
    | async _ hbody => exact ⟨sc, hbody, hagrees⟩
  await := by
    rintro m env span future ⟨sc, he, hagrees⟩
    cases he with
    | parts _ hfrom => cases hfrom
    | await _ hfuture => exact ⟨sc, hfuture, hagrees⟩
  attempt := by
    rintro m env span inner ⟨sc, he, hagrees⟩
    cases he with
    | parts _ hfrom => cases hfrom
    | attempt _ hinner => exact ⟨sc, hinner, hagrees⟩
  ofClosure := by
    rintro m env span decl ⟨sc, he, hagrees⟩
    cases he with
    | parts _ hfrom => cases hfrom
    | closure _ hparams hbody => exact ⟨sc, ⟨_, hparams, hbody⟩, hagrees⟩
  enter := by
    rintro m env decl bindings ⟨sc, ⟨sc', hparams, hbody⟩, hagrees⟩ hbindings
    exact ⟨sc', hbody, (hagrees.enter.extendTyped (List.cons_ne_nil _ _)
      (declareParams_declares _) hparams hbindings).2⟩

end Charter

end StreamLang
