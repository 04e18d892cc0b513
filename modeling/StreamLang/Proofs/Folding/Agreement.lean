import StreamLang.Gateway.Stock
import StreamLang.Proofs.Delivers
import StreamLang.Proofs.Folding.Operators

/-! An expression that folds evaluates to the value of its constant, and does nothing else. Left out
are the expressions in whose folding a comparison has another answer than at run time. -/

namespace StreamLang

/-- As the left operand the constant decides alone. -/
def Const.settles (op : BinaryOp) : Const → Bool
  | bool x => Run.decides op x
  | _ => false

namespace Expr

variable (scope : String → Option Const)

/-- The parts of an expression that the folding of it looks at. -/
def consulted : Expr → List Expr
  | list _ items => items
  | unary _ _ operand => [operand]
  | binary _ op lhs rhs =>
    lhs :: if (Const.fold scope lhs).any (Const.settles op) then [] else [rhs]
  | branch _ test whenTrue whenFalse =>
    test :: match Const.fold scope test with
      | some (.bool true) => [whenTrue]
      | some (.bool false) => whenFalse.toList
      | _ => []
  | block _ [] tail => tail.toList
  | call _ _ args => args
  | _ => []

/-- The folding of the first expression comes to the second. -/
inductive Reaches : Expr → Expr → Prop
  | refl (e : Expr) : Reaches e e
  | part {e part sub : Expr} (hpart : part ∈ e.consulted scope) (h : Reaches part sub) :
      Reaches e sub

/-- The expression is a comparison whose answer at run time is another one. -/
inductive Differs : Expr → Prop
  | operator {span : Span} {op : BinaryOp} {lhs rhs : Expr} {a b : Const}
      (ha : Const.fold scope lhs = some a) (hb : Const.fold scope rhs = some b)
      (h : ¬ op.Compares a b) : Differs (.binary span op lhs rhs)
  | builtin {span inner : Span} {name : String} {args : List Expr} {cs : List Const}
      (hcs : Const.foldAll scope args = some cs) (h : ¬ Const.CallCompares name cs) :
      Differs (.call span (.name inner name) args)

/-- The folding of the expression comes to a comparison whose answer at run time is another one. -/
def Strays (e : Expr) : Prop := ∃ sub, e.Reaches scope sub ∧ sub.Differs scope

variable {scope}

theorem not_strays {e : Expr} (h : ¬ e.Differs scope)
    (hparts : ∀ part ∈ e.consulted scope, ¬ part.Strays scope) : ¬ e.Strays scope := by
  rintro ⟨sub, hreach, hdiffers⟩
  cases hreach with
  | refl => exact h hdiffers
  | part hpart hreach => exact hparts _ hpart ⟨sub, hreach, hdiffers⟩

theorem not_differs_binary {span : Span} {op : BinaryOp} {lhs rhs : Expr}
    (h : ∀ a b, Const.fold scope lhs = some a → Const.fold scope rhs = some b → op.Compares a b) :
    ¬ (Expr.binary span op lhs rhs).Differs scope := by
  intro hdiffers
  cases hdiffers with
  | operator ha hb hnot => exact hnot (h _ _ ha hb)

theorem not_differs_call {span inner : Span} {name : String} {args : List Expr}
    (h : ∀ cs, Const.foldAll scope args = some cs → Const.CallCompares name cs) :
    ¬ (Expr.call span (.name inner name) args).Differs scope := by
  intro hdiffers
  cases hdiffers with
  | builtin hcs hnot => exact hnot (h _ hcs)

end Expr

section

variable {γ : Type}

/-- All but the line of the last call and the next identity is as it was. -/
def Interpreter.Untouched (s t : Interpreter γ) : Prop :=
  t = { s with line := t.line, nextIdentity := t.nextIdentity }

namespace Interpreter.Untouched

variable {s t : Interpreter γ}

theorem refl (s : Interpreter γ) : s.Untouched s := rfl

theorem withLine (h : s.Untouched t) (line : Nat) : s.Untouched { t with line := line } := by
  rw [Untouched] at h ⊢
  rw [h]

theorem withIdentity (h : s.Untouched t) (id : Identity) :
    s.Untouched { t with nextIdentity := id } := by
  rw [Untouched] at h ⊢
  rw [h]

theorem global? (h : s.Untouched t) (name : String) :
    t.global? t.current name = s.global? s.current name := by
  rw [h]
  rfl

end Interpreter.Untouched

namespace Const

/-- The name stands for the value of the constant. -/
def StandsFor (env : Env) (s : Interpreter γ) (name : String) (c : Const) : Prop :=
  env.lookup? name = some c.toValue ∨
    env.lookup? name = none ∧ s.global? s.current name = some c.toValue

/-- The name is bound neither in the scope nor at the top of the module. -/
def Unbound (env : Env) (s : Interpreter γ) (name : String) : Prop :=
  env.lookup? name = none ∧ s.global? s.current name = none

/-- The names of the scope stand for the values of their constants, and no builtin is hidden by
another name. -/
structure Bound (scope : String → Option Const) (env : Env) (s : Interpreter γ) : Prop where
  known : ∀ {name c}, scope name = some c → StandsFor env s name c
  builtin : ∀ {name b}, scope name = none → Builtin.ofName? name = some b → Unbound env s name

/-- The name that the expression is, or that it calls, means what the scope says. -/
def NameBound (scope : String → Option Const) (env : Env) (s : Interpreter γ) : Expr → Prop
  | .name _ n => ∀ c, scope n = some c → StandsFor env s n c
  | .call _ (.name _ n) _ => scope n = none → ∀ b, Builtin.ofName? n = some b → Unbound env s n
  | _ => True

theorem Bound.nameBound {scope : String → Option Const} {env : Env} {s : Interpreter γ}
    (h : Bound scope env s) (e : Expr) : NameBound scope env s e := by
  unfold NameBound
  split
  · exact fun _ => h.known
  · exact fun hnone _ => h.builtin hnone
  · trivial

/-- All that the folding of the expression comes to means at run time what it means there. -/
def Reliable (scope : String → Option Const) (env : Env) (s : Interpreter γ) (e : Expr) : Prop :=
  ∀ sub, e.Reaches scope sub → NameBound scope env s sub ∧ ¬ sub.Differs scope

namespace Reliable

variable {scope : String → Option Const} {env : Env} {s : Interpreter γ} {e : Expr}

theorem part (h : Reliable scope env s e) {part : Expr} (hpart : part ∈ e.consulted scope) :
    Reliable scope env s part :=
  fun sub hreach => h sub (.part hpart hreach)

theorem nameBound (h : Reliable scope env s e) : NameBound scope env s e := (h e (.refl e)).1

theorem not_differs (h : Reliable scope env s e) : ¬ e.Differs scope := (h e (.refl e)).2

theorem of_bound (h : Bound scope env s) (hstrays : ¬ e.Strays scope) : Reliable scope env s e :=
  fun sub hreach => ⟨h.nameBound sub, fun hdiffers => hstrays ⟨sub, hreach, hdiffers⟩⟩

end Reliable

end Const

namespace Eval.Delivers

variable {σ α : Type} {ok : σ → Prop} {x : Nat → Eval σ α} {a : α}

theorem located (h : Delivers ok x a) (line : Nat) :
    Delivers ok (fun fuel => (x fuel).located line) a := by
  obtain ⟨n, hn⟩ := h
  refine ⟨n, fun fuel hle s hs => ?_⟩
  obtain ⟨s', hs', hx⟩ := hn fuel hle s hs
  exact ⟨s', hs', by simp only [Eval.located, hx]⟩

end Eval.Delivers

namespace Const

variable [Gateway γ] {scope : String → Option Const} {env : Env} {s : Interpreter γ}

/-- With a large enough bound the expression evaluates to the value of the constant. -/
def Evaluates (s : Interpreter γ) (env : Env) (e : Expr) (c : Const) : Prop :=
  Eval.Delivers s.Untouched (fun fuel => evalWithin fuel e env) c.toValue

def EvaluateAll (s : Interpreter γ) (env : Env) (es : List Expr) (cs : List Const) : Prop :=
  Eval.Delivers s.Untouched (fun fuel => es.mapM fun e => evalWithin fuel e env) (cs.map toValue)

theorem Evaluates.of_evalNode {e : Expr} {c : Const}
    (h : Eval.Delivers s.Untouched (fun fuel => (Recur.ofFuel fuel).evalNode e env) c.toValue) :
    Evaluates s env e c :=
  .step (h.located e.line)

theorem EvaluateAll.nil : EvaluateAll s env [] [] :=
  Eval.Delivers.pure _

theorem EvaluateAll.cons {e : Expr} {es : List Expr} {c : Const} {cs : List Const}
    (h : Evaluates s env e c) (hs : EvaluateAll s env es cs) :
    EvaluateAll s env (e :: es) (c :: cs) := by
  simp only [EvaluateAll, List.mapM_cons, List.map_cons]
  exact h.bind (hs.bind (.pure _))

theorem evaluates_name {span : Span} {name : String} {c : Const} (h : StandsFor env s name c) :
    Evaluates s env (.name span name) c := by
  refine .of_evalNode ⟨0, fun fuel _ t ht => ⟨t, ht, ?_⟩⟩
  show Run.lookup name env t = _
  rcases h with henv | ⟨henv, hglobal⟩
  · simp only [Run.lookup, henv]
    rfl
  · simp only [Run.lookup, henv]
    rw [Eval.get_bind_apply, ht.global?, hglobal]
    rfl

omit [Gateway γ] in
/-- The function that a builtin is has a new identity at each mention. -/
theorem lookup_builtin {name : String} {b : Builtin} {t : Interpreter γ} (h : Unbound env s name)
    (ht : s.Untouched t) (hb : Builtin.ofName? name = some b) :
    Run.lookup name env t = Run.newFunction (.builtin b) t := by
  simp only [Run.lookup, h.1]
  rw [Eval.get_bind_apply, ht.global?, h.2, hb]

theorem evaluates_call {span inner : Span} {name : String} {args : List Expr} {cs : List Const}
    {c : Const} {b : Builtin} (hunbound : Unbound env s name)
    (hb : Builtin.ofName? name = some b) (hgiven : GivenBy cs c b)
    (hargs : EvaluateAll s env args cs) :
    Evaluates s env (.call span (.name inner name) args) c := by
  refine .of_evalNode ?_
  obtain ⟨n, hn⟩ := hargs
  refine ⟨n + 1, fun fuel hle t ht => ?_⟩
  obtain ⟨k, rfl⟩ : ∃ k, fuel = k + 1 := ⟨fuel - 1, by omega⟩
  have hcallee : evalWithin (k + 1) (.name inner name) env t =
      .ok (.function t.nextIdentity (.builtin b)) { t with nextIdentity := t.nextIdentity.next } := by
    change Eval.located _ (Run.lookup name env) t = _
    rw [Eval.located, lookup_builtin hunbound ht hb]
    rfl
  obtain ⟨t', ht', hvs⟩ := hn (k + 1) (by omega) _ (ht.withIdentity t.nextIdentity.next)
  refine ⟨{ t' with line := span.line }, ht'.withLine span.line, ?_⟩
  have hparts : (Expr.call span (.name inner name) args).operands.mapM
      (fun part => (Recur.ofFuel (k + 1) : Recur γ).eval part env) t =
      .ok (.function t.nextIdentity (.builtin b) :: cs.map toValue) t' := by
    change (List.mapM (fun part => evalWithin (k + 1) part env) (_ :: args)) t = _
    rw [List.mapM_cons, Eval.bind_of_ok hcallee, Eval.bind_of_ok hvs]
    rfl
  refine (Eval.bind_of_ok hparts).trans ?_
  change (Recur.ofFuel k).callCallable (.builtin b) (cs.map toValue) _ = _
  rw [hgiven]
  rfl

theorem Evaluates.of_parts {e : Expr} {cs : List Const} {c : Const}
    (hnode : ∀ r : Recur γ, r.evalNode e env = r.evalParts e env)
    (hparts : EvaluateAll s env e.operands cs)
    (hcombine : ∀ r : Recur γ, r.combine e env (cs.map toValue) = pure c.toValue) :
    Evaluates s env e c := by
  refine .of_evalNode ?_
  simp only [hnode, Recur.evalParts]
  refine Eval.Delivers.bind hparts ?_
  simp only [hcombine]
  exact .pure _

theorem evaluates_branch {span : Span} {test whenTrue : Expr} {whenFalse : Option Expr} {b : Bool}
    {c : Const} (htest : Evaluates s env test (bool b))
    (hbody : Eval.Delivers s.Untouched (fun fuel => if b then evalWithin fuel whenTrue env
      else (Recur.ofFuel fuel).evalOr whenFalse env) c.toValue) :
    Evaluates s env (.branch span test whenTrue whenFalse) c :=
  .of_evalNode (Eval.Delivers.bind htest (Eval.Delivers.bind (.pure b) hbody))

theorem evaluates_decided {span : Span} {op : BinaryOp} {lhs rhs : Expr} {x : Bool}
    (hlogical : op.isLogical = true) (hlhs : Evaluates s env lhs (bool x))
    (hdecides : Run.decides op x = true) : Evaluates s env (.binary span op lhs rhs) (bool x) := by
  refine .of_evalNode ?_
  simp only [Recur.evalNode, hlogical, if_true, Recur.evalLogical]
  refine Eval.Delivers.bind hlhs (Eval.Delivers.bind (.pure x) ?_)
  simp only [hdecides, if_true]
  exact .pure _

theorem evaluates_undecided {span : Span} {op : BinaryOp} {lhs rhs : Expr} {x y : Bool}
    (hlogical : op.isLogical = true) (hlhs : Evaluates s env lhs (bool x))
    (hrhs : Evaluates s env rhs (bool y)) (hdecides : Run.decides op x = false) :
    Evaluates s env (.binary span op lhs rhs) (bool y) := by
  refine .of_evalNode ?_
  simp only [Recur.evalNode, hlogical, if_true, Recur.evalLogical]
  refine Eval.Delivers.bind hlhs (Eval.Delivers.bind (.pure x) ?_)
  simp only [hdecides]
  exact Eval.Delivers.bind hrhs (Eval.Delivers.bind (.pure y) (.pure _))

/-- An operation folds by its left side alone, or by both sides to what the operator gives. -/
theorem of_fold_binary {span : Span} {op : BinaryOp} {lhs rhs : Expr} {c : Const}
    (h : fold scope (.binary span op lhs rhs) = some c) :
    ∃ a, fold scope lhs = some a ∧ (a.settles op = true ∧ c = a ∨
      a.settles op = false ∧ ∃ b, fold scope rhs = some b ∧ binary? op a b = some c) := by
  obtain ⟨a, ha, h⟩ := Option.bind_eq_some_iff.1 h
  refine ⟨a, ha, ?_⟩
  split at h
  · cases h
    exact .inl ⟨rfl, rfl⟩
  · cases h
    exact .inl ⟨rfl, rfl⟩
  · rename_i hand hor
    obtain ⟨b, hb, h⟩ := Option.bind_eq_some_iff.1 h
    refine .inr ⟨?_, b, hb, h⟩
    cases a with
    | bool x => cases op <;> cases x <;> simp [settles, Run.decides] at hand hor ⊢
    | _ => rfl

theorem of_binary?_logical {op : BinaryOp} {a b c : Const} (hlogical : op.isLogical = true)
    (h : binary? op a b = some c) : ∃ x y, a = bool x ∧ b = bool y ∧ c = bool y := by
  cases op with
  | and | or =>
    unfold binary? at h
    dsimp only at h
    split at h
    · cases h
      exact ⟨_, _, rfl, rfl, rfl⟩
    · cases h
  | _ => cases hlogical

theorem of_settles {op : BinaryOp} {a : Const} (h : a.settles op = true) :
    op.isLogical = true ∧ ∃ x, a = bool x ∧ Run.decides op x = true := by
  cases a with
  | bool x => cases op with
    | and | or => exact ⟨rfl, x, rfl, h⟩
    | _ => cases h
  | _ => cases h

mutual

theorem evaluates_of_fold {e : Expr} {c : Const} (h : fold scope e = some c)
    (he : Reliable scope env s e) : Evaluates s env e c := by
  cases e with
  | literal span l =>
    cases h
    refine .of_evalNode ?_
    cases l <;> exact .pure _
  | name span n => exact evaluates_name (he.nameBound c h)
  | list span items =>
    obtain ⟨cs, hcs, rfl⟩ := Option.map_eq_some_iff.1 h
    refine .of_parts (fun _ => rfl) (evaluateAll_of_foldAll hcs fun part => he.part) fun r => ?_
    rw [toValue, toValues_eq_map]
    rfl
  | unary span op operand =>
    obtain ⟨a, ha, hop⟩ := Option.bind_eq_some_iff.1 h
    have hoperand := evaluates_of_fold ha (he.part (List.mem_singleton_self operand))
    refine .of_parts (fun _ => rfl) (.cons hoperand .nil) fun r => ?_
    change Eval.ofExcept (op.apply a.toValue) = _
    rw [unary?_toValue hop]
    rfl
  | binary span op lhs rhs =>
    obtain ⟨a, ha, hrest⟩ := of_fold_binary h
    have hlhs := evaluates_of_fold ha (he.part List.mem_cons_self)
    rcases hrest with ⟨hsettles, rfl⟩ | ⟨hsettles, b, hb, hop⟩
    · obtain ⟨hlogical, x, rfl, hdecides⟩ := of_settles hsettles
      exact evaluates_decided hlogical hlhs hdecides
    · have hconsulted : rhs ∈ (Expr.binary span op lhs rhs).consulted scope := by
        simp [Expr.consulted, ha, hsettles]
      have hrhs := evaluates_of_fold hb (he.part hconsulted)
      by_cases hlogical : op.isLogical = true
      · obtain ⟨x, y, rfl, rfl, rfl⟩ := of_binary?_logical hlogical hop
        exact evaluates_undecided hlogical hlhs hrhs hsettles
      · have hcompares : op.Compares a b :=
          Classical.byContradiction fun hnot => he.not_differs (.operator ha hb hnot)
        rw [Bool.not_eq_true] at hlogical
        refine .of_parts (fun r => by simp [Recur.evalNode, hlogical])
          (.cons hlhs (.cons hrhs .nil)) fun r => ?_
        change Eval.ofExcept (op.apply a.toValue b.toValue) = _
        rw [binary?_toValue hlogical hop hcompares]
        rfl
  | branch span test whenTrue whenFalse =>
    obtain ⟨a, ha, h⟩ := Option.bind_eq_some_iff.1 h
    have htest := evaluates_of_fold ha (he.part List.mem_cons_self)
    split at h
    · refine evaluates_branch htest (evaluates_of_fold h (he.part ?_))
      simp [Expr.consulted, ha]
    · refine evaluates_branch htest (evaluates_of_foldOr h fun part hpart => he.part ?_)
      simp [Expr.consulted, ha, Option.mem_toList.2 hpart]
    · cases h
  | block span stmts tail =>
    obtain rfl : stmts = [] := by
      cases stmts with
      | nil => rfl
      | cons stmt rest => cases h
    exact .of_evalNode (evaluates_of_foldOr h fun part hpart =>
      he.part (Option.mem_toList.2 hpart))
  | call span callee args =>
    cases callee with
    | name inner n =>
      rw [fold] at h
      by_cases hscope : (scope n).isSome = true
      · simp [hscope] at h
      · rw [if_neg hscope] at h
        obtain ⟨cs, hcs, hcall⟩ := Option.bind_eq_some_iff.1 h
        have hcompares : CallCompares n cs :=
          Classical.byContradiction fun hnot => he.not_differs (.builtin hcs hnot)
        obtain ⟨b, hb, hgiven⟩ := call?_toValue hcall hcompares
        have hunbound := he.nameBound (Option.not_isSome_iff_eq_none.1 hscope) b hb
        exact evaluates_call hunbound hb hgiven (evaluateAll_of_foldAll hcs fun part => he.part)
    | _ => cases h
  | _ => cases h

theorem evaluates_of_foldOr {e : Option Expr} {c : Const} (h : foldOr scope e = some c)
    (he : ∀ part ∈ e, Reliable scope env s part) :
    Eval.Delivers s.Untouched (fun fuel => (Recur.ofFuel fuel).evalOr e env) c.toValue := by
  cases e with
  | none =>
    cases h
    exact .pure _
  | some e => exact evaluates_of_fold h (he e rfl)

theorem evaluateAll_of_foldAll {es : List Expr} {cs : List Const}
    (h : foldAll scope es = some cs) (hes : ∀ e ∈ es, Reliable scope env s e) :
    EvaluateAll s env es cs := by
  cases es with
  | nil =>
    cases h
    exact .nil
  | cons e es =>
    obtain ⟨hhead, htail⟩ := List.forall_mem_cons.1 hes
    obtain ⟨c, hc, h⟩ := Option.bind_eq_some_iff.1 h
    obtain ⟨cs, hcs, h⟩ := Option.bind_eq_some_iff.1 h
    cases h
    exact EvaluateAll.cons (evaluates_of_fold hc hhead) (evaluateAll_of_foldAll hcs htail)

end

/-- An expression that folds evaluates to the value of its constant, with every bound that is large
enough, and leaves the log, the futures, the provider and all else alone. -/
theorem fold_agrees_with_evaluation (hbound : Bound scope env s) {e : Expr} {c : Const}
    (h : fold scope e = some c) (hstrays : ¬ e.Strays scope) :
    ∃ bound, ∀ fuel ≥ bound, ∃ t, evalWithin fuel e env s = .ok c.toValue t ∧ s.Untouched t := by
  obtain ⟨bound, hends⟩ := evaluates_of_fold h (.of_bound hbound hstrays)
  refine ⟨bound, fun fuel hfuel => ?_⟩
  obtain ⟨t, ht, heval⟩ := hends fuel hfuel s (.refl s)
  exact ⟨t, heval, ht⟩

end Const

end

namespace Const

/-- A state in which no program has been run yet. -/
def noProgram : Interpreter StockGateway :=
  .start ⟨(Check.collectSchemas []).table, [], []⟩ .default (.null [])

/-- `len("ab") < limit` -/
def withinLimit : Expr :=
  .binary .none .lt (.call .none (.name .none "len") [.literal .none (.text "ab")])
    (.name .none "limit")

def limitScope (name : String) : Option Const := if name = "limit" then some (int 3) else none

theorem bound_limitScope : Bound limitScope [[("limit", .int 3)]] noProgram := by
  refine ⟨fun {name c} h => ?_, fun {name b} h hb => ?_⟩
  · by_cases hname : name = "limit"
    · subst hname
      cases h
      exact .inl rfl
    · simp [limitScope, hname] at h
  · by_cases hname : name = "limit"
    · subst hname
      cases h
    · refine ⟨?_, rfl⟩
      simp [Env.lookup?, Env.lookupFrame?, fieldOf?, Ne.symm hname]

theorem not_strays_withinLimit : ¬ withinLimit.Strays limitScope := by
  have hname : ¬ (Expr.name .none "limit").Strays limitScope :=
    Expr.not_strays (by intro h; cases h) (List.forall_mem_nil _)
  have htext : ¬ (Expr.literal .none (.text "ab")).Strays limitScope :=
    Expr.not_strays (by intro h; cases h) (List.forall_mem_nil _)
  have hlen : ¬ (Expr.call .none (.name .none "len")
      [.literal .none (.text "ab")]).Strays limitScope := by
    refine Expr.not_strays (Expr.not_differs_call fun cs hcs => ?_)
      (List.forall_mem_singleton.2 htext)
    cases hcs
    exact trivial
  refine Expr.not_strays (Expr.not_differs_binary fun a b _ hb => ?_)
    (List.forall_mem_cons.2 ⟨hlen, List.forall_mem_singleton.2 hname⟩)
  cases hb
  exact fun hbool => absurd hbool.2 (by decide)

theorem text_within_limit_folds_as_it_evaluates :
    Bound limitScope [[("limit", .int 3)]] noProgram ∧
    fold limitScope withinLimit = some (bool true) ∧ ¬ withinLimit.Strays limitScope ∧
    ∃ bound, ∀ fuel ≥ bound, ∃ t,
      evalWithin fuel withinLimit [[("limit", .int 3)]] noProgram = .ok (.bool true) t ∧
        noProgram.Untouched t := by
  have hfold : fold limitScope withinLimit = some (bool true) := rfl
  exact ⟨bound_limitScope, hfold, not_strays_withinLimit,
    fold_agrees_with_evaluation bound_limitScope hfold not_strays_withinLimit⟩

/-- `9007199254740992 == 9007199254740993` -/
def neighbours : Expr :=
  .binary .none .eq (.literal .none (.int 9007199254740992))
    (.literal .none (.int 9007199254740993))

theorem fold_neighbours : fold (fun _ => none) neighbours = some (bool true) := by
  have htells : tells (int 9007199254740992) (int 9007199254740993) = false := by decide +kernel
  exact (equal_only_when_folded htells).1

theorem folding_strays_from_evaluation :
    ¬ ∀ (scope : String → Option Const) (env : Env) (s : Interpreter StockGateway) (e : Expr)
      (c : Const), Bound scope env s → fold scope e = some c →
        ∃ bound, ∀ fuel ≥ bound, ∃ t, evalWithin fuel e env s = .ok c.toValue t ∧ s.Untouched t := by
  intro h
  obtain ⟨bound, hends⟩ := h (fun _ => none) [] noProgram neighbours _
    ⟨fun h => (Option.some_ne_none _ h.symm).elim, fun _ _ => ⟨rfl, rfl⟩⟩ fold_neighbours
  obtain ⟨t, heval, -⟩ := hends (bound + 2) (by omega)
  have hfalse : evalWithin (bound + 2) neighbours [] noProgram = .ok (.bool false) noProgram := rfl
  cases heval.symm.trans hfalse

end Const

end StreamLang
