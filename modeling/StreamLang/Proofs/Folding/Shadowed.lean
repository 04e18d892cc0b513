import StreamLang.Check.Program
import StreamLang.Proofs.Folding.Agreement

/-! Calls of names that the program binds. The folding knows of a name only whether it stands for a constant;
a function, an import, a parameter or any other value of the name of a builtin is nothing to it. Where
each bound name of a builtin that folds stands for a constant, the folding takes for a builtin only what
is one: among the names the checker knows, and at run time. -/

namespace StreamLang

namespace Const

/-- The names of the builtins that fold. -/
def foldable : List String := ["len", "abs", "upper", "lower", "contains"]

theorem mem_foldable_of_call? {name : String} {args : List Const} {c : Const}
    (h : call? name args = some c) : name ∈ foldable := by
  unfold call? at h
  split at h
  case h_9 => cases h
  all_goals decide

theorem exists_builtin {name : String} (h : name ∈ foldable) :
    ∃ b, Builtin.ofName? name = some b := by
  simp only [foldable, List.mem_cons, List.not_mem_nil, or_false] at h
  rcases h with rfl | rfl | rfl | rfl | rfl <;> exact ⟨_, rfl⟩

variable {scope : String → Option Const}

/-- A call folds only if its name is that of a builtin and stands for no constant. -/
theorem of_fold_call {span inner : Span} {name : String} {args : List Expr}
    (h : (fold scope (.call span (.name inner name) args)).isSome = true) :
    name ∈ foldable ∧ scope name = none := by
  rw [fold] at h
  split at h
  · cases h
  · rename_i hscope
    obtain ⟨c, hc⟩ := Option.isSome_iff_exists.1 h
    obtain ⟨cs, -, hcall⟩ := Option.bind_eq_some_iff.1 hc
    exact ⟨mem_foldable_of_call? hcall, Option.not_isSome_iff_eq_none.1 hscope⟩

theorem isSome_of_mem_foldAll {es : List Expr} {cs : List Const} (h : foldAll scope es = some cs)
    {e : Expr} (he : e ∈ es) : (fold scope e).isSome = true := by
  induction es generalizing cs with
  | nil => cases he
  | cons first es ih =>
    obtain ⟨c, hc, h⟩ := Option.bind_eq_some_iff.1 h
    obtain ⟨cs, hcs, -⟩ := Option.bind_eq_some_iff.1 h
    rcases List.mem_cons.1 he with rfl | he
    · rw [hc]
      rfl
    · exact ih hcs he

/-- What an expression folds by folds itself. -/
theorem isSome_of_consulted {e part : Expr} (h : (fold scope e).isSome = true)
    (hpart : part ∈ e.consulted scope) : (fold scope part).isSome = true := by
  obtain ⟨c, hc⟩ := Option.isSome_iff_exists.1 h
  cases e with
  | list span items =>
    obtain ⟨cs, hcs, -⟩ := Option.map_eq_some_iff.1 hc
    exact isSome_of_mem_foldAll hcs hpart
  | unary span op operand =>
    obtain ⟨a, ha, -⟩ := Option.bind_eq_some_iff.1 hc
    cases List.mem_singleton.1 hpart
    rw [ha]
    rfl
  | binary span op lhs rhs =>
    obtain ⟨a, ha, hrest⟩ := of_fold_binary hc
    rcases List.mem_cons.1 hpart with rfl | hrhs
    · rw [ha]
      rfl
    · rcases hrest with ⟨hsettles, -⟩ | ⟨hsettles, b, hb, -⟩
      · simp [ha, hsettles] at hrhs
      · obtain rfl : part = rhs := by simpa [ha, hsettles] using hrhs
        rw [hb]
        rfl
  | branch span test whenTrue whenFalse =>
    obtain ⟨a, ha, hbranch⟩ := Option.bind_eq_some_iff.1 hc
    rcases List.mem_cons.1 hpart with rfl | hrest
    · rw [ha]
      rfl
    · rw [ha] at hrest
      split at hbranch
      · obtain rfl : part = whenTrue := by simpa using hrest
        rw [hbranch]
        rfl
      · obtain rfl : whenFalse = some part := by simpa using hrest
        rw [foldOr] at hbranch
        rw [hbranch]
        rfl
      · cases hbranch
  | block span stmts tail =>
    cases stmts with
    | nil =>
      obtain rfl : tail = some part := by simpa [Expr.consulted] using hpart
      exact h
    | cons stmt rest => cases hc
  | call span callee args =>
    cases callee with
    | name inner g =>
      rw [fold] at hc
      split at hc
      · cases hc
      · obtain ⟨cs, hcs, -⟩ := Option.bind_eq_some_iff.1 hc
        exact isSome_of_mem_foldAll hcs hpart
    | _ => cases hc
  | _ => cases hpart

theorem isSome_of_reaches {e sub : Expr} (hreach : e.Reaches scope sub)
    (h : (fold scope e).isSome = true) : (fold scope sub).isSome = true := by
  induction hreach with
  | refl e => exact h
  | part hpart _ ih => exact ih (isSome_of_consulted h hpart)

end Const

/-- The folding of the expression comes to a call of this name. -/
def Expr.FoldsCall (scope : String → Option Const) (e : Expr) (name : String) : Prop :=
  ∃ span inner args, e.Reaches scope (.call span (.name inner name) args)

/-- An expression that folds has no call in its folding but those of builtins that stand for no constant. -/
theorem Expr.FoldsCall.foldable {scope : String → Option Const} {e : Expr} {name : String}
    (h : e.FoldsCall scope name) (hfolds : (Const.fold scope e).isSome = true) :
    name ∈ Const.foldable ∧ scope name = none := by
  obtain ⟨span, inner, args, hreach⟩ := h
  exact Const.of_fold_call (Const.isSome_of_reaches hreach hfolds)

/-- At run time the name is that of the builtin. -/
def Run.CallsBuiltin {γ : Type} (name : String) (env : Env) (t : Interpreter γ) : Prop :=
  ∃ b, Builtin.ofName? name = some b ∧ Run.lookup name env t = Run.newFunction (.builtin b) t

theorem Const.Unbound.callsBuiltin {γ : Type} {name : String} {env : Env} {t : Interpreter γ}
    (h : Unbound env t name) (hname : name ∈ foldable) : Run.CallsBuiltin name env t := by
  obtain ⟨b, hb⟩ := exists_builtin hname
  exact ⟨b, hb, lookup_builtin h (.refl t) hb⟩

namespace Scopes

/-- Each bound name of a builtin that folds stands for a constant. -/
def Plain (s : Scopes) : Prop :=
  ∀ name ∈ Const.foldable, ∀ b, s.lookup? name = some b → b.constant.isSome = true

/-- Each name of a builtin that folds and that is bound at the top of the other module can be seen here as a
constant of this one. -/
def Shows (s : Scopes) (home : Scope) : Prop :=
  ∀ name ∈ Const.foldable, (Keyed.get? name home).isSome = true →
    (s.globalConstant? name).isSome = true

variable {s : Scopes}

theorem Plain.lookup?_eq_none (h : s.Plain) {name : String} (hname : name ∈ Const.foldable)
    (hscope : s.constant? name = none) : s.lookup? name = none := by
  cases hb : s.lookup? name with
  | none => rfl
  | some b =>
    have hconstant := h name hname b hb
    rw [constant?, hb, Option.bind_some] at hscope
    rw [hscope] at hconstant
    cases hconstant

theorem withValue_eq_none {candidate : Const} {scope : String → Option Const} {name : String}
    (h : Const.withValue candidate scope name = none) : name ≠ "value" ∧ scope name = none := by
  rw [Const.withValue] at h
  split at h
  · cases h
  · rename_i hne
    exact ⟨fun heq => hne (beq_iff_eq.2 heq), h⟩

theorem Shows.get?_eq_none {home : Scope} (h : s.Shows home) {name : String}
    (hname : name ∈ Const.foldable) (hscope : s.globalConstant? name = none) :
    Keyed.get? name home = none := by
  cases hb : Keyed.get? name home with
  | none => rfl
  | some b =>
    have hconstant := h name hname (by rw [hb]; rfl)
    rw [hscope] at hconstant
    cases hconstant

end Scopes

namespace Const

/-- A verdict is what the predicate folds to. -/
theorem fold_of_refinementHolds? {a : AliasSchema} {p : Expr} {candidate : Const}
    {scope : String → Option Const} {verdict : Bool} (hp : a.predicate = some p)
    (h : refinementHolds? a candidate scope = some verdict) :
    fold (withValue candidate scope) p = some (bool verdict) := by
  unfold refinementHolds? at h
  rw [hp] at h
  dsimp only at h
  split at h
  · rename_i b hb
    cases h
    exact hb
  · cases h

/-- For an expression that folds only the builtins that fold need be free. -/
theorem evaluates_of_calls {γ : Type} [Gateway γ] {scope : String → Option Const} {env : Env}
    {t : Interpreter γ} (hknown : ∀ {name c}, scope name = some c → StandsFor env t name c)
    (hcalls : ∀ name ∈ foldable, scope name = none → Unbound env t name) {e : Expr} {c : Const}
    (h : fold scope e = some c) (hstrays : ¬ e.Strays scope) : Evaluates t env e c := by
  refine evaluates_of_fold h fun sub hreach => ⟨?_, fun hdiffers => hstrays ⟨sub, hreach, hdiffers⟩⟩
  unfold NameBound
  split
  · exact fun _ => hknown
  · rename_i name args
    intro hscope _ _
    have hcall := of_fold_call (isSome_of_reaches hreach (by rw [h]; rfl))
    exact hcalls name hcall.1 hscope
  · trivial

/-- Among the names of a predicate there is only the candidate, besides those of the module. -/
theorem lookup?_candidate {name : String} (h : name ≠ "value") (v : Value) :
    (Env.empty.bind "value" v).lookup? name = none := by
  simp [Env.bind, Env.extend, Env.empty, Env.lookup?, Env.lookupFrame?, fieldOf?, Ne.symm h]

end Const

namespace Check

/-- Where each bound name of a builtin that folds stands for a constant, a call of a bound name does not fold.
What folds comes to calls of builtins only, which they are at run time too, if nothing is bound there
that the checker does not know. So it is with the predicate of an alias, among the names of its module. -/
theorem folded_calls_are_of_builtins (s : Scopes) :
    (s.Plain →
      (∀ span inner name args, (s.lookup? name).isSome = true →
        Const.fold s.constant? (.call span (.name inner name) args) = none) ∧
      ∀ e, (Const.fold s.constant? e).isSome = true → ∀ name, e.FoldsCall s.constant? name →
        s.lookup? name = none ∧ ∀ (γ : Type) (env : Env) (t : Interpreter γ),
          (s.lookup? name = none → Const.Unbound env t name) → Run.CallsBuiltin name env t) ∧
    ∀ home, s.Shows home → ∀ candidate,
      (∀ span inner name args, (Keyed.get? name home).isSome = true ∨ name = "value" →
        Const.fold (Const.withValue candidate s.globalConstant?)
          (.call span (.name inner name) args) = none) ∧
      ∀ a p, AliasSchema.predicate a = some p →
        (Const.refinementHolds? a candidate s.globalConstant?).isSome = true →
        ∀ name, p.FoldsCall (Const.withValue candidate s.globalConstant?) name →
          Keyed.get? name home = none ∧ ∀ (γ : Type) (v : Value) (t : Interpreter γ),
            (Keyed.get? name home = none → t.global? t.current name = none) →
              Run.CallsBuiltin name (Env.empty.bind "value" v) t := by
  refine ⟨fun hplain => ⟨?_, ?_⟩, fun home hshows candidate => ⟨?_, ?_⟩⟩
  · intro span inner name args hbound
    refine Option.not_isSome_iff_eq_none.1 fun hfolds => ?_
    obtain ⟨hname, hscope⟩ := Const.of_fold_call hfolds
    rw [hplain.lookup?_eq_none hname hscope] at hbound
    cases hbound
  · intro e hfolds name hcall
    obtain ⟨hname, hscope⟩ := hcall.foldable hfolds
    have hunbound := hplain.lookup?_eq_none hname hscope
    exact ⟨hunbound, fun γ env t hknown => (hknown hunbound).callsBuiltin hname⟩
  · intro span inner name args hbound
    refine Option.not_isSome_iff_eq_none.1 fun hfolds => ?_
    obtain ⟨hname, hscope⟩ := Const.of_fold_call hfolds
    obtain ⟨hvalue, hglobal⟩ := Scopes.withValue_eq_none hscope
    rcases hbound with hbound | rfl
    · rw [hshows.get?_eq_none hname hglobal] at hbound
      cases hbound
    · exact hvalue rfl
  · intro a p hp hverdict name hcall
    obtain ⟨verdict, hverdict⟩ := Option.isSome_iff_exists.1 hverdict
    have hfolds := Const.fold_of_refinementHolds? hp hverdict
    obtain ⟨hname, hscope⟩ := hcall.foldable (by rw [hfolds]; rfl)
    obtain ⟨hvalue, hglobal⟩ := Scopes.withValue_eq_none hscope
    have hhome := hshows.get?_eq_none hname hglobal
    exact ⟨hhome, fun γ v t hknown =>
      Const.Unbound.callsBuiltin ⟨Const.lookup?_candidate hvalue v, hknown hhome⟩ hname⟩

/-- So a tuple element and a `let` are decided by what the expression evaluates to. Left out are the
comparisons that have another answer at run time. -/
theorem constant_is_evaluated {γ : Type} [Gateway γ] {s : Scopes} {env : Env} {t : Interpreter γ}
    (hplain : s.Plain)
    (hconstants : ∀ name c, s.constant? name = some c → Const.StandsFor env t name c)
    (hknown : ∀ name, s.lookup? name = none → Const.Unbound env t name)
    {e : Expr} {c : Const} (hfolds : Const.fold s.constant? e = some c)
    (hstrays : ¬ e.Strays s.constant?) : Const.Evaluates t env e c :=
  Const.evaluates_of_calls (hconstants _ _)
    (fun name hname hscope => hknown name (hplain.lookup?_eq_none hname hscope)) hfolds hstrays

/-- And a value that is rejected before the program runs is one that the predicate rejects. -/
theorem verdict_is_evaluated {γ : Type} [Gateway γ] {s : Scopes} {t : Interpreter γ}
    (hshows : s.Shows s.globals)
    (hconstants : ∀ name c, s.globalConstant? name = some c →
      t.global? t.current name = some c.toValue)
    (hknown : ∀ name, Keyed.get? name s.globals = none → t.global? t.current name = none)
    {a : AliasSchema} {p : Expr} {candidate : Const} {verdict : Bool} (hp : a.predicate = some p)
    (hverdict : Const.refinementHolds? a candidate s.globalConstant? = some verdict)
    (hstrays : ¬ p.Strays (Const.withValue candidate s.globalConstant?)) :
    Const.Evaluates t (Env.empty.bind "value" candidate.toValue) p (.bool verdict) := by
  refine Const.evaluates_of_calls (fun {name c} hc => ?_) (fun name hname hscope => ?_)
    (Const.fold_of_refinementHolds? hp hverdict) hstrays
  · rw [Const.withValue] at hc
    split at hc
    · rename_i hvalue
      cases hc
      rw [beq_iff_eq.1 hvalue]
      exact .inl rfl
    · rename_i hvalue
      have hne : name ≠ "value" := fun heq => hvalue (beq_iff_eq.2 heq)
      exact .inr ⟨Const.lookup?_candidate hne _, hconstants name c hc⟩
  · obtain ⟨hvalue, hglobal⟩ := Scopes.withValue_eq_none hscope
    exact ⟨Const.lookup?_candidate hvalue _, hknown name (hshows.get?_eq_none hname hglobal)⟩

/-- The scope of a module with a constant `limit` and a function `double`. -/
def limitAndDouble : Scopes :=
  ⟨[("double", .ofTy (.function [.int] .int)), ("limit", ⟨.int, some (.int 3), false⟩)], []⟩

/-- `len(value) < limit` -/
def shorter : Expr :=
  .binary .none .lt (.call .none (.name .none "len") [.name .none "value"]) (.name .none "limit")

/-- `type Short = String where len(value) < limit` -/
def short : AliasSchema := ⟨"Short", .text, some shorter⟩

theorem plain_limitAndDouble : limitAndDouble.Plain := by
  intro name hname b hb
  simp only [Const.foldable, List.mem_cons, List.not_mem_nil, or_false] at hname
  rcases hname with rfl | rfl | rfl | rfl | rfl <;> cases hb

theorem shows_limitAndDouble : limitAndDouble.Shows limitAndDouble.globals := by
  intro name hname hb
  simp only [Const.foldable, List.mem_cons, List.not_mem_nil, or_false] at hname
  rcases hname with rfl | rfl | rfl | rfl | rfl <;> cases hb

/-- The call that the folding of a comparison looks at first. -/
theorem foldsCall_of_lhs {scope : String → Option Const} (name : String) (args : List Expr)
    (rhs : Expr) :
    (Expr.binary .none .lt (.call .none (.name .none name) args) rhs).FoldsCall scope name :=
  ⟨.none, .none, args, .part List.mem_cons_self (.refl _)⟩

theorem len_is_no_function_of_the_module :
    limitAndDouble.Plain ∧ limitAndDouble.Shows limitAndDouble.globals ∧
    (Const.fold limitAndDouble.constant? Const.withinLimit).isSome = true ∧
    Const.withinLimit.FoldsCall limitAndDouble.constant? "len" ∧
    (Const.refinementHolds? short (.text "ab") limitAndDouble.globalConstant?).isSome = true ∧
    shorter.FoldsCall (Const.withValue (.text "ab") limitAndDouble.globalConstant?) "len" ∧
    (limitAndDouble.lookup? "double").isSome = true ∧
    Const.fold limitAndDouble.constant? (.call .none (.name .none "double") []) = none ∧
    limitAndDouble.lookup? "len" = none ∧ Run.CallsBuiltin "len" [] Const.noProgram ∧
    Run.CallsBuiltin "len" (Env.empty.bind "value" (.text "ab")) Const.noProgram := by
  obtain ⟨hexpr, hpredicate⟩ := folded_calls_are_of_builtins limitAndDouble
  obtain ⟨hbound, hcalls⟩ := hexpr plain_limitAndDouble
  obtain ⟨-, hverdicts⟩ := hpredicate limitAndDouble.globals shows_limitAndDouble (.text "ab")
  have hfolds : (Const.fold limitAndDouble.constant? Const.withinLimit).isSome = true := rfl
  have hlen : Const.withinLimit.FoldsCall limitAndDouble.constant? "len" := foldsCall_of_lhs _ _ _
  have hverdict : (Const.refinementHolds? short (.text "ab")
    limitAndDouble.globalConstant?).isSome = true := rfl
  have hpart : shorter.FoldsCall (Const.withValue (.text "ab") limitAndDouble.globalConstant?)
    "len" := foldsCall_of_lhs _ _ _
  have hdouble : (limitAndDouble.lookup? "double").isSome = true := rfl
  obtain ⟨hunbound, hrun⟩ := hcalls Const.withinLimit hfolds "len" hlen
  obtain ⟨-, hrun'⟩ := hverdicts short shorter rfl hverdict "len" hpart
  exact ⟨plain_limitAndDouble, shows_limitAndDouble, hfolds, hlen, hverdict, hpart, hdouble,
    hbound .none .none "double" [] hdouble, hunbound,
    hrun _ [] Const.noProgram fun _ => ⟨rfl, rfl⟩, hrun' _ (.text "ab") Const.noProgram fun _ => rfl⟩

/-- The scope of a module with a function `abs`. -/
def ownAbs : Scopes := ⟨[("abs", .ofTy (.function [.int] .int))], []⟩

theorem own_abs_folds :
    ¬ ∀ (s : Scopes) (span inner : Span) (name : String) (args : List Expr),
      (s.lookup? name).isSome = true →
        Const.fold s.constant? (.call span (.name inner name) args) = none := by
  intro h
  have hnone := h ownAbs .none .none "abs" [.literal .none (.int 5)] rfl
  have hfive : Const.fold ownAbs.constant? (.call .none (.name .none "abs")
    [.literal .none (.int 5)]) = some (.int 5) := rfl
  cases hfive.symm.trans hnone

end Check

end StreamLang
