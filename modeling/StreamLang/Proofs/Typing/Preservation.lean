import StreamLang.Proofs.Lockstep.Diagonal
import StreamLang.Proofs.Typing.Core

/-! What an expression of the core fragment gives conforms to the type that the checker gives to it,
where that type holds. -/

namespace StreamLang

open Check

/-- Whatever value the computation ends with is as `P` says. -/
def Eval.Gives {σ α : Type} (P : α → Prop) (x : Eval σ α) : Prop := ∀ s a t, x s = .ok a t → P a

namespace Eval.Gives

variable {σ α β : Type} {P : α → Prop} {Q : β → Prop} {x : Eval σ α}

theorem pure {a : α} (h : P a) : Gives P (Pure.pure a : Eval σ α) := by
  intro s b t hb
  cases hb
  exact h

theorem fail (fault : Fault) : Gives P (Eval.fail fault : Eval σ α) := by
  intro s a t h
  cases h

theorem throw (u : Unwind) : Gives P (throw u : Eval σ α) := by
  intro s a t h
  cases h

theorem bind {f : α → Eval σ β} (hx : Gives P x) (hf : ∀ a, P a → Gives Q (f a)) :
    Gives Q (x >>= f) := by
  intro s b t h
  obtain ⟨a, u, ha, hb⟩ := Eval.bind_eq_ok h
  exact hf a (hx s a u ha) u b t hb

theorem anything (x : Eval σ α) : Gives (fun _ => True) x := fun _ _ _ _ => trivial

theorem imp {P' : α → Prop} (hx : Gives P x) (h : ∀ a, P a → P' a) : Gives P' x :=
  fun s a t ha => h a (hx s a t ha)

theorem located (hx : Gives P x) (line : Nat) : Gives P (x.located line) := by
  intro s a t h
  unfold Eval.located at h
  split at h
  · rename_i ha
    cases h
    exact hx s a t ha
  · cases h

theorem ofExcept {r : Except Fault α} (h : ∀ a, r = .ok a → P a) :
    Gives P (Eval.ofExcept r : Eval σ α) := by
  cases r with
  | ok a => exact .pure (h a rfl)
  | error fault => exact .fail fault

theorem and {P' : α → Prop} (hx : Gives P x) (hx' : Gives P' x) : Gives (fun a => P a ∧ P' a) x :=
  fun s a t ha => ⟨hx s a t ha, hx' s a t ha⟩

variable (f : α → Eval σ β) {a b : α}

theorem one (h : Gives Q (f a)) : Gives (fun bs => ∃ x, bs = [x] ∧ Q x) ([a].mapM f) := by
  rw [List.mapM_cons]
  exact h.bind fun x hx => .pure ⟨x, rfl, hx⟩

theorem two {R : β → Prop} (h : Gives Q (f a)) (hb : Gives R (f b)) :
    Gives (fun bs => ∃ x y, bs = [x, y] ∧ Q x ∧ R y) ([a, b].mapM f) := by
  rw [List.mapM_cons]
  refine h.bind fun x hx => (one f hb).bind ?_
  rintro _ ⟨y, rfl, hy⟩
  exact .pure ⟨x, y, rfl, hx, hy⟩

end Eval.Gives

open Eval (Gives)

variable {γ : Type} [Gateway γ] {w : World γ} {body : Body} {names : List String}

theorem gives_of_evalNode {env : Env} {e : Expr} {P : Value → Prop}
    (h : ∀ fuel, Gives P ((Recur.ofFuel fuel).evalNode e env : Run γ Value)) (fuel : Nat) :
    Gives P (evalWithin fuel e env : Run γ Value) := by
  cases fuel with
  | zero => exact .throw _
  | succ fuel => exact (h fuel).located e.line

/-- In the scopes and in the environment stands the same: a value that has the type, and that is the
constant if there is one. -/
def Knows (w : World γ) (names : List String) (scopes : Scopes) (env : Env) : Prop :=
  ∀ n ∈ names, ∃ b v, scopes.lookup? n = some b ∧ env.lookup? n = some v ∧ Has w v b.ty ∧
    ∀ c, b.constant = some c → v = c.toValue

/-- An expression that folds evaluates to nothing but the value of its constant. -/
theorem gives_of_fold {scope : String → Option Const} {env : Env} {e : Expr} {c : Const}
    (h : Const.fold scope e = some c)
    (he : ∀ s : Interpreter γ, Const.Reliable scope env s e) (fuel : Nat) :
    Gives (· = c.toValue) (evalWithin fuel e env : Run γ Value) := by
  intro s v t hv
  obtain ⟨bound, hends⟩ := Const.evaluates_of_fold h (he s)
  obtain ⟨t', -, hconstant⟩ := hends (max bound fuel) (Nat.le_max_left _ _) s (.refl s)
  have hbelow := (Recur.ofFuel_below (γ := γ) (Nat.le_max_right bound fuel)).eval e env
  rcases hbelow s with hsame | ⟨_, hexhausted⟩
  · cases (hconstant.symm.trans hsame).trans hv
    rfl
  · cases hv.symm.trans hexhausted

theorem Knows.reliable {scopes : Scopes} {env : Env} (h : Knows w names scopes env) {e : Expr}
    (hcore : e.Core names) (hstrays : ¬ e.Strays scopes.constant?) (s : Interpreter γ) :
    Const.Reliable scopes.constant? env s e := by
  intro sub hreach
  refine ⟨?_, fun hdiffers => hstrays ⟨sub, hreach, hdiffers⟩⟩
  have hsub := Expr.core_of_reaches hcore hreach
  cases sub with
  | name span n =>
    intro c hc
    obtain ⟨b, v, hb, hv, -, hconstant⟩ := h n hsub
    rw [Scopes.constant?, hb] at hc
    exact .inl (hv.trans (congrArg some (hconstant c hc)))
  | call => cases hsub
  | _ => trivial

theorem Knows.enter {scopes : Scopes} {env : Env} (h : Knows w names scopes env) :
    Knows w names scopes.enter env := h

theorem has_literal (l : Literal) : Has w (Value.ofLiteral l) (literalType l) := by
  refine ⟨by cases l <;> rfl, ?_⟩
  cases l with
  | int n => exact ⟨n, rfl⟩
  | float x => exact .inr ⟨x, rfl⟩
  | text s => exact ⟨s, rfl⟩
  | bool b => exact ⟨b, rfl⟩
  | void => rfl

/-- A further name is known with its value. -/
theorem Knows.declare {scopes scopes' : Scopes} {env : Env} (h : Knows w names scopes env)
    {n : String} {b : Binding} {v : Value} (hscopes : scopes.declare? n b = some scopes')
    (hv : Has w v b.ty) (hconstant : ∀ c, b.constant = some c → v = c.toValue) :
    Knows w (n :: names) scopes' (env.bind n v) := by
  intro m hm
  by_cases hmn : m = n
  · subst hmn
    exact ⟨b, v, Scopes.lookup?_of_declare?_self hscopes, Env.lookup?_bind_self env m v, hv,
      hconstant⟩
  · rw [Scopes.lookup?_of_declare?_of_ne hscopes hmn, Env.lookup?_bind_of_ne hmn]
    exact h m ((List.mem_cons.1 hm).resolve_left hmn)

/-- What is checked has a value that is as the type and the constant say. -/
theorem gives_of_strays {scopes : Scopes} {env : Env} {e : Expr} (hknows : Knows w names scopes env)
    (hcore : e.Core names) (hstrays : ¬ e.Strays scopes.constant?) (fuel : Nat) :
    Gives (fun v => ∀ c, Const.fold scopes.constant? e = some c → v = c.toValue)
      (evalWithin fuel e env : Run γ Value) :=
  fun s v t hv _ hc => gives_of_fold hc (hknows.reliable hcore hstrays) fuel s v t hv

theorem gives_logical {fuel : Nat} {op : BinaryOp} {lhs rhs : Expr} {env : Env} :
    Gives (fun v => ∃ b, v = .bool b)
      ((Recur.ofFuel fuel).evalLogical op lhs rhs env : Run γ Value) := by
  refine Gives.bind (.anything _) fun _ _ => .bind (.anything _) fun a _ => ?_
  split
  · exact .pure ⟨a, rfl⟩
  · exact .bind (.anything _) fun _ _ => .bind (.anything _) fun b _ => .pure ⟨b, rfl⟩

/-- The type of a branch holds of what the part behind the test gives. -/
theorem has_elseType {whenTrue : Ty} {whenFalse : Option Expr} {s : State} {v : Value}
    (hfirm : FirmElse body whenTrue whenFalse s) (hv : Has w v whenTrue) :
    Has w v (elseType body whenTrue whenFalse s).1 := by
  cases whenFalse with
  | none => exact hv.below hfirm
  | some e => exact hv.below hfirm.2.1

theorem gives_bindLet {fuel : Nat} {span inner : Span} {env : Env} (n : String) (v : Value) :
    Gives (· = env.bind n v)
      ((Recur.ofFuel fuel).bindLet span (.bind inner n) none v env : Run γ Env) := by
  refine Gives.bind (.anything _) fun _ _ => .bind (P := (· = [(n, v)])) (.located ?_ _) ?_
  · refine Gives.bind (.anything _) fun _ _ => ?_
    simp only [Pattern.bindings?]
    exact .pure rfl
  · rintro _ rfl
    exact .pure rfl

mutual

theorem gives_of_infer {e : Expr} {s : State} {env : Env} {names : List String}
    (hcore : e.Core names) (hfirm : Firm body e s) (hknows : Knows w names s.scopes env)
    (hclean : (infer body e s).2.Clean) (fuel : Nat) :
    Gives (fun v => Has w v (infer body e s).1) (evalWithin fuel e env : Run γ Value) := by
  refine gives_of_evalNode (fun fuel => ?_) fuel
  cases e with
  | literal span l => exact .pure (has_literal l)
  | name span n =>
    obtain ⟨b, v, hb, hv, hhas, -⟩ := hknows n hcore
    change Gives (fun v => Has w v (nameType n s).1) (Run.lookup n env)
    simp only [nameType_of_lookup? hb, Run.lookup, hv]
    exact .pure hhas
  | tuple span items =>
    refine Gives.bind (gives_all hcore hfirm hknows hclean fuel) fun vs hvs => .pure ?_
    exact ⟨hvs.1, vs, rfl, hvs.2⟩
  | select span target field =>
    have htarget := ((selectType_adds _ field span).quiet _ hclean).1
    refine Gives.bind (.one _ (gives_of_infer (e := target) hcore hfirm hknows htarget fuel)) ?_
    rintro _ ⟨v, rfl, hv⟩
    exact .ofExcept fun _ hselect => approves_selectType hv hselect hclean
  | index span target i =>
    have hi := ((indexType_adds _ _ i span).quiet _ hclean).1
    have htarget := ((infer_adds body i).quiet _ hi).1
    have hscopes := scopes_infer body target s
    have hvalue := gives_of_infer hcore.1 hfirm.1 hknows htarget fuel
    have hindex := gives_of_strays hknows hcore.2 hfirm.2.2 fuel
    refine Gives.bind (.two _ hvalue hindex) ?_
    rintro _ ⟨v, k, rfl, hv, hk⟩
    refine .ofExcept fun _ hselect => approves_indexType hv ?_ hselect hclean
    rwa [scopes_infer, scopes_infer]
  | binary span op lhs rhs =>
    have hrhs := ((binaryType_adds op _ _ lhs.span rhs.span span).quiet _ hclean).1
    have hlhs := ((infer_adds body rhs).quiet _ hrhs).1
    cases hlogical : op.isLogical with
    | true =>
      simp only [Recur.evalNode, hlogical, if_true]
      have hbool : (infer body (.binary span op lhs rhs) s).1 = .bool := binaryType_logical hlogical
      rw [hbool]
      exact gives_logical.imp fun _ hv => ⟨rfl, hv⟩
    | false =>
      simp only [Recur.evalNode, hlogical]
      have hl := gives_of_infer hcore.1 hfirm.1 hknows hlhs fuel
      have hr := gives_of_infer hcore.2 hfirm.2 (by rwa [scopes_infer]) hrhs fuel
      refine Gives.bind (.two _ hl hr) ?_
      rintro _ ⟨a, b, rfl, ha, hb⟩
      exact .ofExcept fun _ hop => approves_binaryType hlogical ha hb hop hclean
  | unary span op operand =>
    have hoperand := ((unaryType_adds op _ operand.span).quiet _ hclean).1
    refine Gives.bind (.one _ (gives_of_infer (e := operand) hcore hfirm hknows hoperand fuel)) ?_
    rintro _ ⟨v, rfl, hv⟩
    exact .ofExcept fun _ hop => approves_unaryType hv hop hclean
  | branch span test whenTrue whenFalse =>
    have hbranch := infer_branch hclean
    rw [hbranch] at hclean ⊢
    have htrue := ((elseType_adds body _ whenFalse).quiet _ hclean).1
    have htest := ((infer_adds body whenTrue).quiet _ htrue).1
    refine Gives.bind (.anything _) fun _ _ => .bind (.anything _) fun b _ => ?_
    have hknowsTrue : Knows w names (infer body test s).2.scopes env := by rwa [scopes_infer]
    split
    · refine (gives_of_infer hcore.2.1 hfirm.2.1 hknowsTrue htrue fuel).imp fun v hv => ?_
      exact has_elseType hfirm.2.2 hv
    · exact gives_else hcore.2.2 hfirm.2.2 (by rwa [scopes_infer]) hclean fuel
  | block span stmts tail =>
    obtain ⟨hty, hquiet⟩ := infer_block body span stmts tail s
    rw [hty]
    have htail := hquiet hclean
    have hstmts := ((inferOr_adds body tail).quiet _ htail).1
    exact gives_block hcore.1 hfirm.1 hknows.enter hstmts fuel fun env' hbehind =>
      gives_or hcore.2 hfirm.2 hbehind htail fuel
  | _ => cases hcore

theorem gives_or {e : Option Expr} {s : State} {env : Env} {names : List String}
    (hcore : Expr.CoreOr names e) (hfirm : FirmOr body e s) (hknows : Knows w names s.scopes env)
    (hclean : (inferOr body e s).2.Clean) (fuel : Nat) :
    Gives (fun v => Has w v (inferOr body e s).1)
      ((Recur.ofFuel fuel).evalOr e env : Run γ Value) := by
  cases e with
  | none => exact .pure ⟨rfl, rfl⟩
  | some e => exact gives_of_infer hcore hfirm hknows hclean fuel

theorem gives_else {whenTrue : Ty} {e : Option Expr} {s : State} {env : Env} {names : List String}
    (hcore : Expr.CoreOr names e) (hfirm : FirmElse body whenTrue e s)
    (hknows : Knows w names s.scopes env) (hclean : (elseType body whenTrue e s).2.Clean)
    (fuel : Nat) :
    Gives (fun v => Has w v (elseType body whenTrue e s).1)
      ((Recur.ofFuel fuel).evalOr e env : Run γ Value) := by
  cases e with
  | none => exact .pure ⟨rfl, rfl⟩
  | some e =>
    exact (gives_of_infer hcore hfirm.1 hknows hclean fuel).imp fun v hv => hv.below hfirm.2.2

theorem gives_all {es : List Expr} {s : State} {env : Env} {names : List String}
    (hcore : Expr.CoreAll names es) (hfirm : FirmAll body es s)
    (hknows : Knows w names s.scopes env) (hclean : (inferAll body es s).2.Clean) (fuel : Nat) :
    Gives (fun vs => Ty.coreAll (inferAll body es s).1 = true ∧
        ConformAll (inferAll body es s).1 w vs)
      (es.mapM (fun e => evalWithin fuel e env) : Run γ (List Value)) := by
  cases es with
  | nil => exact .pure ⟨rfl, trivial⟩
  | cons e rest =>
    have hrest : (inferAll body rest (infer body e s).2).2.Clean := hclean
    rw [List.mapM_cons]
    refine (gives_of_infer hcore.1 hfirm.1 hknows
      ((inferAll_adds body rest).quiet _ hrest).1 fuel).bind fun v hv => ?_
    refine (gives_all hcore.2 hfirm.2 (by rwa [scopes_infer]) hrest fuel).bind fun vs hvs => ?_
    exact .pure ⟨Bool.and_eq_true_iff.2 ⟨hv.1, hvs.1⟩, hv.2, hvs.2⟩

/-- Behind the statements, the names that they bind are known. -/
theorem gives_block {stmts : List Stmt} {tail : Option Expr} {P : Value → Prop} {s : State}
    {env : Env} {names : List String} (hcore : Expr.CoreStmts names stmts)
    (hfirm : FirmStmts body stmts s) (hknows : Knows w names s.scopes env)
    (hclean : (inferStmts body stmts s).2.Clean) (fuel : Nat)
    (htail : ∀ env, Knows w (Expr.letNames names stmts) (inferStmts body stmts s).2.scopes env →
      Gives P ((Recur.ofFuel fuel).evalOr tail env : Run γ Value)) :
    Gives P ((Recur.ofFuel fuel).evalBlock tail stmts env : Run γ Value) := by
  cases stmts with
  | nil => exact htail env hknows
  | cons stmt rest =>
    cases stmt with
    | expr e =>
      exact Gives.bind (.anything _) fun _ _ =>
        gives_block hcore.2 hfirm.2 (by rwa [scopes_infer]) hclean fuel htail
    | bind span pattern written value =>
      cases pattern with
      | bind inner n =>
        cases written with
        | none =>
          generalize hdeclared : (declareLet (.bind inner n) none value (infer body value s).1
            (infer body value s).2).2 = u
          have hstmts : inferStmts body (.bind span (.bind inner n) none value :: rest) s =
              inferStmts body rest u := by
            rw [← hdeclared]
            rfl
          have hfirmRest : FirmStmts body rest u := by
            rw [← hdeclared]
            exact hfirm.2.2
          rw [hstmts] at hclean htail
          have hu := ((inferStmts_declares body rest).quiet _ hclean).1
          rw [← hdeclared] at hu
          have hvalue := ((declareLet_declares _ none value _).quiet _ hu).1
          obtain ⟨unbounded, scopes, hscopes, hafter⟩ := declareLet_of_clean hu
          rw [hdeclared] at hafter
          rw [scopes_infer] at hscopes
          have hknown := (gives_of_infer hcore.1 hfirm.1 hknows hvalue fuel).and
            (gives_of_strays hknows hcore.1 hfirm.2.1 fuel)
          refine Gives.bind hknown fun v hv => .bind (gives_bindLet n v) ?_
          rintro _ rfl
          refine gives_block hcore.2 hfirmRest ?_ hclean fuel htail
          exact hafter ▸ hknows.declare hscopes hv.1 hv.2
        | some => cases hcore
      | _ => cases hcore

end

/-- What a closed expression of the core fragment gives conforms to the type that it has been
checked to have. -/
theorem evaluation_keeps_type {e : Expr} (hcore : e.Core []) {s : State} (hfirm : Firm body e s)
    (hclean : (infer body e s).2.Clean) {fuel : Nat} {env : Env} {t u : Interpreter γ} {v : Value}
    (h : evalWithin fuel e env t = .ok v u) (w : World γ) : Conforms (infer body e s).1 w v :=
  (gives_of_infer (w := w) hcore hfirm (List.forall_mem_nil _) hclean fuel t v u h).2

namespace Check

def nothingFound : State := ⟨(collectSchemas []).table, .empty, #[]⟩

/-- `{ let pair = (1, "one"); if pair[0] < 2 { pair[1] } else { "more" } }` -/
def nameOfPair : Expr :=
  .block .none
    [.bind .none (.bind .none "pair") none
      (.tuple .none [.literal .none (.int 1), .literal .none (.text "one")])]
    (some (.branch .none
      (.binary .none .lt (.index .none (.name .none "pair") (.literal .none (.int 0)))
        (.literal .none (.int 2)))
      (.index .none (.name .none "pair") (.literal .none (.int 1)))
      (some (.literal .none (.text "more")))))

theorem firm_nameOfPair : Firm .module nameOfPair nothingFound := by
  have hliteral (l : Literal) (scope : String → Option Const) :
      ¬ (Expr.literal .none l).Strays scope :=
    Expr.not_strays (by intro h; cases h) (List.forall_mem_nil _)
  have htuple (scope : String → Option Const) (items : List Expr) :
      ¬ (Expr.tuple .none items).Strays scope :=
    Expr.not_strays (by intro h; cases h) (List.forall_mem_nil _)
  have hbranch : Ty.Below .text (Ty.text.join .text) := .refl _
  exact ⟨⟨⟨trivial, trivial, trivial⟩, htuple _ _, trivial⟩,
    ⟨⟨trivial, trivial, hliteral _ _⟩, trivial⟩, ⟨trivial, trivial, hliteral _ _⟩, trivial,
    hbranch, hbranch⟩

theorem one_is_a_text :
    nameOfPair.Core [] ∧ Firm .module nameOfPair nothingFound ∧
    (infer .module nameOfPair nothingFound).2.Clean ∧
    Conforms (infer .module nameOfPair nothingFound).1 (⟨Const.noProgram, [], none⟩ : World StockGateway)
      (.text "one") := by
  have hinfer : infer .module nameOfPair nothingFound = (.text, nothingFound) := rfl
  have hcore : nameOfPair.Core [] := by
    simp [nameOfPair, Expr.Core, Expr.CoreStmts, Expr.CoreAll, Expr.CoreOr, Expr.letNames]
    decide
  have hclean : (infer .module nameOfPair nothingFound).2.Clean := by
    rw [hinfer]
    exact fun d hd => absurd hd (Array.not_mem_empty d)
  have heval : evalWithin 5 nameOfPair [] Const.noProgram = .ok (.text "one") Const.noProgram := rfl
  exact ⟨hcore, firm_nameOfPair, hclean,
    evaluation_keeps_type hcore firm_nameOfPair hclean heval _⟩

/-- `if true { 5 }` -/
def onlyIf : Expr :=
  .branch .none (.literal .none (.bool true)) (.block .none [] (some (.literal .none (.int 5))))
    none

theorem evaluation_loses_type_of_if_without_else :
    ¬ ∀ (body : Body) (e : Expr) (s : State) (fuel : Nat) (env : Env)
      (t u : Interpreter StockGateway) (v : Value), e.Core [] → (infer body e s).2.Clean →
        evalWithin fuel e env t = .ok v u →
          ∀ w : World StockGateway, Conforms (infer body e s).1 w v := by
  intro h
  have hinfer : infer .module onlyIf nothingFound = (.void, nothingFound) := rfl
  have heval : evalWithin 3 onlyIf [] Const.noProgram = .ok (.int 5) Const.noProgram := rfl
  have hvoid := h .module onlyIf nothingFound 3 [] _ _ _ ⟨trivial, ⟨trivial, trivial⟩, trivial⟩ ?_
    heval ⟨Const.noProgram, [], none⟩
  · rw [hinfer] at hvoid
    cases hvoid
  · rw [hinfer]
    exact fun d hd => absurd hd (Array.not_mem_empty d)

end Check

end StreamLang
