import StreamLang.Proofs.Evaluation.Judgement

/-! The lines of failures. Wherever expressions have lines, a failure of an evaluation has the line
of the innermost expression that raised it: those around leave it as it is. -/

namespace StreamLang

namespace Eval

variable {σ α β ι : Type}

/-- Whatever the line of what stands around, failures keep their own. -/
def Pinned (x : Eval σ α) : Prop := ∀ line, x.located line = x

theorem located_bind (x : Eval σ α) (f : α → Eval σ β) (line : Nat) :
    (x >>= f).located line = x.located line >>= fun a => (f a).located line := by
  funext s
  cases hx : x s with
  | ok a t =>
    have hlocated : x.located line s = .ok a t := by rw [located, hx]
    rw [bind_of_ok hlocated, located, bind_of_ok hx]
    rfl
  | error u t =>
    have hlocated : x.located line s = .error (u.locate line) t := by rw [located, hx]
    rw [bind_of_error hlocated, located, bind_of_error hx]

theorem located_eq_ok {x : Eval σ α} {line : Nat} {s t : σ} {a : α}
    (h : x.located line s = .ok a t) : x s = .ok a t := by
  rw [located] at h
  cases hx : x s with
  | ok b t' =>
    rw [hx] at h
    exact h
  | error u t' =>
    rw [hx] at h
    cases h

theorem located_eq_fail {x : Eval σ α} {outer line : Nat} {s t : σ} {fault : Fault}
    (h : x.located outer s = .error (.fail fault line) t) :
    ∃ inner, x s = .error (.fail fault inner) t ∧ line = if inner = 0 then outer else inner := by
  rw [located] at h
  cases hx : x s with
  | ok a t' =>
    rw [hx] at h
    cases h
  | error u t' =>
    rw [hx] at h
    cases u with
    | fail fault' inner =>
      cases inner with
      | zero =>
        cases h
        exact ⟨0, rfl, rfl⟩
      | succ inner =>
        cases h
        exact ⟨inner + 1, rfl, rfl⟩
    | early v inner => cases h
    | exhausted => cases h

theorem located_located {inner : Nat} (h : inner ≠ 0) (x : Eval σ α) :
    (x.located inner).Pinned := by
  intro line
  funext s
  rw [located, located]
  cases x s with
  | ok a t => rfl
  | error u t => exact congrArg (EStateM.Result.error · t) (Unwind.locate_locate h line u)

namespace Pinned

theorem pure (a : α) : Pinned (Pure.pure a : Eval σ α) := fun _ => rfl

theorem exhausted : Pinned (throw .exhausted : Eval σ α) := fun _ => rfl

theorem failAt {line : Nat} (h : line ≠ 0) (fault : Fault) :
    Pinned (Eval.failAt fault line : Eval σ α) := by
  intro outer
  cases line with
  | zero => exact absurd rfl h
  | succ line => rfl

theorem modifyGet (f : σ → α × σ) : Pinned (modifyGet f : Eval σ α) := fun _ => rfl

theorem get : Pinned (get : Eval σ σ) := fun _ => rfl

theorem bind {x : Eval σ α} {f : α → Eval σ β} (hx : x.Pinned) (hf : ∀ a, (f a).Pinned) :
    (x >>= f).Pinned := by
  intro line
  rw [located_bind, hx line]
  exact bind_congr fun a => hf a line

theorem forM {f : ι → Eval σ PUnit} (h : ∀ i, (f i).Pinned) (is : List ι) :
    (is.forM f).Pinned := by
  induction is with
  | nil => exact pure _
  | cons i is ih => exact bind (h i) fun _ => ih

theorem mapM {f : ι → Eval σ α} {is : List ι} (h : ∀ i ∈ is, (f i).Pinned) :
    (is.mapM f).Pinned := by
  induction is with
  | nil =>
    rw [List.mapM_nil]
    exact pure _
  | cons i is ih =>
    rw [List.mapM_cons]
    exact bind (h i (.head _)) fun a => bind (ih fun j hj => h j (.tail _ hj)) fun as => pure _

/-- A failure has a line. -/
theorem line_ne_zero {x : Eval σ α} (hx : x.Pinned) {s t : σ} {fault : Fault} {line : Nat}
    (h : x s = .error (.fail fault line) t) : line ≠ 0 := by
  rintro rfl
  have hlocated : x.located 1 s = .error (.fail fault 1) t := by
    rw [located, h]
    rfl
  rw [hx 1, h] at hlocated
  cases hlocated

end Pinned

end Eval

open Eval (Pinned)

namespace Recur

variable {γ : Type} (r : Recur γ) {line : Nat}

theorem checkPredicate_pinned (hline : line ≠ 0) (name : String) (v : Value) :
    (r.checkPredicate name v line).Pinned := by
  refine Pinned.get.bind fun s => ?_
  dsimp only
  split
  · exact .pure _
  · refine (Eval.located_located hline _).bind fun w => ?_
    split
    · exact .pure _
    · exact .failAt hline _

mutual

theorem checkRefinements_pinned (hline : line ≠ 0) (ty : Ty) (v : Value) :
    (r.checkRefinements line ty v).Pinned := by
  cases ty with
  | refined name base =>
    rw [checkRefinements]
    exact (r.checkPredicate_pinned hline name v).bind fun _ => checkRefinements_pinned hline base v
  | list elem =>
    cases v with
    | list items => exact .forM (checkRefinements_pinned hline elem) items
    | set items => exact .forM (checkRefinements_pinned hline elem) items
    | _ => exact .pure _
  | set elem =>
    cases v with
    | list items => exact .forM (checkRefinements_pinned hline elem) items
    | set items => exact .forM (checkRefinements_pinned hline elem) items
    | _ => exact .pure _
  | option inner =>
    cases v with
    | option w => cases w with
      | none => exact .pure _
      | some w => exact checkRefinements_pinned hline inner w
    | _ => exact .pure _
  | tuple tys =>
    cases v with
    | tuple items => exact checkItems_pinned hline tys items
    | _ => exact .pure _
  | _ => exact .pure _
termination_by structural ty

theorem checkItems_pinned (hline : line ≠ 0) (tys : List Ty) (vs : List Value) :
    (r.checkItems line tys vs).Pinned := by
  cases tys with
  | nil => exact .pure _
  | cons ty tys => cases vs with
    | nil => exact .pure _
    | cons v vs =>
      rw [checkItems]
      exact (checkRefinements_pinned hline ty v).bind fun _ => checkItems_pinned hline tys vs
termination_by structural tys

end

theorem checkOptional_pinned (hline : line ≠ 0) (ty : Option TypeExpr) (v : Value) :
    (r.checkOptional ty v line).Pinned := by
  cases ty with
  | none => exact .pure _
  | some ty =>
    refine Pinned.get.bind fun s => ?_
    split
    · exact .failAt hline _
    · exact r.checkRefinements_pinned hline _ v

/-- A `let` with a line gives its failures a line. -/
theorem bindLet_pinned {span : Span} (hspan : span.line ≠ 0) (pattern : Pattern)
    (ty : Option TypeExpr) (v : Value) (env : Env) :
    (r.bindLet span pattern ty v env).Pinned :=
  (r.checkOptional_pinned hspan ty v).bind fun _ =>
    (Eval.located_located hspan _).bind fun _ => .pure _

end Recur

namespace Expr

/-- The first expression is evaluated as part of the second, or it is that expression. -/
inductive Inside (x : Expr) : Expr → Prop
  | self : Inside x x
  | part {part e : Expr} (hpart : part ∈ e.within) (h : Inside x part) : Inside x e

theorem Inside.trans {x y z : Expr} (hxy : x.Inside y) (hyz : y.Inside z) : x.Inside z := by
  induction hyz with
  | self => exact hxy
  | part hpart h ih => exact .part hpart ih

/-- The expression, all expressions inside it and all the `let`s there have lines. -/
structure Lined (e : Expr) : Prop where
  line : ∀ x : Expr, x.Inside e → x.line ≠ 0
  binding : ∀ (outer : Span) (stmts : List Stmt) (tail : Option Expr),
    (block outer stmts tail).Inside e → ∀ (span : Span) (pattern : Pattern) (ty : Option TypeExpr)
      (value : Expr), .bind span pattern ty value ∈ stmts → span.line ≠ 0

theorem Lined.inside {x e : Expr} (h : e.Lined) (hx : x.Inside e) : x.Lined :=
  ⟨fun y hy => h.line y (hy.trans hx),
    fun outer stmts tail hblock => h.binding outer stmts tail (hblock.trans hx)⟩

theorem Lined.part {part e : Expr} (h : e.Lined) (hpart : part ∈ e.within) : part.Lined :=
  h.inside (.part hpart .self)

theorem Lined.of_parts {e : Expr} (hline : e.line ≠ 0)
    (hlets : ∀ (outer : Span) (stmts : List Stmt) (tail : Option Expr), e = block outer stmts tail →
      ∀ (span : Span) (pattern : Pattern) (ty : Option TypeExpr) (value : Expr),
        .bind span pattern ty value ∈ stmts → span.line ≠ 0)
    (hparts : ∀ part ∈ e.within, part.Lined) : e.Lined where
  line x hx := by
    cases hx with
    | self => exact hline
    | part hpart hx => exact (hparts _ hpart).line x hx
  binding outer stmts tail hx := by
    cases hx with
    | self => exact hlets outer stmts tail rfl
    | part hpart hx => exact (hparts _ hpart).binding outer stmts tail hx

end Expr

namespace Recur

variable {γ : Type}

/-- The expression itself fails, after its parts had values. The line is 0 where nothing that was
done for it gave the failure a line. -/
inductive Raises (r : Recur γ) (fault : Fault) (line : Nat) (t : Interpreter γ) : Expr → Prop
  | name {span : Span} {n : String} {env : Env} {s : Interpreter γ}
      (h : Run.lookup n env s = .error (.fail fault line) t) : Raises r fault line t (.name span n)
  | test {span : Span} {test whenTrue : Expr} {whenFalse : Option Expr} {env : Env} {v : Value}
      {s s' : Interpreter γ} (hv : r.eval test env s = .ok v s')
      (h : Run.truth .branch v s' = .error (.fail fault line) t) :
      Raises r fault line t (.branch span test whenTrue whenFalse)
  | operand {span : Span} {op : BinaryOp} {lhs rhs part : Expr} {env : Env} {v : Value}
      {s s' : Interpreter γ} (hop : op.isLogical = true) (hpart : part = lhs ∨ part = rhs)
      (hv : r.eval part env s = .ok v s')
      (h : Run.truth .operand v s' = .error (.fail fault line) t) :
      Raises r fault line t (.binary span op lhs rhs)
  | guard {span : Span} {scrutinee guard : Expr} {arms : List MatchArm} {arm : MatchArm} {env : Env}
      {v : Value} {s s' : Interpreter γ} (harm : arm ∈ arms) (hguard : arm.guard = some guard)
      (hv : r.eval guard env s = .ok v s')
      (h : Run.truth .guard v s' = .error (.fail fault line) t) :
      Raises r fault line t (.cases span scrutinee arms)
  | noArm {span : Span} {scrutinee : Expr} {arms : List MatchArm} {v : Value}
      (hfault : fault = .noArm v) (hline : line = 0) :
      Raises r fault line t (.cases span scrutinee arms)
  | binding {outer span : Span} {stmts : List Stmt} {tail : Option Expr} {pattern : Pattern}
      {ty : Option TypeExpr} {value : Expr} {env : Env} {v : Value} {s s' : Interpreter γ}
      (hstmt : .bind span pattern ty value ∈ stmts) (hv : r.eval value env s = .ok v s')
      (h : r.bindLet span pattern ty v env s' = .error (.fail fault line) t) :
      Raises r fault line t (.block outer stmts tail)
  | await {span : Span} {future : Expr} {env : Env} {v : Value} {s s' : Interpreter γ}
      (hv : r.eval future env s = .ok v s')
      (h : Run.awaitSettled v span.line s' = .error (.fail fault line) t) :
      Raises r fault line t (.await span future)
  | attempt {span : Span} {inner : Expr} {env : Env} {v : Value} {s s' : Interpreter γ}
      (hv : r.eval inner env s = .ok v s')
      (h : Run.attempt v span.line s' = .error (.fail fault line) t) :
      Raises r fault line t (.attempt span inner)
  | combine {e : Expr} {env : Env} {vs : List Value} {s s' : Interpreter γ}
      (hvs : e.operands.mapM (fun part => r.eval part env) s = .ok vs s')
      (h : r.combine e env vs s' = .error (.fail fault line) t) : Raises r fault line t e

/-- A part of the expression is evaluated and fails in this way. -/
def PartFails (r : Recur γ) (e : Expr) (fault : Fault) (line : Nat) (t : Interpreter γ) : Prop :=
  ∃ part ∈ e.within, ∃ env s, r.eval part env s = .error (.fail fault line) t

variable {r : Recur γ} {fault : Fault} {line : Nat} {env : Env} {s t : Interpreter γ}

theorem mapM_fails {es : List Expr}
    (h : es.mapM (fun part => r.eval part env) s = .error (.fail fault line) t) :
    ∃ part ∈ es, ∃ s', r.eval part env s' = .error (.fail fault line) t := by
  induction es generalizing s with
  | nil => cases h
  | cons e es ih =>
    rw [List.mapM_cons] at h
    rcases Eval.bind_eq_error h with h | ⟨v, s₁, hv, h⟩
    · exact ⟨e, .head _, s, h⟩
    · rcases Eval.bind_eq_error h with h | ⟨vs, s₂, hvs, h⟩
      · obtain ⟨part, hpart, s', hfails⟩ := ih h
        exact ⟨part, .tail _ hpart, s', hfails⟩
      · cases h

theorem evalParts_fails {e : Expr} (h : r.evalParts e env s = .error (.fail fault line) t) :
    r.PartFails e fault line t ∨ r.Raises fault line t e := by
  rcases Eval.bind_eq_error h with h | ⟨vs, s₁, hvs, h⟩
  · obtain ⟨part, hpart, s', hfails⟩ := mapM_fails h
    exact .inl ⟨part, Expr.mem_within_of_operands hpart, env, s', hfails⟩
  · exact .inr (.combine hvs h)

theorem firstArm_fails {span : Span} {scrutinee : Expr} {v : Value}
    {arms taken : List MatchArm} (hsub : taken ⊆ arms)
    (h : r.firstArm v env taken s = .error (.fail fault line) t) :
    r.PartFails (.cases span scrutinee arms) fault line t ∨
      r.Raises fault line t (.cases span scrutinee arms) := by
  induction taken generalizing s with
  | nil =>
    cases h
    exact .inr (.noArm rfl rfl)
  | cons arm rest ih =>
    obtain ⟨harm, hrest⟩ := List.cons_subset.1 hsub
    replace ih := fun {s : Interpreter γ} => ih (s := s) hrest
    rcases Eval.bind_eq_error h with h | ⟨s₁, s₂, -, h⟩
    · cases h
    cases hbindings : arm.pattern.bindings? s₁.scheduler.futures v with
    | none =>
      rw [hbindings] at h
      exact ih h
    | some bindings =>
      rw [hbindings] at h
      rcases Eval.bind_eq_error h with h | ⟨holds, s₃, -, h⟩
      · cases hguard : arm.guard with
        | none =>
          rw [hguard] at h
          cases h
        | some guard =>
          rw [hguard] at h
          rcases Eval.bind_eq_error h with h | ⟨w, s₄, hw, h⟩
          · refine .inl ⟨guard, ?_, _, _, h⟩
            refine List.mem_cons_of_mem _ (List.mem_flatMap.2 ⟨arm, harm, ?_⟩)
            simp [hguard]
          · exact .inr (.guard harm hguard hw h)
      · cases holds with
        | true => cases h
        | false => exact ih h

theorem selectArm_fails {span : Span} {scrutinee : Expr} {arms : List MatchArm} {v : Value}
    (h : r.selectArm v env arms s = .error (.fail fault line) t) :
    r.PartFails (.cases span scrutinee arms) fault line t ∨
      r.Raises fault line t (.cases span scrutinee arms) := by
  cases v with
  | future id =>
    rcases Eval.bind_eq_error h with h | ⟨_, s₁, -, h⟩
    · cases h
    · exact firstArm_fails (List.Subset.refl _) h
  | _ => exact firstArm_fails (List.Subset.refl _) h

theorem evalOr_fails {e : Option Expr} (h : r.evalOr e env s = .error (.fail fault line) t) :
    ∃ part ∈ e.toList, ∃ env s, r.eval part env s = .error (.fail fault line) t := by
  cases e with
  | none => cases h
  | some e => exact ⟨e, .head _, env, s, h⟩

theorem evalBlock_fails {span : Span} {stmts rest : List Stmt} {tail : Option Expr}
    (hsub : rest ⊆ stmts) (h : r.evalBlock tail rest env s = .error (.fail fault line) t) :
    r.PartFails (.block span stmts tail) fault line t ∨
      r.Raises fault line t (.block span stmts tail) := by
  have hstmt : ∀ {stmt : Stmt} {env : Env} {s : Interpreter γ}, stmt ∈ stmts →
      r.eval stmt.inner env s = .error (.fail fault line) t →
      r.PartFails (.block span stmts tail) fault line t := fun hstmt hfails =>
    ⟨_, List.mem_append_left _ (List.mem_map_of_mem hstmt), _, _, hfails⟩
  induction rest generalizing env s with
  | nil =>
    obtain ⟨part, hpart, env', s', hfails⟩ := evalOr_fails h
    exact .inl ⟨part, List.mem_append_right _ hpart, env', s', hfails⟩
  | cons stmt rest ih =>
    obtain ⟨hmem, hrest⟩ := List.cons_subset.1 hsub
    cases stmt with
    | bind inner pattern ty value =>
      rcases Eval.bind_eq_error h with h | ⟨v, s₁, hv, h⟩
      · exact .inl (hstmt hmem h)
      · rcases Eval.bind_eq_error h with h | ⟨env', s₂, -, h⟩
        · exact .inr (.binding hmem hv h)
        · exact ih hrest h
    | expr e =>
      rcases Eval.bind_eq_error h with h | ⟨v, s₁, -, h⟩
      · exact .inl (hstmt hmem h)
      · exact ih hrest h

/-- What fails fails in a part or by itself. -/
theorem evalNode_fails {e : Expr} (h : r.evalNode e env s = .error (.fail fault line) t) :
    r.PartFails e fault line t ∨ r.Raises fault line t e := by
  cases e with
  | literal span l => cases h
  | name span n => exact .inr (.name h)
  | closure span decl => cases h
  | async span body => cases h
  | branch span test whenTrue whenFalse =>
    rcases Eval.bind_eq_error h with h | ⟨v, s₁, hv, h⟩
    · exact .inl ⟨test, .head _, env, s, h⟩
    · rcases Eval.bind_eq_error h with h | ⟨b, s₂, -, h⟩
      · exact .inr (.test hv h)
      · cases b with
        | true => exact .inl ⟨whenTrue, .tail _ (.head _), env, s₂, h⟩
        | false =>
          obtain ⟨part, hpart, env', s', hfails⟩ := evalOr_fails h
          exact .inl ⟨part, .tail _ (.tail _ hpart), env', s', hfails⟩
  | cases span scrutinee arms =>
    rcases Eval.bind_eq_error h with h | ⟨v, s₁, hv, h⟩
    · exact .inl ⟨scrutinee, .head _, env, s, h⟩
    · rcases Eval.bind_eq_error h with h | ⟨taken, s₂, hs₂, h⟩
      · exact selectArm_fails h
      · obtain ⟨arm, harm, hbody⟩ := Expr.selectArm_mem hs₂
        have hpart : taken.1 ∈ arms.flatMap fun arm => arm.guard.toList ++ [arm.body] := by
          rw [hbody]
          exact List.mem_flatMap.2 ⟨arm, harm, by simp⟩
        exact .inl ⟨taken.1, .tail _ hpart, taken.2, s₂, h⟩
  | block span stmts tail => exact evalBlock_fails (List.Subset.refl _) h
  | await span future =>
    rcases Eval.bind_eq_error h with h | ⟨v, s₁, hv, h⟩
    · exact .inl ⟨future, .head _, env, s, h⟩
    · exact .inr (.await hv h)
  | attempt span inner =>
    rcases Eval.bind_eq_error h with h | ⟨v, s₁, hv, h⟩
    · exact .inl ⟨inner, .head _, env, s, h⟩
    · exact .inr (.attempt hv h)
  | binary span op lhs rhs =>
    rw [evalNode] at h
    split at h
    · rename_i hop
      rcases Eval.bind_eq_error h with h | ⟨v, s₁, hv, h⟩
      · exact .inl ⟨lhs, .head _, env, s, h⟩
      · rcases Eval.bind_eq_error h with h | ⟨a, s₂, -, h⟩
        · exact .inr (.operand hop (.inl rfl) hv h)
        · split at h
          · cases h
          · rcases Eval.bind_eq_error h with h | ⟨w, s₃, hw, h⟩
            · exact .inl ⟨rhs, .tail _ (.head _), env, s₂, h⟩
            · rcases Eval.bind_eq_error h with h | ⟨b, s₄, -, h⟩
              · exact .inr (.operand hop (.inr rfl) hw h)
              · cases h
    · exact evalParts_fails h
  | _ => exact evalParts_fails h

end Recur

section

variable {γ : Type} [Gateway γ]

/-- A failure of an expression with a line has a line. -/
theorem Recur.eval_pinned {e : Expr} (h : e.line ≠ 0) (n : Nat) (env : Env) :
    ((Recur.ofFuel (γ := γ) n).eval e env).Pinned := by
  cases n with
  | zero => exact .exhausted
  | succ n => exact Eval.located_located h _

/-- The expression is to blame: it fails by itself, at this line, which is its own unless the
failure had one. -/
def Expr.Blamed (e : Expr) (fault : Fault) (line : Nat) (t : Interpreter γ) : Prop :=
  ∃ n inner, (Recur.ofFuel n).Raises fault inner t e ∧ line = if inner = 0 then e.line else inner

/-- A failure has the line of the innermost expression, which is to blame. -/
theorem exists_blamed {n : Nat} {e : Expr} {env : Env} {s t : Interpreter γ} {fault : Fault}
    {line : Nat} (hlined : e.Lined) (h : evalWithin n e env s = .error (.fail fault line) t) :
    ∃ x : Expr, x.Inside e ∧ x.Blamed fault line t := by
  induction n generalizing e env s line with
  | zero => cases h
  | succ n ih =>
    obtain ⟨inner, hnode, hline⟩ := Eval.located_eq_fail h
    rcases Recur.evalNode_fails hnode with ⟨part, hpart, env', s', hfails⟩ | hraises
    · have hlined' := hlined.part hpart
      have hinner : inner ≠ 0 :=
        (Recur.eval_pinned (hlined'.line part .self) n env').line_ne_zero hfails
      obtain ⟨x, hx, hblamed⟩ := ih hlined' hfails
      rw [if_neg hinner] at hline
      exact ⟨x, .part hpart hx, hline ▸ hblamed⟩
    · exact ⟨e, .self, n, inner, hraises, hline⟩

end

end StreamLang
