import StreamLang.Proofs.Charter.Evaluator
import StreamLang.Proofs.Unreachable.Run

/-! Supervised runs. A watch asks something of the state before each expression is evaluated, before the
values of its parts are made into its value, and before each step of a machine, and does something of
its own where the answer is no. A run that goes on as the supervised one does, whatever that is, has
always got the answer yes. -/

namespace StreamLang

/-- What is asked, and what is done where the answer is no. -/
structure Watch (γ : Type) where
  /-- Before the expression is evaluated in the scope. -/
  entering : Expr → Env → Interpreter γ → Prop
  /-- Before the values are made into the value of the expression. -/
  combining : Expr → Env → List Value → Interpreter γ → Prop
  /-- Before the frame at the top goes on with the value. -/
  working : List TaskFrame → Value → Interpreter γ → Prop
  alarm : Run γ PUnit

variable {γ : Type}

section

open Classical

/-- Does what is given where the state is not as it should be. -/
noncomputable def Run.ensure (P : Interpreter γ → Prop) (alarm : Run γ PUnit) : Run γ PUnit :=
  fun s => if P s then .ok ⟨⟩ s else alarm s

end

variable (w : Watch γ)

namespace Recur

noncomputable def supervisedParts (r : Recur γ) (e : Expr) (env : Env) : Run γ Value := do
  let vs ← e.operands.mapM fun part => r.eval part env
  Run.ensure (w.combining e env vs) w.alarm
  r.combine e env vs

noncomputable def supervisedNode (r : Recur γ) (e : Expr) (env : Env) : Run γ Value := do
  Run.ensure (w.entering e env) w.alarm
  if e.isFromParts then r.supervisedParts w e env else r.evalNode e env

/-- The evaluator under the watch. -/
noncomputable def supervised [Gateway γ] : Nat → Recur γ
  | 0 => ofFuel 0
  | fuel + 1 =>
    { fuel := fuel + 1
      eval e env := ((supervised fuel).supervisedNode w e env).located e.line
      call := (supervised fuel).callValue }

/-- Works a stack of frames off under the watch. -/
noncomputable def supervisedStack (r : Recur γ) (module : Nat) (root : Bool) :
    Nat → List TaskFrame → Value → Run γ TaskStep
  | 0, _, _ => throw .exhausted
  | _ + 1, [], v => return .complete v
  | fuel + 1, frame :: stack, v => do
    Run.ensure (w.working (frame :: stack) v) w.alarm
    match ← r.stepFrame frame v with
    | .value v => supervisedStack r module root fuel stack v
    | .push frames => supervisedStack r module root fuel (frames ++ stack) .void
    | .suspend on frame => return .suspend on (.machine ⟨frame :: stack, module, root⟩)
    | .fail f => return .fail f

noncomputable def supervisedBody (r : Recur γ) : TaskBody → Run γ TaskStep
  | .machine m => Run.inModule m.module (r.supervisedStack w m.module m.root r.fuel m.stack .void)
  | .combinator c => r.runCombinator c

/-- A slice under the watch. -/
noncomputable def supervisedSlice (r : Recur γ) (body : TaskBody) : Run γ TaskStep := fun s =>
  match r.supervisedBody w body s with
  | .ok step s => .ok step s
  | .error u s =>
    match u.taskStep? body.isRoot with
    | some step => .ok step s
    | none => .error u s

end Recur

/-- The run under the watch. -/
noncomputable def Runner.supervised [Gateway γ] (fuel : Nat) : Runner γ :=
  ⟨Recur.supervised w fuel, (Recur.supervised w fuel).supervisedSlice w⟩

variable {w} {α : Type} {C : Charter} {due : FutureId → Value → Prop} {m : Nat}

/-- What is as the charter says is as the watch asks. -/
structure Watch.Met (w : Watch γ) (C : Charter) : Prop where
  entering : ∀ {due s e env}, C.State due s → C.code s.current env e → C.AllFine (Env.values env) →
    w.entering e env s
  combining : ∀ {due s e env vs}, C.State due s → C.code s.current env e → C.AllFine (Env.values env) →
    e.isFromParts = true → C.AllFine vs → List.Forall₂ (C.gives s.current env) e.operands vs →
    w.combining e env vs s
  working : ∀ {due s Q frames v}, C.State due s → C.Stack s.current Q frames v → C.Fine v →
    w.working frames v s

/-- Asks for nothing. -/
def Watch.idle : Watch γ := ⟨fun _ _ _ => True, fun _ _ _ _ => True, fun _ _ _ => True, pure ⟨⟩⟩

theorem Watch.idle_met : (Watch.idle (γ := γ)).Met C :=
  ⟨fun _ _ _ => trivial, fun _ _ _ _ _ _ => trivial, fun _ _ _ => trivial⟩

/-- The answer is yes. -/
theorem Run.Under.ensure {P : α → Prop} {x y : Run γ α} (h : Under C due m P x y)
    {asked : Interpreter γ → Prop} (alarm : Run γ PUnit)
    (hasked : ∀ s, C.State due s → s.current = m → asked s) :
    Under C due m P x (Run.ensure asked alarm >>= fun _ => y) := by
  intro s hs hm
  have hyes : Run.ensure asked alarm s = .ok ⟨⟩ s := if_pos (hasked s hs hm)
  rw [Eval.bind_of_ok hyes]
  exact h s hs hm

namespace Recur.Obeys

variable [Gateway γ] (hC : C.Lawful γ) (hw : w.Met C) {r r' : Recur γ} (h : r.Obeys C due r')
include hC hw h

theorem supervisedNode {e : Expr} {env : Env} (he : C.code m env e) (henv : C.AllFine env.values) :
    Run.Under C due m (fun v => C.Fine v ∧ C.gives m env e v) (r.evalNode e env)
      (r'.supervisedNode w e env) := by
  refine .ensure ?_ _ fun s hs hm => hw.entering hs (hm ▸ he) henv
  cases hfrom : e.isFromParts with
  | true =>
    rw [Expr.evalNode_of_isFromParts hfrom]
    refine .bind (h.evalOperands hC hfrom he henv) fun vs hvs => ?_
    refine .ensure (h.combineGiven hC hfrom he henv hvs.1 hvs.2) _ fun s hs hm => ?_
    subst hm
    exact hw.combining hs he henv hfrom hvs.1 hvs.2
  | false => exact h.evalNode hC he henv

end Recur.Obeys

/-- Every watch that the charter meets is kept by the evaluator. -/
theorem Recur.supervised_obeys [Gateway γ] (hC : C.Lawful γ) (hw : w.Met C)
    (due : FutureId → Value → Prop) (fuel : Nat) :
    (Recur.ofFuel (γ := γ) fuel).Obeys C due (Recur.supervised w fuel) := by
  induction fuel with
  | zero => exact ⟨rfl, fun _ _ => .exhausted, fun _ _ => .exhausted, hC.combined⟩
  | succ fuel ih =>
    exact ⟨rfl, fun he henv => .located (ih.supervisedNode hC hw he henv) _, ih.callValue hC,
      hC.combined⟩

end StreamLang
