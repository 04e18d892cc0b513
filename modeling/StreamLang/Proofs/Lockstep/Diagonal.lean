import StreamLang.Proofs.Bound.Meaning
import StreamLang.Proofs.Keeps
import StreamLang.Proofs.Lockstep.Machine

/-! A run beside itself, maybe with a larger bound. No code is ruled out, and the two runs are in the
same state at all times. So what ends within a bound ends in the same way within every larger one; and
a property of states that every single change keeps is kept by the whole run. -/

namespace StreamLang

theorem BlockHolds.all (tail : Option Expr) (bound : List String) (stmts : List Stmt) :
    BlockHolds (fun _ _ => True) tail bound stmts := by
  induction stmts generalizing bound with
  | nil => exact fun _ _ => trivial
  | cons stmt rest ih => cases stmt with
    | bind span pattern ty e => exact ⟨trivial, ih _⟩
    | expr e => exact ⟨trivial, ih _⟩

/-- All code. -/
def Regime.all : Regime .all where
  expr _ _ _ := True
  effects := True
  future _ := trivial
  operands _ _ _ := trivial
  methodName _ := trivial
  branch _ := ⟨trivial, trivial, fun _ _ => trivial⟩
  cases _ := ⟨trivial, fun _ _ => ⟨fun _ _ => trivial, trivial⟩⟩
  block _ := .all _ _ _
  attempt _ := trivial
  async _ := ⟨trivial, trivial⟩
  await _ := ⟨trivial, trivial⟩
  closure _ _ _ := trivial
  enter _ := ⟨fun _ => trivial, trivial⟩
  builtin _ := .inr trivial

theorem Combinator.permitted_all (c : Combinator) : c.Permitted .all := by
  cases c with
  | onError source handler => exact handler.permitted_all
  | onComplete source handler => exact handler.permitted_all
  | andThen source handler => exact handler.permitted_all
  | all sources values => exact Value.items_permitted_all values
  | forward source => trivial

theorem TaskFrame.permitted_all (m : Nat) (frame : TaskFrame) : frame.Permitted .all m := by
  cases frame with
  | operand e env done =>
    exact ⟨trivial, Value.frames_permitted_all env, Value.items_permitted_all done⟩
  | block e env next pending =>
    cases pending with
    | bind index => exact ⟨fun _ _ _ _ => .all _ _ _, Value.frames_permitted_all env⟩
    | discard => exact ⟨fun _ _ => .all _ _ _, Value.frames_permitted_all env⟩
  | eval e env | branch e env | arms e env | logic e env =>
    exact ⟨trivial, Value.frames_permitted_all env⟩
  | _ => trivial

theorem TaskBody.permitted_all (body : TaskBody) : body.Permitted .all := by
  cases body with
  | machine m => exact fun frame _ => frame.permitted_all m.module
  | combinator c => exact c.permitted_all

/-- The module whose names are in scope, how many calls are under way, and how many there may be. -/
structure Standing where
  module : Nat
  depth : Nat
  limit : Nat

def Interpreter.standing {γ : Type} (s : Interpreter γ) : Standing :=
  ⟨s.current, s.depth, s.options.maxCallDepth⟩

/-- The program that is being run, and its options: what evaluation reads and never changes. -/
structure Loaded where
  options : Options
  schemas : SchemaTable
  pure : List FunctionId
  modules : Array ModuleScope

def Interpreter.loaded {γ : Type} (s : Interpreter γ) : Loaded :=
  ⟨s.options, s.schemas, s.pure, s.modules⟩

/-- The single changes that evaluation makes to a state keep the property. -/
structure Interpreter.Kept {γ : Type} [Gateway γ] (Q : Interpreter γ → Prop) : Prop where
  /-- Nothing changes but what the evaluator has for itself. -/
  inside : ∀ {s t}, Q s → t.outside = s.outside → t.log = s.log → t.depth = s.depth →
    t.loaded = s.loaded → Q t
  log : ∀ {s}, Q s → ∀ line, Q { s with log := s.log.push line }
  deeper : ∀ {s}, Q s → s.depth < s.options.maxCallDepth → Q { s with depth := s.depth + 1 }
  shallower : ∀ {s}, Q s → Q { s with depth := s.depth - 1 }
  markObserved : ∀ {s}, Q s → ∀ id, Q { s with scheduler := s.scheduler.markObserved id }
  settledFuture : ∀ {s}, Q s → ∀ state : FutureState, state.isPending = false → Q { s with
    scheduler := s.scheduler.createFuture.2.settle s.scheduler.createFuture.1 state }
  spawn : ∀ {s}, Q s → ∀ body, Q { s with scheduler := (s.scheduler.spawn body).2 }
  dispatch : ∀ {s}, Q s → ∀ op args, Q (endState (Run.dispatch op args s))

theorem Run.loaded_dispatch {γ : Type} [Gateway γ] (op : ServiceOp) (args : List Json)
    (s : Interpreter γ) : (endState (Run.dispatch op args s)).loaded = s.loaded := by
  cases hreply : Gateway.dispatch ⟨s.nextRequest, op, args⟩ s.gateway with
  | mk reply gateway => cases reply with
    | ok _ =>
      rw [Run.dispatch_of_ok hreply]
      rfl
    | error message =>
      rw [Run.dispatch_of_error hreply]
      rfl

/-- What depends only on the program that is being run. -/
theorem Interpreter.kept_of_loaded {γ : Type} [Gateway γ] {P : Interpreter γ → Prop}
    (hP : ∀ {s t}, P s → t.loaded = s.loaded → P t) : Kept P where
  inside hs _ _ _ hloaded := hP hs hloaded
  log hs _ := hP hs rfl
  deeper hs _ := hP hs rfl
  shallower hs := hP hs rfl
  markObserved hs _ := hP hs rfl
  settledFuture hs _ _ := hP hs rfl
  spawn hs _ := hP hs rfl
  dispatch hs op args := hP hs (Run.loaded_dispatch op args _)

namespace Terms

variable (T : Terms) (hpermit : ∀ v : Value, v.Permitted T.permit)
include hpermit

theorem sameState_refl (state : FutureState) : T.SameState state state := by
  cases state with
  | pending => exact .pending
  | resolved v => exact .resolved (hpermit v)
  | failed f => exact .failed (hpermit _) (.refl _)

theorem unwinds_refl (u : Unwind) : T.Unwinds u u := by
  cases u with
  | fail fault line => exact .fail fault (.refl line)
  | early v line => exact .early (hpermit v) (.refl line)
  | exhausted => exact .exhausted

end Terms

theorem Run.standing_dispatch {γ : Type} [Gateway γ] (op : ServiceOp) (args : List Json)
    (s : Interpreter γ) : (endState (Run.dispatch op args s)).standing = s.standing := by
  cases hreply : Gateway.dispatch ⟨s.nextRequest, op, args⟩ s.gateway with
  | mk reply gateway => cases reply with
    | ok _ => rw [Run.dispatch_of_ok hreply]; rfl
    | error message => rw [Run.dispatch_of_error hreply]; rfl

namespace Pairing

variable {γ α : Type} {larger : Prop} {Q : Interpreter γ → Prop}

/-- Twice the same state, which has the property. When the bound of the second run is larger, the
first may run out of its bound alone. -/
def diagonal (γ : Type) (larger : Prop) (Q : Interpreter γ → Prop) : Pairing γ where
  terms :=
    { permit := .all
      lines := True
      excused := fun u => larger ∧ u = .exhausted
      not_excused_early := by rintro v line ⟨_, ⟨⟩⟩
      excused_locate := by
        rintro _ line ⟨hlarger, rfl⟩
        exact ⟨hlarger, rfl⟩ }
  regime := .all
  Place := Standing
  module := Standing.module
  inModule p module := { p with module }
  deeper p := { p with depth := p.depth + 1 }
  recurs _ _ := True
  state p s t := t = s ∧ s.standing = p ∧ Q s

variable {p : Standing}

/-- A computation that keeps the property and the place. -/
theorem diagonal_steady {P : α → Prop} {x : Run γ α} (hP : ∀ a, P a)
    (hx : ∀ s, Q s → Q (endState (x s)) ∧ (endState (x s)).standing = s.standing) :
    (diagonal γ larger Q).Steady p P x := by
  rintro _ s ⟨rfl, rfl, hs⟩
  obtain ⟨hend, hstanding⟩ := hx s hs
  generalize x s = r at hend hstanding ⊢
  cases r with
  | ok a s' => exact .value ⟨rfl, hP a⟩ ⟨rfl, hstanding, hend⟩
  | error u s' =>
    exact .unwinding (Terms.unwinds_refl _ Value.permitted_all u) ⟨rfl, hstanding, hend⟩

theorem diagonal_get {P : α → Prop} {f : Interpreter γ → Run γ α}
    (h : ∀ s, (diagonal γ larger Q).Steady p P (f s)) :
    (diagonal γ larger Q).Steady p P (get >>= f) := by
  refine .get_bind ?_
  rintro _ s ⟨rfl, -⟩
  exact h s

/-- Both runs end in the same way, in a state that has the property, at the place where they began. -/
theorem diagonal_ends {V : α → α → Prop} (hV : ∀ a b, V a b → a = b) {x y : Run γ α}
    {s : Interpreter γ}
    (h : Eval.Lockstep (diagonal γ larger Q).terms ((diagonal γ larger Q).state s.standing) V x y)
    (hs : Q s) :
    (y s = x s ∧ Q (endState (x s)) ∧ (endState (x s)).standing = s.standing) ∨
      (larger ∧ ∃ t, x s = .error .exhausted t) := by
  have hends := h s s ⟨rfl, rfl, hs⟩
  generalize x s = r, y s = r' at hends ⊢
  cases hends with
  | value hab hend =>
    obtain rfl := hV _ _ hab
    obtain ⟨rfl, hstanding, hQ⟩ := hend
    exact .inl ⟨rfl, hQ, hstanding⟩
  | unwinding hu hend =>
    obtain ⟨rfl, hstanding, hQ⟩ := hend
    have hsame := hu.eq trivial
    subst hsame
    exact .inl ⟨rfl, hQ, hstanding⟩
  | @excused u t _ hu =>
    obtain ⟨hlarger, rfl⟩ := hu
    exact .inr ⟨hlarger, t, rfl⟩

theorem diagonal_same {V : α → α → Prop} (hV : ∀ a b, V a b → a = b) {x y : Run γ α}
    {s : Interpreter γ}
    (h : Eval.Lockstep (diagonal γ False Q).terms ((diagonal γ False Q).state s.standing) V x y)
    (hs : Q s) :
    y s = x s ∧ Q (endState (x s)) ∧ (endState (x s)).standing = s.standing := by
  rcases diagonal_ends hV h hs with hsame | ⟨⟨⟩, -⟩
  exact hsame

variable [Gateway γ] (hQ : Interpreter.Kept Q)
include hQ

theorem diagonal_aligned : (diagonal γ larger Q).Aligned where
  module_inModule _ _ := rfl
  module_deeper _ := rfl
  current := by
    rintro p _ s ⟨rfl, rfl, _⟩
    exact ⟨rfl, rfl⟩
  depth := by
    rintro p _ s ⟨rfl, _⟩
    rfl
  line := by
    rintro p _ s ⟨rfl, _⟩ _
    rfl
  identity := by
    rintro p _ s ⟨rfl, _⟩
    rfl
  enterModule := by
    rintro p _ s ⟨rfl, rfl, hs⟩ module
    exact ⟨rfl, rfl, hQ.inside hs rfl rfl rfl rfl⟩
  leaveModule := by
    rintro ⟨before, depth, limit⟩ module _ s ⟨rfl, hp, hs⟩
    obtain ⟨-, rfl, rfl⟩ := Standing.mk.inj hp
    exact ⟨rfl, rfl, hQ.inside hs rfl rfl rfl rfl⟩
  enterCall := by
    rintro p _ s _ s' ⟨rfl, hp, _⟩ hroom ⟨rfl, hp', hs'⟩
    obtain ⟨hmodule, hdepth, hlimit⟩ := Standing.mk.inj (hp.trans hp'.symm)
    rw [hdepth, hlimit] at hroom
    subst hp'
    exact ⟨rfl, rfl, hQ.deeper hs' hroom⟩
  leaveCall := by
    rintro ⟨module, depth, limit⟩ _ s ⟨rfl, hp, hs⟩
    obtain ⟨rfl, hdepth, rfl⟩ := Standing.mk.inj hp
    refine ⟨rfl, ?_, hQ.shallower hs⟩
    change Standing.mk _ (s.depth - 1) _ = _
    rw [hdepth, Nat.add_sub_cancel]
  setLine := by
    rintro p _ s ⟨rfl, hp, hs⟩ line
    exact ⟨rfl, hp, hQ.inside hs rfl rfl rfl rfl⟩
  setIdentity := by
    rintro p _ s ⟨rfl, hp, hs⟩ id
    exact ⟨rfl, hp, hQ.inside hs rfl rfl rfl rfl⟩

theorem diagonal_lookup (name : String) (env : Env) :
    (diagonal γ larger Q).Steady p (Value.Permitted .all) (Run.lookup name env) := by
  unfold Run.lookup
  cases env.lookup? name with
  | some v => exact .pure v.permitted_all
  | none =>
    refine diagonal_get fun s => ?_
    cases s.global? s.current name with
    | some v => exact .pure v.permitted_all
    | none =>
      dsimp only
      cases Builtin.ofName? name with
      | some b =>
        exact (diagonal_aligned hQ).newFunction (c := .builtin b) trivial (List.forall_mem_nil _)
      | none =>
        dsimp only
        split
        · exact .pure (Value.permitted_all _)
        · exact .fail _

omit hQ [Gateway γ] in
theorem diagonal_memoKey? (decl : FunctionDecl) (module : Nat) (args : List Value) :
    (diagonal γ larger Q).Steady p (fun _ => True) (Run.memoKey? decl module args) := by
  unfold Run.memoKey?
  cases decl.name with
  | none => exact .pure trivial
  | some name => exact diagonal_get fun s => .pure trivial

theorem diagonal_lawful : (diagonal γ larger Q).Lawful where
  toAligned := diagonal_aligned hQ
  ofFuel _ := trivial
  limit := by
    rintro p _ s ⟨rfl, _⟩
    rfl
  schemas := by
    rintro p _ s ⟨rfl, _⟩
    rfl
  predicate _ _ _ := trivial
  futures := by
    rintro p _ s ⟨rfl, _⟩ _ id
    cases s.scheduler.futures.state? id with
    | none => exact .none
    | some state => exact .some (Terms.sameState_refl _ Value.permitted_all state)
  lookup _ _ := diagonal_lookup hQ _ _
  writeLog line := diagonal_steady (fun _ => trivial) fun _ hs => ⟨hQ.log hs line, rfl⟩
  countEvaluation _ := diagonal_steady (fun _ => trivial) fun _ hs =>
    ⟨hQ.inside hs rfl rfl rfl rfl, rfl⟩
  markObserved _ _ id := diagonal_steady (fun _ => trivial) fun _ hs =>
    ⟨hQ.markObserved hs id, rfl⟩
  settledFuture := by
    have hsteady {p} {state : FutureState} (hsettled : state.isPending = false) :
        (diagonal γ larger Q).Steady p (Value.Permitted .all) (Run.settledFuture state) :=
      diagonal_steady Value.permitted_all fun _ hs => ⟨hQ.settledFuture hs state hsettled, rfl⟩
    rintro _ p state state' (_ | _ | ⟨_, hline⟩) hsettled
    · exact hsteady hsettled
    · exact hsteady hsettled
    · obtain rfl := hline trivial
      exact hsteady hsettled
  spawn _ _ _ _ _ _ := diagonal_steady (fun _ => trivial) fun _ hs => ⟨hQ.spawn hs _, rfl⟩
  spawnCombinator _ _ _ _ := diagonal_steady (fun _ => trivial) fun _ hs => ⟨hQ.spawn hs _, rfl⟩
  dispatch _ _ _ args := diagonal_steady (fun _ => trivial) fun s hs =>
    ⟨hQ.dispatch hs _ args, Run.standing_dispatch _ args s⟩
  callClosure _ _ _ _ _ henter := (diagonal_aligned hQ).callClosure_of_memo henter
    (diagonal_memoKey? _ _ _)
    (fun _ => diagonal_steady (fun _ _ _ => Value.permitted_all _) fun _ hs =>
      ⟨hQ.inside hs rfl rfl rfl rfl, rfl⟩)
    fun _ _ _ => diagonal_steady (fun _ => trivial) fun _ hs =>
      ⟨hQ.inside hs rfl rfl rfl rfl, rfl⟩

end Pairing

/-! The evaluator with a larger bound is above the evaluator with a smaller one: what ends within a
bound ends in the same way, and in the same state, within every larger bound. -/

variable {γ α : Type}

/-- A run beside itself, without a property to keep. -/
abbrev Pairing.bounded (γ : Type) : Pairing γ := .diagonal γ True fun _ => True

theorem Eval.Below.of_lockstep {V : Standing → α → α → Prop} {x y : Run γ α}
    (h : ∀ p, Eval.Lockstep (Pairing.bounded γ).terms ((Pairing.bounded γ).state p) (V p) x y)
    (hV : ∀ p a b, V p a b → a = b) : x.Below y := by
  intro s
  rcases Pairing.diagonal_ends (hV s.standing) (h s.standing) trivial with ⟨hsame, -⟩ | ⟨-, hout⟩
  · exact .inl hsame
  · exact .inr hout

theorem Eval.Below.of_agree {P : Standing → α → Prop} {x y : Run γ α}
    (h : ∀ m, (Pairing.bounded γ).Agree m (P m) x y) : x.Below y :=
  .of_lockstep h fun _ _ _ hab => hab.1

variable [Gateway γ]

theorem Pairing.bounded_lawful : (Pairing.bounded γ).Lawful :=
  Pairing.diagonal_lawful (by constructor <;> intros <;> trivial)

namespace Recur

/-- Evaluation and calls of the one are below those of the other. -/
abbrev Below (r r' : Recur γ) : Prop := r.Lockstep (.bounded γ) r'

theorem ofFuel_below {m n : Nat} (hle : m ≤ n) : (ofFuel (γ := γ) m).Below (ofFuel n) :=
  ofFuel_lockstep Pairing.bounded_lawful (.inr ⟨⟨trivial, rfl⟩, hle⟩)

namespace Below

variable {r r' : Recur γ} (h : r.Below r')
include h

omit [Gateway γ] in
theorem eval (e : Expr) (env : Env) : (r.eval e env).Below (r'.eval e env) :=
  .of_agree fun m => Lockstep.eval h (m := m) trivial (Value.frames_permitted_all env)

theorem evalNode (e : Expr) (env : Env) : (r.evalNode e env).Below (r'.evalNode e env) :=
  .of_agree fun m => (h.inStep m).evalNode Pairing.bounded_lawful.scene trivial
    (Value.frames_permitted_all env)

omit [Gateway γ] in
theorem evalOr (e : Option Expr) (env : Env) : (r.evalOr e env).Below (r'.evalOr e env) :=
  .of_agree fun m => (h.inStep m).evalOr (fun _ _ => trivial) (Value.frames_permitted_all env)

theorem evalBlock (tail : Option Expr) (stmts : List Stmt) (env : Env) :
    (r.evalBlock tail stmts env).Below (r'.evalBlock tail stmts env) :=
  .of_agree fun m => (h.inStep m).evalBlock Pairing.bounded_lawful.scene (.all _ _ _)
    (Value.frames_permitted_all env)

theorem selectArm (v : Value) (env : Env) (arms : List MatchArm) :
    (r.selectArm v env arms).Below (r'.selectArm v env arms) :=
  .of_agree fun m => (h.inStep m).selectArm Pairing.bounded_lawful.scene v.permitted_all
    (fun _ _ => ⟨fun _ _ => trivial, trivial⟩) (Value.frames_permitted_all env)

theorem bindLet (span : Span) (pattern : Pattern) (ty : Option TypeExpr) (v : Value) (env : Env) :
    (r.bindLet span pattern ty v env).Below (r'.bindLet span pattern ty v env) :=
  .of_agree fun m => (h.inStep m).bindLet Pairing.bounded_lawful.scene span pattern ty
    v.permitted_all (Value.frames_permitted_all env)

theorem combine (e : Expr) (env : Env) (vs : List Value) :
    (r.combine e env vs).Below (r'.combine e env vs) :=
  .of_agree fun m => (h.inStep m).combine Pairing.bounded_lawful.scene trivial
    (Value.frames_permitted_all env) (Value.items_permitted_all vs)

theorem stepFrame (frame : TaskFrame) (v : Value) :
    (r.stepFrame frame v).Below (r'.stepFrame frame v) :=
  .of_lockstep (fun m => Lockstep.stepFrame Pairing.bounded_lawful h (m := m)
    (frame.permitted_all m.module) v.permitted_all) fun _ _ _ => Terms.SameFrameStep.eq trivial

theorem runStack (module : Nat) (root : Bool) {m n : Nat} (hle : m ≤ n) (frames : List TaskFrame)
    (v : Value) :
    (r.runStack module root m frames v).Below (r'.runStack module root n frames v) :=
  .of_lockstep (fun k => Lockstep.runStack Pairing.bounded_lawful h (m := k)
    (fun frame _ => frame.permitted_all module) (.inr ⟨⟨trivial, rfl⟩, hle⟩)
    (fun frame _ => frame.permitted_all k.module) v.permitted_all) fun _ _ _ => Terms.SameTaskStep.eq trivial

end Below

end Recur

end StreamLang
