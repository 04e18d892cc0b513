import StreamLang.Gateway.Stock
import StreamLang.Proofs.Evaluation.Evaluator
import StreamLang.Proofs.Running
import StreamLang.Proofs.Unreachable.Checked

/-! Computations that end early only for a reason, and then with a failure. They change no declared types,
so that what is known of the predicates of aliases at the beginning is known in every state. A `?`
ends the function, the lambda or the task that it is written in, and nothing around it, as long as
no predicate of an alias has a `?` of its own: the check of a predicate is part of the function
that makes the check. -/

namespace StreamLang

/-- The computation ends early for the reason only, with a failure. -/
def Unwind.EarlyOnly (early : Prop) : Unwind → Prop
  | .early v _ => early ∧ v.isFailure = true
  | _ => True

variable {γ α β : Type}

/-- Where no predicate has a `?` of its own, the computation ends early for the reason only. The declared
types stay. -/
def Run.EarlyOnly (early : Prop) (x : Run γ α) : Prop :=
  ∀ s, s.schemas.Predicates (¬ ·.Attempts) → match x s with
    | .ok _ t => t.schemas = s.schemas
    | .error u t => u.EarlyOnly early ∧ t.schemas = s.schemas

namespace Run

variable {early early' : Prop}

/-- How a computation that ends early only for the reason ends early. -/
theorem EarlyOnly.of_early {x : Run γ α} (h : EarlyOnly early x) {s t : Interpreter γ}
    (hs : s.schemas.Predicates (¬ ·.Attempts)) {v : Value} {line : Nat} (hx : x s = .error (.early v line) t) :
    early ∧ v.isFailure = true := by
  have hend := h s hs
  rw [hx] at hend
  exact hend.1

namespace EarlyOnly

theorem mono {x : Run γ α} (h : EarlyOnly early x) (himp : early → early') :
    EarlyOnly early' x := by
  intro s hs
  have hend := h s hs
  split
  · rename_i heq
    rwa [heq] at hend
  · rename_i u t heq
    rw [heq] at hend
    cases u with
    | early v line => exact ⟨⟨himp hend.1.1, hend.1.2⟩, hend.2⟩
    | _ => exact ⟨trivial, hend.2⟩

theorem pure (a : α) : EarlyOnly early (Pure.pure a : Run γ α) := fun _ _ => rfl

theorem throw {u : Unwind} (h : u.EarlyOnly early) :
    EarlyOnly early (MonadExcept.throw u : Run γ α) := fun _ _ => ⟨h, rfl⟩

theorem failAt (fault : Fault) (line : Nat) :
    EarlyOnly early (Eval.failAt fault line : Run γ α) := fun _ _ => ⟨trivial, rfl⟩

/-- What comes after is asked for values that the first computation can give. -/
theorem bind_of_ok {x : Run γ α} {f : α → Run γ β} (hx : EarlyOnly early x)
    (hf : ∀ s a t, x s = .ok a t → EarlyOnly early (f a)) : EarlyOnly early (x >>= f) := by
  intro s hs
  have hend := hx s hs
  cases hx' : x s with
  | ok a t =>
    rw [hx'] at hend
    rw [Eval.bind_of_ok hx']
    have hrest := hf s a t hx' t (hend ▸ hs)
    rwa [hend] at hrest
  | error u t =>
    rw [hx'] at hend
    rw [Eval.bind_of_error hx']
    exact hend

/-- The state that is read is known to have such predicates. -/
theorem get_bind {f : Interpreter γ → Run γ α}
    (h : ∀ s, s.schemas.Predicates (¬ ·.Attempts) → EarlyOnly early (f s)) : EarlyOnly early (get >>= f) :=
  fun s hs => h s hs s hs

theorem modifyGet {f : Interpreter γ → α × Interpreter γ}
    (h : ∀ s, (f s).2.schemas = s.schemas) : EarlyOnly early (MonadStateOf.modifyGet f : Run γ α) :=
  fun s _ => h s

theorem located {x : Run γ α} (h : EarlyOnly early x) (line : Nat) :
    EarlyOnly early (x.located line) := by
  intro s hs
  have hend := h s hs
  unfold Eval.located
  cases hx : x s with
  | ok a t =>
    rw [hx] at hend
    exact hend
  | error u t =>
    rw [hx] at hend
    refine ⟨?_, hend.2⟩
    cases u with
    | early v line => exact hend.1
    | fail fault line => cases line <;> exact trivial
    | exhausted => exact trivial

theorem restoring {x : Run γ α} (hx : EarlyOnly early x) {restore : Interpreter γ → Interpreter γ}
    (h : ∀ s, (restore s).schemas = s.schemas) : EarlyOnly early (x.restoring restore) := by
  intro s hs
  have hend := hx s hs
  unfold Eval.restoring
  cases hx' : x s with
  | ok a t =>
    rw [hx'] at hend
    exact (h t).trans hend
  | error u t =>
    rw [hx'] at hend
    exact ⟨hend.1, (h t).trans hend.2⟩

/-- An early end is caught. -/
theorem catchEarly {x : Run γ Value} (h : EarlyOnly early x) : EarlyOnly early' x.catchEarly := by
  intro s hs
  have hend := h s hs
  unfold Eval.catchEarly
  cases hx : x s with
  | ok v t =>
    rw [hx] at hend
    exact hend
  | error u t =>
    rw [hx] at hend
    cases u with
    | early v line => exact hend.2
    | _ => exact ⟨trivial, hend.2⟩

end EarlyOnly

theorem earlyOnly_judgement :
    Judgement (γ := γ) (¬ ·.Attempts) fun early _ x => EarlyOnly early x where
  pure := .pure
  failAt _ := .failAt _ _
  exhausted := .throw trivial
  early h hfailure _ := .throw ⟨h, hfailure⟩
  bind_of_ok := .bind_of_ok
  get_bind := .get_bind
  modifyGet := .modifyGet
  located := .located
  restoring h := .restoring h
  catchEarly := .catchEarly
  mono := .mono
  predicate hplain h := h.mono fun hattempts => absurd hattempts hplain

end Run

theorem Recur.ofFuel_earlyOnly [Gateway γ] (fuel : Nat) :
    (ofFuel (γ := γ) fuel).Judged (¬ ·.Attempts) fun early _ x => Run.EarlyOnly early x :=
  ofFuel_judged Run.earlyOnly_judgement fuel

end StreamLang

/-! A `?` ends the innermost function, lambda or task around it, in programs whose predicates have no `?` of
their own. A predicate belongs to no function, and a `?` in it ends the one that makes the check. -/

namespace StreamLang

variable {γ α : Type}

/-- The computation does not end early. -/
def Run.NotEarly (x : Run γ α) (s : Interpreter γ) : Prop :=
  ∀ v line t, x s ≠ .error (.early v line) t

theorem Run.EarlyOnly.notEarly {x : Run γ α} (h : EarlyOnly False x) {s : Interpreter γ}
    (hs : s.schemas.Predicates (¬ ·.Attempts)) : NotEarly x s :=
  fun _ _ _ hx => (h.of_early hs hx).1

namespace Recur

/-- A body that ends early gives the function its result. -/
theorem runBody_of_early {r : Recur γ} {decl : FunctionDecl} {env : Env} {s t : Interpreter γ}
    {v : Value} {line : Nat} (hdepth : s.depth < s.options.maxCallDepth)
    (hbody : (do
      if let some name := decl.name then Run.countEvaluation name
      Run.deeper (r.eval decl.body env) : Run γ Value) s = .error (.early v line) t) :
    r.runBody decl env s =
      (do
        r.checkOptional decl.ret v decl.span.line
        return v : Run γ Value) t := by
  have hcatch : ∀ s' : Interpreter γ, Run.deeper (r.eval decl.body env) s' = .error (.early v line) t →
      (Run.deeper (r.eval decl.body env)).catchEarly s' = .ok v t := by
    intro s' hs'
    rw [Eval.catchEarly, hs']
  rw [runBody]
  change (if s.options.maxCallDepth ≤ s.depth then _ else _ : Run γ Value) s = _
  rw [if_neg (Nat.not_le.2 hdepth)]
  cases hname : decl.name with
  | none =>
    rw [hname] at hbody
    exact Eval.bind_of_ok (hcatch s hbody)
  | some name =>
    rw [hname] at hbody
    exact Eval.bind_of_ok (hcatch _ hbody)

/-- A slice that ends early gives its task a result; at the top of a module it makes the task fail. -/
theorem runTask_of_early {r : Recur γ} {task : Task TaskBody} {m : TaskMachine}
    (hbody : task.body = .machine m) {s t : Interpreter γ} {v : Value} {line : Nat}
    (hrun : r.runMachine m s = .error (.early v line) t) :
    r.runTask task s = .ok () { t with
      scheduler :=
        if m.root then t.scheduler.fail task ⟨.text (Fault.unhandled v).message, line⟩
        else t.scheduler.complete task v } := by
  have hslice : r.runSlice task.body s = .ok
      (if m.root then .fail ⟨.text (Fault.unhandled v).message, line⟩ else .complete v) t := by
    rw [runSlice, hbody, runBodyOf, hrun]
    rfl
  rw [runTask_of_ok hslice]
  cases m.root <;> rfl

end Recur

/-- In a program that is accepted, and whose predicates have no `?` of their own, no call of a function ends
early, with any arguments and in any state, and no check of a value against a type does; and no
combinator, which calls handlers. So what ends early is the evaluation of an expression with a `?`
of its own, with the failure that it met. That failure is the result of the function around it, on
which the type of the result is still checked, or of the task; only at the top of a module there is none,
and the task fails. -/
theorem attempt_ends_innermost [Gateway γ] {mainName : String} {main : Program}
    {provider : Provider} {a : Accepted} (haccept : accept mainName main provider = .ok a)
    (hpredicates : ∀ u ∈ a.units, u.Predicates (¬ ·.Attempts)) (fuel : Nat) {s : Interpreter γ}
    (hs : s.schemas = a.checked.schemas) :
    (∀ units, (s.execute fuel units).2.schemas = a.checked.schemas) ∧
      (∀ f args, Run.NotEarly ((Recur.ofFuel fuel).callValue f args) s ∧
        (endState ((Recur.ofFuel fuel).callValue f args s)).schemas = a.checked.schemas) ∧
      (∀ b args, Run.NotEarly ((Recur.ofFuel fuel).callBuiltin b args) s) ∧
      (∀ c, Run.NotEarly ((Recur.ofFuel fuel).runCombinator c) s) ∧
      (∀ ty v line, Run.NotEarly ( Recur.checkAnnotation (Recur.ofFuel fuel) ty v line) s) ∧
      (∀ line ty v, Run.NotEarly ((Recur.ofFuel fuel).checkRefinements line ty v) s) ∧
      (∀ e env v line t, evalWithin fuel e env s = .error (.early v line) t →
        e.Attempts ∧ v.isFailure = true) ∧
      (∀ decl env v line t, s.depth < s.options.maxCallDepth →
        (do
          if let some name := decl.name then Run.countEvaluation name
          Run.deeper (evalWithin fuel decl.body env) : Run γ Value) s =
          .error (.early v line) t →
        (Recur.ofFuel fuel).runBody decl env s =
          (do
            (Recur.ofFuel fuel).checkOptional decl.ret v decl.span.line
            return v : Run γ Value) t) ∧
      ∀ task m v line t, task.body = .machine m →
        (Recur.ofFuel fuel).runMachine m s = .error (.early v line) t →
        (Recur.ofFuel fuel).runTask task s = .ok () { t with
          scheduler :=
            if m.root then t.scheduler.fail task ⟨.text (Fault.unhandled v).message, line⟩
            else t.scheduler.complete task v } := by
  have hplain : s.schemas.Predicates (¬ ·.Attempts) := by
    rw [hs, (Check.program_eq_ok (accept_eq_ok haccept).2).1]
    exact Check.collectSchemas_predicates hpredicates
  have hr := Recur.ofFuel_earlyOnly (γ := γ) fuel
  have hloaded := Recur.sustains_loaded (γ := γ) fuel (P := fun t => t.schemas = a.checked.schemas)
    fun ht hloaded => (congrArg Loaded.schemas hloaded).trans ht
  refine ⟨fun units => hloaded.execute (fun _ _ _ hsame ht => hsame.trans ht) units hs,
    fun f args => ⟨(hr.callValue f args).notEarly hplain, ?_⟩,
    fun b args => (hr.callBuiltin b args).notEarly hplain,
    fun c => (hr.runCombinator c).notEarly hplain,
    fun ty v line => (hr.checkWritten ty v line).notEarly hplain,
    fun line ty v => (hr.checkRefinements line ty v).notEarly hplain,
    fun e env v line t hrun => (hr.eval e env).of_early hplain hrun,
    fun _ _ _ _ _ hdepth hbody => Recur.runBody_of_early hdepth hbody,
    fun _ _ _ _ _ hbody hrun => Recur.runTask_of_early hbody hrun⟩
  have hcalled : Run.EarlyOnly False ((Recur.ofFuel fuel).callValue f args) := hr.callValue f args
  have hend := hcalled s hplain
  cases hcall : (Recur.ofFuel fuel).callValue f args s with
  | ok v t =>
    rw [hcall] at hend
    exact hend.trans hs
  | error u t =>
    rw [hcall] at hend
    exact hend.2.trans hs

/-- `n % 2 == 0` -/
def isEven (n : String) : Expr :=
  .binary .none .eq (.binary .none .mod (.name .none n) (.literal .none (.int 2)))
    (.literal .none (.int 0))

/-- `fn parity(n: Int) -> Any { if n % 2 == 0 { Ok(true) } else { Err("odd") } }` -/
def parity : FunctionDecl :=
  ⟨some "parity", [⟨"n", some (.named .none "Int" []), .none⟩], some (.named .none "Any" []),
    .branch .none (isEven "n")
      (.call .none (.name .none "Ok") [.literal .none (.bool true)])
      (some (.call .none (.name .none "Err") [.literal .none (.text "odd")])), false, .none⟩

/-- `fn half(n: Even) -> Int { n / 2 }` -/
def half : FunctionDecl :=
  ⟨some "half", [⟨"n", some (.named .none "Even" []), .none⟩], some (.named .none "Int" []),
    .binary .none .div (.name .none "n") (.literal .none (.int 2)), false, .none⟩

/-- `fn report(n: Int) -> Any { half(n); "done" }` -/
def report : FunctionDecl :=
  ⟨some "report", [⟨"n", some (.named .none "Int" []), .none⟩], some (.named .none "Any" []),
    .block .none [.expr (.call .none (.name .none "half") [.name .none "n"])]
      (some (.literal .none (.text "done"))), false, .none⟩

/-- The functions, and `type Even = Int where` with this predicate. -/
def evenProgram (predicate : Expr) : Program :=
  ⟨⟨.typeAlias ⟨"Even", .named .none "Int" [], some predicate⟩, false, .none⟩ ::
    [parity, half, report].map fun d => ⟨.function d, false, .none⟩⟩

/-- A run of an accepted program, which binds its functions. -/
def afterRun (a : Accepted) : Interpreter StockGateway :=
  ((Interpreter.start a.checked ⟨512, false, 1000, false⟩ (StockGateway.null [])).execute 20 a.units).2

/-- How a call of a function of the program on 3 ends. -/
def callOnThree (a : Accepted) (name : String) :
    EStateM.Result Unwind (Interpreter StockGateway) Value :=
  match (afterRun a).global? 0 name with
  | some f => (Recur.ofFuel 20).callValue f [.int 3] (afterRun a)
  | none => .error .exhausted (afterRun a)

/-- The number and the name of the type in the failed check that the call of `half` ends with. -/
def halfRefused (a : Accepted) : Option (Int64 × String) :=
  match callOnThree a "half" with
  | .error (.fail (.refinementViolated (.int n) name) _) _ => some (n, name)
  | _ => none

/-- The failure that ends the call of `half` early, and the one that `report` gives. -/
def earlyFailures (a : Accepted) : Option (String × String) :=
  match callOnThree a "half", callOnThree a "report" with
  | .error (.early (.err (.text e)) _) _, .ok (.err (.text e')) _ => some (e, e')
  | _, _ => none

/-- What is found out about the program with this predicate, once it is accepted. -/
def found {α : Type} (predicate : Expr) (find : Accepted → Option α) : Option α :=
  (accept "main" (evenProgram predicate) []).toOption.bind find

theorem accepted_of_found {α : Type} {predicate : Expr} {find : Accepted → Option α} {x : α}
    (h : found predicate find = some x) :
    ∃ a, accept "main" (evenProgram predicate) [] = .ok a ∧ find a = some x := by
  unfold found at h
  cases haccept : accept "main" (evenProgram predicate) [] with
  | error e =>
    rw [haccept] at h
    cases h
  | ok a =>
    rw [haccept] at h
    exact ⟨a, rfl, h⟩

theorem isEven_plain (n : String) : ¬ (isEven n).Attempts := by
  have hleaf {e : Expr} (he : e.within = []) (hnot : ∀ span inner, e ≠ .attempt span inner) :
      ¬ e.Attempts :=
    Expr.not_attempts_of_within hnot (by simp [he])
  have hrest : ¬ (Expr.binary .none .mod (.name .none n) (.literal .none (.int 2))).Attempts :=
    Expr.not_attempts_of_within nofun (List.forall_mem_cons.2
      ⟨hleaf rfl nofun, List.forall_mem_singleton.2 (hleaf rfl nofun)⟩)
  exact Expr.not_attempts_of_within nofun
    (List.forall_mem_cons.2 ⟨hrest, List.forall_mem_singleton.2 (hleaf rfl nofun)⟩)

/-- The check of the predicate fails, and the call with it. -/
theorem even_ends_with_fault :
    ∃ a, accept "main" (evenProgram (isEven "value")) [] = .ok a ∧
      (∀ f args, Run.NotEarly ((Recur.ofFuel 20).callValue f args) (afterRun a)) ∧
      ∃ line t, callOnThree a "half" = .error (.fail (.refinementViolated (.int 3) "Even") line) t := by
  obtain ⟨a, haccept, hfind⟩ :=
    accepted_of_found (by decide +kernel : found (isEven "value") halfRefused = some (3, "Even"))
  unfold halfRefused at hfind
  split at hfind
  case h_2 => cases hfind
  case h_1 n name line t hcall =>
    cases hfind
    have hunits : [⟨"main", evenProgram (isEven "value"), []⟩] = a.units :=
      Except.ok.inj (accept_eq_ok haccept).1
    have hpredicates : ∀ u ∈ a.units, u.Predicates (¬ ·.Attempts) := by
      rw [← hunits]
      refine List.forall_mem_singleton.2 fun i hi d hd p hp => ?_
      rcases List.mem_cons.1 hi with rfl | hi
      · cases hd
        cases hp
        exact isEven_plain _
      · obtain ⟨_, -, rfl⟩ := List.mem_map.1 hi
        cases hd
    have hstart := attempt_ends_innermost haccept hpredicates 20
      (s := Interpreter.start a.checked ⟨512, false, 1000, false⟩ (StockGateway.null [])) rfl
    have hafter := attempt_ends_innermost haccept hpredicates 20 (hstart.1 a.units)
    exact ⟨a, haccept, fun f args => (hafter.2.1 f args).1, line, t, hcall⟩

/-- `parity(value)?` -/
def attemptedParity : Expr :=
  .attempt .none (.call .none (.name .none "parity") [.name .none "value"])

/-- The predicate ends the function that makes the check: the call of `half` ends early, and so `report`
gives the failure in place of its own value. -/
theorem predicate_ends_caller :
    ∃ a, accept "main" (evenProgram attemptedParity) [] = .ok a ∧
      (∃ line t, callOnThree a "half" = .error (.early (.err (.text "odd")) line) t) ∧
      ∃ t, callOnThree a "report" = .ok (.err (.text "odd")) t := by
  obtain ⟨a, haccept, hfind⟩ :=
    accepted_of_found (by decide +kernel : found attemptedParity earlyFailures = some ("odd", "odd"))
  unfold earlyFailures at hfind
  split at hfind
  case h_2 => cases hfind
  case h_1 e line t e' t' hhalf hreport =>
    cases hfind
    exact ⟨a, haccept, ⟨line, t, hhalf⟩, t', hreport⟩

end StreamLang
