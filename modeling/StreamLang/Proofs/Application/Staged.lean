import StreamLang.Gateway.Stock
import StreamLang.Proofs.Renaming.Evaluator
import StreamLang.Proofs.Renaming.Shift

/-! Application in stages. A function that gets its arguments in several groups is called with all of them
in the end; on the way to that it only collects them. The functions that wait on the way have identities of
their own, so what the call makes then has later ones; nothing else tells the stages from one call. -/

namespace StreamLang

namespace Callable

/-- The function can be applied to fewer arguments than it takes. -/
inductive Curries : Callable → Prop
  | closure {decl : FunctionDecl} {env : Env} {module : Nat} (h : 0 < decl.arity) :
    Curries (.closure decl env module)
  | builtin {b : Builtin} (h : b.arity.curries = true) : Curries (.builtin b)

/-- No argument has been given yet. -/
def IsBare : Callable → Prop
  | applied _ _ => False
  | _ => True

theorem Curries.isBare {c : Callable} (h : c.Curries) : c.IsBare := by cases h <;> trivial

end Callable

/-- The value is the function with these first arguments. -/
inductive Value.AppliedTo (c : Callable) : List Value → Value → Prop
  | bare (id : Identity) : AppliedTo c [] (.function id c)
  | applied {id : Identity} {bound : List Value} : AppliedTo c bound (.function id (.applied c bound))

namespace Recur

variable {γ : Type} [Gateway γ] (r : Recur γ)

/-- The function is applied to one group of arguments after the other. -/
def applyInTurn : Value → List (List Value) → Run γ Value
  | f, [] => return f
  | f, group :: rest => do applyInTurn (← r.callValue f group) rest

theorem applyInTurn_append (f : Value) (groups more : List (List Value)) :
    r.applyInTurn f (groups ++ more) =
      (do r.applyInTurn (← r.applyInTurn f groups) more) := by
  induction groups generalizing f with
  | nil => rw [applyInTurn, pure_bind, List.nil_append]
  | cons group rest ih => simp only [List.cons_append, applyInTurn, bind_assoc, ih]

theorem callValue_appliedTo {c : Callable} {bound : List Value} {f : Value} (h : f.AppliedTo c bound)
    (args : List Value) : r.callValue f args = r.callCallable c (bound ++ args) := by
  cases h with
  | bare => rfl
  | applied => rw [callValue, callCallable]

/-- With too few arguments the function waits for the others. -/
theorem callCallable_unsaturated {c : Callable} (h : c.Curries) {args : List Value}
    (hargs : args.length < c.arity) : r.callCallable c args = Run.newFunction (.applied c args) := by
  cases h with
  | closure =>
    rw [callCallable]
    exact if_pos hargs
  | builtin hcurries =>
    rw [callCallable]
    exact if_pos (Bool.and_eq_true_iff.2 ⟨decide_eq_true hargs, hcurries⟩)

variable {r} {c : Callable} (hc : c.Curries)
include hc

/-- As long as the arguments do not suffice, an application collects them and does nothing else. -/
theorem callValue_unsaturated {bound : List Value} {f : Value} (h : f.AppliedTo c bound)
    {args : List Value} (hargs : (bound ++ args).length < c.arity) (s : Interpreter γ) :
    r.callValue f args s = .ok (.function s.nextIdentity (.applied c (bound ++ args))) (s.skip 1) := by
  rw [callValue_appliedTo r h, callCallable_unsaturated r hc hargs]
  rfl

theorem applyInTurn_unsaturated {groups : List (List Value)} {bound : List Value} {f : Value}
    (h : f.AppliedTo c bound) (hargs : (bound ++ groups.flatten).length < c.arity)
    (s : Interpreter γ) : ∃ g, r.applyInTurn f groups s = .ok g (s.skip groups.length) ∧
      g.AppliedTo c (bound ++ groups.flatten) ∧
      (groups ≠ [] → ∃ id, g = .function id (.applied c (bound ++ groups.flatten))) := by
  induction groups generalizing bound f s with
  | nil => exact ⟨f, rfl, by simpa using h, fun hne => absurd rfl hne⟩
  | cons group rest ih =>
    rw [List.flatten_cons, ← List.append_assoc] at hargs ⊢
    have hfirst : (bound ++ group).length < c.arity := by
      rw [List.length_append] at hargs
      omega
    obtain ⟨g, hrun, hg, happlied⟩ := ih .applied hargs (s.skip 1)
    refine ⟨g, ?_, hg, fun _ => ?_⟩
    · rw [applyInTurn, Eval.bind_of_ok (callValue_unsaturated hc h hfirst s), hrun, List.length_cons,
        Interpreter.skip_skip, Nat.add_comm]
    · cases rest with
      | nil =>
        cases hrun
        exact ⟨s.nextIdentity, by simp⟩
      | cons => exact happlied (List.cons_ne_nil _ _)

/-- In the end the function is called with all arguments. -/
theorem applyInTurn_eq {init : List (List Value)} (last : List Value) (id : Identity)
    (hargs : init.flatten.length < c.arity) (s : Interpreter γ) :
    r.applyInTurn (.function id c) (init ++ [last]) s =
      r.callValue (.function id c) (init.flatten ++ last) (s.skip init.length) := by
  obtain ⟨g, hrun, hg, -⟩ := applyInTurn_unsaturated (r := r) hc (.bare id) hargs s
  have hlast : r.applyInTurn g [last] = r.callValue g last := by simp only [applyInTurn, bind_pure]
  rw [applyInTurn_append, Eval.bind_of_ok hrun, hlast, callValue_appliedTo r hg, List.nil_append]
  rfl

/-- When nothing that the state, the function and the arguments hold has an identity that is still to come,
the stages end as one call does, but for the identities given out in between. -/
theorem applyInTurn_mirrors (hr : ∀ ρ, r.Mirrors ρ) {init : List (List Value)} (last : List Value)
    {id : Identity} (hargs : init.flatten.length < c.arity) {s : Interpreter γ}
    (hs : ∀ v, s.Holds v → s.Knows v) (hf : s.Knows (.function id c))
    (hknown : ∀ v ∈ init.flatten ++ last, s.Knows v) :
    Eval.Mirrored (s.nextIdentity.shift init.length).map (s.nextIdentity.shift init.length).Twins
      (Value.rename (s.nextIdentity.shift init.length).map)
      (r.callValue (.function id c) (init.flatten ++ last) s)
      (r.applyInTurn (.function id c) (init ++ [last]) s) := by
  have hcall := (hr (s.nextIdentity.shift init.length)).callValue (.function id c) (init.flatten ++ last)
    s _ (Interpreter.twins_skip hs init.length)
  rw [hf.rename_shift, map_eq_self fun v hv => (hknown v hv).rename_shift init.length] at hcall
  rw [applyInTurn_eq hc last id hargs s]
  exact hcall

omit hc in
/-- On the way each application gives a function that waits for the other arguments, and the last one is
a call with all of them. It ends as one call at the beginning does, in the same state, but that what it
makes has later identities; a state that held such an identity from the beginning could tell. -/
theorem staged_application_is_direct (fuel : Nat) (hc : c.Curries) (init : List (List Value))
    (last : List Value) (hargs : init.flatten.length < c.arity) (id : Identity) (s : Interpreter γ) :
    (∀ before, before <+: init → before ≠ [] → ∃ id' target bound,
      (ofFuel fuel).applyInTurn (.function id c) before s =
        .ok (.function id' (.applied target bound)) (s.skip before.length) ∧
      (Callable.applied target bound).arity = c.arity - before.flatten.length ∧ target.IsBare ∧
      (Callable.applied target bound).name = c.name) ∧
    (ofFuel fuel).applyInTurn (.function id c) (init ++ [last]) s =
      (ofFuel fuel).callValue (.function id c) (init ++ [last]).flatten (s.skip init.length) ∧
    ((∀ v, s.Holds v → s.Knows v) → s.Knows (.function id c) →
      (∀ v ∈ (init ++ [last]).flatten, s.Knows v) →
      ∃ ρ : Renaming, (∀ id', ¬ s.nextIdentity.Coming id' → ρ.map id' = id') ∧
        Eval.Mirrored ρ.map ρ.Twins (Value.rename ρ.map)
          ((ofFuel fuel).callValue (.function id c) (init ++ [last]).flatten s)
          ((ofFuel fuel).applyInTurn (.function id c) (init ++ [last]) s)) := by
  have hflatten : (init ++ [last]).flatten = init.flatten ++ last := by
    rw [List.flatten_append, List.flatten_singleton]
  refine ⟨fun before hbefore hne => ?_, ?_, fun hs hf hknown => ?_⟩
  · obtain ⟨rest, rfl⟩ := hbefore
    have hfew : before.flatten.length < c.arity := by
      rw [List.flatten_append, List.length_append] at hargs
      omega
    obtain ⟨g, hrun, -, happlied⟩ := applyInTurn_unsaturated (r := ofFuel fuel) hc (.bare id) hfew s
    obtain ⟨id', rfl⟩ := happlied hne
    exact ⟨id', c, before.flatten, hrun, rfl, hc.isBare, rfl⟩
  · rw [applyInTurn_eq hc last id hargs s, hflatten]
  · rw [hflatten] at hknown ⊢
    refine ⟨_, fun id' => Identity.shift_of_not_coming init.length, ?_⟩
    exact applyInTurn_mirrors hc (fun ρ => ofFuel_mirrors ρ fuel) last hargs hs hf hknown

omit hc in
/-- An entry put into a map argument by argument, once with none, is put in as by one call. -/
theorem put_in_turn_is_direct :
    let s := (Interpreter.start ⟨(Check.collectSchemas []).table, [], []⟩ .default
      (StockGateway.null [])).skip 1
    let put := Value.function ⟨0, []⟩ (.builtin (.collection .put))
    (ofFuel 1).applyInTurn put [[.map []], [], [.text "k"], [.int 1]] s =
      .ok (.map [("k", .int 1)]) (s.skip 3) ∧
    ∃ ρ : Renaming, (∀ id', ¬ s.nextIdentity.Coming id' → ρ.map id' = id') ∧
      Eval.Mirrored ρ.map ρ.Twins (Value.rename ρ.map)
        ((ofFuel 1).callValue put [.map [], .text "k", .int 1] s)
        ((ofFuel 1).applyInTurn put [[.map []], [], [.text "k"], [.int 1]] s) := by
  intro s put
  have hput : (Callable.builtin (.collection .put)).Curries := .builtin (by decide)
  obtain ⟨-, hstages, htwin⟩ := staged_application_is_direct 1 hput
    [[.map []], [], [.text "k"]] [.int 1] (by decide) ⟨0, []⟩ s
  refine ⟨hstages, htwin (fun v hv => ?_) (.mk ?_ ?_) (fun v hv => ?_)⟩
  · exact absurd hv (Interpreter.not_holds_start _ _ _ _ v)
  · rintro id ⟨⟩ hcoming
    exact absurd (hcoming.number_le rfl) (by decide)
  · rintro w ⟨⟩
  · have hcases : v = .map [] ∨ v = .text "k" ∨ v = .int 1 := by simpa using hv
    rcases hcases with rfl | rfl | rfl <;> exact Value.allIdentities_of_no_parts rfl rfl

end Recur

end StreamLang
