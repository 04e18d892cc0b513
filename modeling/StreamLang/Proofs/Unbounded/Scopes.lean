import StreamLang.Interpreter.Expr
import StreamLang.Proofs.Charter.Basic
import StreamLang.Proofs.Modules.Exports
import StreamLang.Proofs.Record.Built
import StreamLang.Proofs.Running

/-! Where the check comes to an expression, in which scopes, and which of the names there it takes for
streams without an end. Beside it stands what these names are bound to when the expression is evaluated. -/

namespace StreamLang

/-- A stream from an infinite source, of which no stage takes only so many elements. -/
def Value.Endless : Value → Prop
  | stream _ p => p.isBounded = false
  | _ => False

theorem Env.lookup?_extend (env : Env) (bindings : List (String × Value)) (name : String) :
    (env.extend bindings).lookup? name = (lookupFrame? name bindings).or (env.lookup? name) := by
  cases bindings with
  | nil => rfl
  | cons b rest =>
    change List.findSome? (lookupFrame? name) ((b :: rest) :: env) = _
    rw [List.findSome?_cons]
    cases lookupFrame? name (b :: rest) <;> rfl

namespace Scopes

/-- What is known of a name that is declared inside the module. -/
def local? (s : Scopes) (name : String) : Option Binding := s.locals.findSome? (Keyed.get? name ·)

theorem lookup?_of_local? {s : Scopes} {name : String} {b : Binding} (h : s.local? name = some b) :
    s.lookup? name = some b := by
  rw [lookup?, show s.locals.findSome? (Keyed.get? name ·) = some b from h]

theorem lookup?_of_not_local {s : Scopes} {name : String} (h : s.local? name = none) :
    s.lookup? name = Keyed.get? name s.globals := by
  rw [lookup?, show s.locals.findSome? (Keyed.get? name ·) = none from h]

theorem local?_cons (globals top : Scope) (rest : List Scope) (name : String) :
    (⟨globals, top :: rest⟩ : Scopes).local? name =
      (Keyed.get? name top).or ((⟨globals, rest⟩ : Scopes).local? name) := by
  rw [local?, local?, List.findSome?_cons]
  cases Keyed.get? name top <;> rfl

end Scopes

namespace Check

/-- A visible stream without an end, as `isUnbounded` has it, but no name in the scopes hides a builtin on
the way, and each is given all of its arguments. -/
def isRooted (scopes : Scopes) : Expr → Bool
  | .name _ n => ((scopes.lookup? n).map Binding.unbounded).getD false
  | .call _ (.name _ n) [_] => (scopes.lookup? n).isNone && isInfiniteSource n
  | .call _ (.name _ n) [source, _] =>
    (scopes.lookup? n).isNone && (isOpenStage n && isRooted scopes source)
  | .method _ receiver n [_] =>
    (scopes.lookup? n).isNone && (isOpenStage n && isRooted scopes receiver)
  | _ => false

/-- The computation finds no error in some state with the scopes, and leaves it with others. -/
def Turns {α : Type} (x : CheckM α) (before after : Scopes) : Prop :=
  ∃ s : State, s.scopes = before ∧ (x s).2.Clean ∧ (x s).2.scopes = after

mutual

/-- The property holds of the expression and of all those in it, each in the scopes in which it is
checked. -/
inductive Everywhere (P : Scopes → Expr → Prop) : Scopes → Expr → Prop
  | literal {sc span value} (h : P sc (.literal span value)) : Everywhere P sc (.literal span value)
  | name {sc span n} (h : P sc (.name span n)) : Everywhere P sc (.name span n)
  | parts {sc e} (h : P sc e) (hfrom : e.isFromParts = true)
      (hparts : ∀ part ∈ e.operands, Everywhere P sc part) : Everywhere P sc e
  | logical {sc span op lhs rhs} (h : P sc (.binary span op lhs rhs)) (hlhs : Everywhere P sc lhs)
      (hrhs : Everywhere P sc rhs) : Everywhere P sc (.binary span op lhs rhs)
  | branch {sc span test whenTrue whenFalse} (h : P sc (.branch span test whenTrue whenFalse))
      (htest : Everywhere P sc test) (htrue : Everywhere P sc whenTrue)
      (hfalse : ∀ e, whenFalse = some e → Everywhere P sc e) :
      Everywhere P sc (.branch span test whenTrue whenFalse)
  | cases {sc span scrutinee arms} (h : P sc (.cases span scrutinee arms))
      (hscrutinee : Everywhere P sc scrutinee) (harms : EverywhereArms P sc arms) :
      Everywhere P sc (.cases span scrutinee arms)
  | block {sc span stmts tail} (h : P sc (.block span stmts tail))
      (hblock : EverywhereBlock P sc.enter tail stmts) : Everywhere P sc (.block span stmts tail)
  | closure {sc sc' span} {decl : FunctionDecl} (h : P sc (.closure span decl))
      (hparams : Turns (declareParams decl.params) sc.enter sc') (hbody : Everywhere P sc' decl.body) :
      Everywhere P sc (.closure span decl)
  | async {sc span body} (h : P sc (.async span body)) (hbody : Everywhere P sc body) :
      Everywhere P sc (.async span body)
  | await {sc span future} (h : P sc (.await span future)) (hfuture : Everywhere P sc future) :
      Everywhere P sc (.await span future)
  | attempt {sc span inner} (h : P sc (.attempt span inner)) (hinner : Everywhere P sc inner) :
      Everywhere P sc (.attempt span inner)

/-- An arm is checked in a scope with the names of its pattern. -/
inductive EverywhereArms (P : Scopes → Expr → Prop) : Scopes → List MatchArm → Prop
  | nil {sc} : EverywhereArms P sc []
  | cons {sc sc'} {arm : MatchArm} {ty rest} (hpattern : Turns (bindPattern arm.pattern ty []) sc.enter sc')
      (hguard : ∀ e, arm.guard = some e → Everywhere P sc' e) (hbody : Everywhere P sc' arm.body)
      (hrest : EverywhereArms P sc rest) : EverywhereArms P sc (arm :: rest)

/-- What comes behind a `let` is checked with the names that it declares. -/
inductive EverywhereBlock (P : Scopes → Expr → Prop) : Scopes → Option Expr → List Stmt → Prop
  | done {sc tail} (htail : ∀ e, tail = some e → Everywhere P sc e) : EverywhereBlock P sc tail []
  | bind {sc sc' span pattern ty e found rest tail} (he : Everywhere P sc e)
      (hlet : Turns (declareLet pattern ty e found) sc sc') (hrest : EverywhereBlock P sc' tail rest) :
      EverywhereBlock P sc tail (.bind span pattern ty e :: rest)
  | expr {sc e rest tail} (he : Everywhere P sc e) (hrest : EverywhereBlock P sc tail rest) :
      EverywhereBlock P sc tail (.expr e :: rest)

end

/-- So it is with a function. -/
def EverywhereIn (P : Scopes → Expr → Prop) (sc : Scopes) (decl : FunctionDecl) : Prop :=
  ∃ sc', Turns (declareParams decl.params) sc.enter sc' ∧ Everywhere P sc' decl.body

theorem Everywhere.self {P : Scopes → Expr → Prop} {sc : Scopes} {e : Expr}
    (h : Everywhere P sc e) : P sc e := by
  cases h <;> assumption

theorem Everywhere.of_parts {P : Scopes → Expr → Prop} {sc : Scopes} {e : Expr}
    (h : Everywhere P sc e) (hfrom : e.isFromParts = true) :
    ∀ part ∈ e.operands, Everywhere P sc part := by
  cases h with
  | parts _ _ hparts => exact hparts
  | logical _ hlhs hrhs =>
    exact List.forall_mem_cons.2 ⟨hlhs, List.forall_mem_singleton.2 hrhs⟩
  | _ => cases hfrom

/-- What a `let` finds out: a name that is bound to a value as a whole is a stream without an end if the
value visibly is. -/
def OfLet (scopes : Scopes) (pattern : Pattern) (value : Expr) (b : Binding) : Prop :=
  b.unbounded = true → (∃ span n, pattern = .bind span n) ∧ isUnbounded scopes value = true

theorem declareLet_onlyNew (pattern : Pattern) (written : Option TypeExpr) (value : Expr) (ty : Ty)
    (s : State) : OnlyNew (OfLet s.scopes pattern value) s.scopes.innermost
      (declareLet pattern written value ty s).2.scopes.innermost := by
  have hplain : ∀ (ty : Ty) (t : State), t.scopes = s.scopes →
      OnlyNew (OfLet s.scopes pattern value) s.scopes.innermost
        (declareLet pattern none value ty t).2.scopes.innermost := by
    intro ty t ht
    rw [← ht]
    have hpattern : (∀ span n, pattern ≠ .bind span n) →
        (declareLet pattern none value ty t).2 = (bindPattern pattern ty [] t).2 := by
      intro hne
      cases pattern with
      | bind span n => exact absurd rfl (hne span n)
      | _ => rfl
    by_cases hbind : ∃ span n, pattern = .bind span n
    · obtain ⟨span, n, rfl⟩ := hbind
      let checked := constantOf value t
      have hconstant : checked.2.scopes = t.scopes := (constantOf_adds value).scopes_eq
      have hdeclares : Declares (OfLet t.scopes (.bind span n) value) [n] (do
          if !(← declare n ⟨ty, checked.1, isUnbounded checked.2.scopes value⟩) then
            report (.definedTwice n) span) :=
        declares_declare n (fun hunbounded => ⟨⟨span, n, rfl⟩, hconstant ▸ hunbounded⟩) (.pure ())
          (.report _ _ (f := fun _ => pure ()) (.pure ()))
      obtain ⟨scope, new, hend, -, honly⟩ := hdeclares checked.2
      rw [hconstant] at honly
      have hend : (declareLet (.bind span n) none value ty t).2 = _ := hend.state
      rw [hend, Scopes.innermost_withInnermost]
      exact honly
    · obtain ⟨scope, new, hend, -, honly⟩ := bindPattern_declares pattern ty [] t
      rw [hpattern fun span n h => hbind ⟨span, n, h⟩, hend.state, Scopes.innermost_withInnermost]
      refine honly.weaken fun b htyped hunbounded => ?_
      rw [htyped] at hunbounded
      cases hunbounded
  cases written with
  | none => exact hplain ty s rfl
  | some w =>
    refine hplain _ (expectType (resolveType w s).1 ty value .letBinding (resolveType w s).2).2 ?_
    rw [(expectType_adds _ _ _ _).scopes_eq, (resolveType_adds w).scopes_eq]

namespace Turns

variable {α : Type} {before after : Scopes}

theorem introduced {x : CheckM α} {ok : Binding → Prop} {names : List String}
    (h : Turns x before after) (hx : Declares ok names x) : ∃ scope,
      after = before.withInnermost scope ∧ Introduced names before.innermost scope ∧
        OnlyNew ok before.innermost scope := by
  obtain ⟨s, rfl, hclean, rfl⟩ := h
  obtain ⟨scope, new, hend, hadded, honly⟩ := hx s
  rw [hend.state] at hclean ⊢
  exact ⟨scope, rfl, hadded fun d hd => hclean d (Array.mem_append_right _ hd), honly⟩

/-- A `let` finds out that a name is a stream without an end when it binds its value as a whole. -/
theorem ofLet {pattern : Pattern} {written : Option TypeExpr} {e : Expr} {ty : Ty}
    (h : Turns (declareLet pattern written e ty) before after) : ∃ scope,
      after = before.withInnermost scope ∧ Introduced pattern.names before.innermost scope ∧
        ∀ n b, n ∈ pattern.names → Keyed.get? n scope = some b → b.unbounded = true →
          (∃ span, pattern = .bind span n) ∧ isUnbounded before e = true := by
  obtain ⟨scope, hafter, hscope, -⟩ := h.introduced (declareLet_declares pattern written e ty)
  refine ⟨scope, hafter, hscope, fun n b hn hb hunbounded => ?_⟩
  obtain ⟨s, rfl, -, rfl⟩ := h
  have honly := declareLet_onlyNew pattern written e ty s
  rw [hafter, Scopes.innermost_withInnermost] at honly
  rcases honly n b hb with hold | hnew
  · rw [hscope.fresh n hn] at hold
    cases hold
  · obtain ⟨⟨span, name, rfl⟩, he⟩ := hnew hunbounded
    cases List.mem_singleton.1 hn
    exact ⟨⟨span, rfl⟩, he⟩

end Turns

/-- The names inside the module are bound where they are known, and those that are known to be streams
without an end are bound to such. Of the names of the module just these are told which are. -/
structure Agrees (endless : String → Prop) (env : Env) (sc : Scopes) : Prop where
  unbound : ∀ n, sc.local? n = none → env.lookup? n = none
  bound : ∀ n b, sc.local? n = some b →
    ∃ v, env.lookup? n = some v ∧ (b.unbounded = true → v.Endless)
  globals : ∀ n b, Keyed.get? n sc.globals = some b → b.unbounded = true → endless n

namespace Agrees

variable {endless : String → Prop} {env : Env} {sc : Scopes}

theorem atTop (hlocals : sc.locals = [])
    (hglobals : ∀ n b, Keyed.get? n sc.globals = some b → b.unbounded = true → endless n) :
    Agrees endless Env.empty sc where
  unbound _ _ := rfl
  bound n b hb := by
    rw [Scopes.local?, hlocals] at hb
    cases hb
  globals := hglobals

theorem enter (h : Agrees endless env sc) : Agrees endless env sc.enter where
  unbound n hn := h.unbound n (by rwa [Scopes.enter, Scopes.local?_cons] at hn)
  bound n b hb := h.bound n b (by rwa [Scopes.enter, Scopes.local?_cons] at hb)
  globals := h.globals

/-- Names are declared, and bound. -/
theorem extend (h : Agrees endless env sc) (hlocals : sc.locals ≠ []) {names : List String}
    {bindings : List (String × Value)} (hnames : bindings.map (·.1) = names) {scope : Scope}
    (hscope : Introduced names sc.innermost scope)
    (hvalues : ∀ n b v, Keyed.get? n scope = some b → b.unbounded = true → (n, v) ∈ bindings →
      v.Endless) :
    Agrees endless (env.extend bindings) (sc.withInnermost scope) := by
  obtain ⟨globals, _ | ⟨top, rest⟩⟩ := sc
  · exact absurd rfl hlocals
  have hlocal : ∀ n, Scopes.local? ⟨globals, scope :: rest⟩ n =
      if n ∈ names then Keyed.get? n scope else Scopes.local? ⟨globals, top :: rest⟩ n := by
    intro n
    rw [Scopes.local?_cons, Scopes.local?_cons]
    split
    · rename_i hn
      obtain ⟨b, hb⟩ := Option.isSome_iff_exists.1 (hscope.found n hn)
      rw [hb]
      rfl
    · rename_i hn
      rw [hscope.others n hn]
      rfl
  have hframe : ∀ n, n ∈ names ↔ (Env.lookupFrame? n bindings).isSome := by
    intro n
    rw [← hnames, Option.isSome_iff_ne_none, ne_eq, Env.lookupFrame?, fieldOf?_eq_none,
      List.map_reverse, List.mem_reverse, not_not]
  constructor
  case unbound =>
    intro n hn
    change Scopes.local? ⟨globals, scope :: rest⟩ n = none at hn
    rw [hlocal] at hn
    split at hn
    · rename_i hmem
      have hfound := hscope.found n hmem
      rw [hn] at hfound
      cases hfound
    · rename_i hmem
      rw [Env.lookup?_extend, Option.not_isSome_iff_eq_none.1 (mt (hframe n).2 hmem)]
      exact h.unbound n hn
  case bound =>
    intro n b hb
    change Scopes.local? ⟨globals, scope :: rest⟩ n = some b at hb
    rw [hlocal] at hb
    rw [Env.lookup?_extend]
    split at hb
    · rename_i hmem
      obtain ⟨v, hv⟩ := Option.isSome_iff_exists.1 ((hframe n).1 hmem)
      refine ⟨v, by rw [hv]; rfl, fun hunbounded => hvalues n b v hb hunbounded ?_⟩
      exact List.mem_reverse.1 (mem_of_fieldOf?_eq_some hv)
    · rename_i hmem
      rw [Option.not_isSome_iff_eq_none.1 (mt (hframe n).2 hmem)]
      exact h.bound n b hb
  case globals => exact h.globals

/-- So it is with names of which only the type is known. -/
theorem extendTyped (h : Agrees endless env sc) (hlocals : sc.locals ≠ []) {α : Type}
    {x : CheckM α} {names : List String} (hx : Declares OnlyTyped names x) {sc' : Scopes}
    (hturns : Turns x sc sc') {bindings : List (String × Value)}
    (hnames : bindings.map (·.1) = names) :
    sc'.locals ≠ [] ∧ Agrees endless (env.extend bindings) sc' := by
  obtain ⟨scope, rfl, hscope, honly⟩ := hturns.introduced hx
  refine ⟨Scopes.locals_withInnermost_ne_nil hlocals scope, ?_⟩
  refine h.extend hlocals hnames hscope fun n b v hb hunbounded hv => ?_
  rcases honly n b hb with hold | htyped
  · rw [hscope.fresh n (hnames ▸ List.mem_map_of_mem (f := (·.1)) hv)] at hold
    cases hold
  · rw [htyped] at hunbounded
    cases hunbounded

/-- A `let` says of a name that it is a stream without an end if its value visibly is. -/
theorem extendLet (h : Agrees endless env sc) (hlocals : sc.locals ≠ []) {pattern : Pattern}
    {written : Option TypeExpr} {e : Expr} {ty : Ty} {sc' : Scopes}
    (hturns : Turns (declareLet pattern written e ty) sc sc') {v : Value}
    (hv : isUnbounded sc e = true → v.Endless) {bindings : List (String × Value)}
    (hbindings : pattern.Matches v bindings) :
    sc'.locals ≠ [] ∧ Agrees endless (env.extend bindings) sc' := by
  obtain ⟨futures, hfits⟩ := hbindings
  have hnames := pattern.names_of_bindings? hfits
  obtain ⟨scope, rfl, hscope, hlet⟩ := hturns.ofLet
  refine ⟨Scopes.locals_withInnermost_ne_nil hlocals scope, ?_⟩
  refine h.extend hlocals hnames hscope fun n b w hb hunbounded hw => ?_
  have hmem : n ∈ pattern.names := hnames ▸ List.mem_map_of_mem (f := (·.1)) hw
  obtain ⟨⟨span, rfl⟩, he⟩ := hlet n b hmem hb hunbounded
  cases hfits
  cases List.mem_singleton.1 hw
  exact hv he

end Agrees

end Check

end StreamLang

/-! The names at the top of a module, and what the check finds out about them on its way through it. What
it has found out of a name at one point holds at the end, except that the types of functions become
exact. -/

namespace StreamLang.Check

/-- What is declared before the bodies of the functions are looked at. -/
def declarations (exports : Exports) (u : ModuleUnit) : CheckM Globals := do
  modify fun s => { s with scopes := .empty }
  let imported ← declareImports exports u.imports []
  let withFunctions ← declareFunctions u.name u.functions imported
  checkPredicates u.program.items
  return withFunctions

/-- The check of a module, as far as some of its functions and then some of its items. -/
def upTo (exports : Exports) (u : ModuleUnit) (decls : List FunctionDecl) (items : List Item) :
    CheckM Globals := do
  let withFunctions ← declarations exports u
  checkFunctions decls
  checkValues items withFunctions

/-- The bodies of functions change nothing but the types of these functions. -/
theorem checkFunctions_scopes (decls : List FunctionDecl) (s : State) :
    let after := (checkFunctions decls s).2.scopes
    after.locals = s.scopes.locals ∧ OnlyNew OnlyTyped s.scopes.globals after.globals ∧
      ∀ n, n ∉ decls.map FunctionDecl.displayName →
        Keyed.get? n after.globals = Keyed.get? n s.scopes.globals := by
  induction decls generalizing s with
  | nil => exact ⟨rfl, .refl _, fun _ _ => rfl⟩
  | cons d rest ih =>
    let refined : State := { (inferFunction d s).2 with
      scopes := (inferFunction d s).2.scopes.refineGlobal d.displayName (.ofTy (inferFunction d s).1) }
    have hrefined : refined.scopes =
        s.scopes.refineGlobal d.displayName (.ofTy (inferFunction d s).1) := by
      rw [← (inferFunction_adds d).scopes_eq (s := s)]
    obtain ⟨hlocals, honly, hothers⟩ := ih refined
    rw [hrefined] at hlocals honly hothers
    refine ⟨hlocals, (OnlyNew.insert _ _ (onlyTyped_ofTy _)).trans honly, fun n hn => ?_⟩
    obtain ⟨hne, hrest⟩ := List.ne_and_not_mem_of_not_mem_cons hn
    exact (hothers n hrest).trans (Keyed.get?_insert_of_ne hne _ _)

theorem checkValues_append (items more : List Item) (globals : Globals) (s : State) :
    (checkValues (items ++ more) globals s).2 =
      (checkValues more (checkValues items globals s).1 (checkValues items globals s).2).2 := by
  induction items generalizing globals s with
  | nil => rfl
  | cons i rest ih =>
    obtain ⟨kind, exported, span⟩ := i
    cases kind with
    | binding d => exact ih _ _
    | expr e => exact ih _ _
    | _ => exact ih globals s

section

variable (exports : Exports) (u : ModuleUnit) (s : State)

/-- After the imports, before anything else is declared. -/
def importsOf : State := (declareImports exports u.imports [] { s with scopes := .empty }).2

theorem importsOf_locals : (importsOf exports u s).scopes.locals = [] :=
  ((declareImports_declares exports u.imports []).atTop (s := { s with scopes := .empty }) rfl).1

theorem declarations_scopes :
    let after := (declarations exports u s).2
    after.scopes.locals = [] ∧
      OnlyNew OnlyTyped (importsOf exports u s).scopes.globals after.scopes.globals ∧
      (after.Clean → (importsOf exports u s).Clean ∧
        Introduced (u.functions.map FunctionDecl.displayName) (importsOf exports u s).scopes.globals
          after.scopes.globals) := by
  let imported := declareImports exports u.imports [] { s with scopes := .empty }
  let declared := declareFunctions u.name u.functions imported.1 imported.2
  have hpredicates := checkPredicates_adds u.program.items
  have hafter : (declarations exports u s).2 = (checkPredicates u.program.items declared.2).2 := rfl
  have hdeclared := declareFunctions_declares u.name u.functions imported.1
  obtain ⟨hlocals, honly, hadded⟩ := hdeclared.atTop (importsOf_locals exports u s)
  dsimp only
  rw [hafter, hpredicates.scopes_eq]
  refine ⟨hlocals, honly, fun hclean => ?_⟩
  have hclean := (hpredicates.quiet declared.2 hclean).1
  exact ⟨(hdeclared.quiet imported.2 hclean).1, hadded hclean⟩

theorem upTo_locals (decls : List FunctionDecl) (items : List Item) :
    (upTo exports u decls items s).2.scopes.locals = [] := by
  have hfunctions := (checkFunctions_scopes decls (declarations exports u s).2).1
  exact ((checkValues_declares items _).atTop
    (hfunctions.trans (declarations_scopes exports u s).1)).1

end

section

variable {exports : Exports} {u : ModuleUnit} {s : State}
  (hclean : (upTo exports u u.functions u.program.items s).2.Clean)
include hclean

theorem declarations_clean : (declarations exports u s).2.Clean := by
  have hvalues := ((checkValues_declares u.program.items _).quiet _ hclean).1
  exact (checkFunctions_assures u.functions _ hvalues).1

/-- Items find out nothing new about what is there before. -/
theorem kept_of_items {items rest : List Item} (hsplit : u.program.items = items ++ rest) {n : String}
    {b : Binding}
    (h : Keyed.get? n (upTo exports u u.functions items s).2.scopes.globals = some b) :
    Keyed.get? n (upTo exports u u.functions u.program.items s).2.scopes.globals = some b := by
  have happend : (upTo exports u u.functions u.program.items s).2 =
      (checkValues rest (upTo exports u u.functions items s).1
        (upTo exports u u.functions items s).2).2 := by
    rw [hsplit]
    exact checkValues_append items rest _ _
  rw [happend] at hclean ⊢
  obtain ⟨-, -, hadded⟩ := (checkValues_declares rest _).atTop (upTo_locals exports u s _ items)
  exact (hadded hclean).kept n b h

/-- An import has the same meaning everywhere in the module. -/
theorem kept_of_imports {n : String} {b : Binding}
    (h : Keyed.get? n (importsOf exports u s).scopes.globals = some b) :
    Keyed.get? n (upTo exports u u.functions u.program.items s).2.scopes.globals = some b := by
  obtain ⟨-, -, hdeclared⟩ := declarations_scopes exports u s
  have hintroduced := (hdeclared (declarations_clean hclean)).2
  have hfresh : n ∉ u.functions.map FunctionDecl.displayName := by
    intro hn
    rw [hintroduced.fresh n hn] at h
    cases h
  refine kept_of_items hclean (List.nil_append _).symm ?_
  have hsame := (checkFunctions_scopes u.functions (declarations exports u s).2).2.2 n hfresh
  exact hsame.trans (hintroduced.kept n b h)

theorem import_known {i : ResolvedImport} (hi : i ∈ valueImports u.imports) :
    Keyed.get? i.localName (upTo exports u u.functions u.program.items s).2.scopes.globals =
      some (exportOf exports i).binding :=
  kept_of_imports hclean <|
    (lookup?_atTop (importsOf_locals exports u s) _).symm.trans (imports_known hclean hi).1

/-- Of the names that can be seen in a function, only those of imports may be streams without an end. -/
theorem kept_of_functions (decls : List FunctionDecl) {n : String} {b : Binding}
    (h : Keyed.get? n (upTo exports u decls [] s).2.scopes.globals = some b)
    (hb : b.unbounded = true) :
    Keyed.get? n (upTo exports u u.functions u.program.items s).2.scopes.globals = some b := by
  have honly := (declarations_scopes exports u s).2.1.trans
    (checkFunctions_scopes decls (declarations exports u s).2).2.1
  rcases honly n b h with himport | htyped
  · exact kept_of_imports hclean himport
  · rw [htyped] at hb
    cases hb

theorem function_not_unbounded {d : FunctionDecl} (hd : d ∈ u.functions) {b : Binding}
    (h : Keyed.get? d.displayName (upTo exports u u.functions u.program.items s).2.scopes.globals =
      some b) : b.unbounded = false := by
  obtain ⟨-, honly, hdeclared⟩ := declarations_scopes exports u s
  obtain ⟨-, honlyBodies, -⟩ := checkFunctions_scopes u.functions (declarations exports u s).2
  have hintroduced := (hdeclared (declarations_clean hclean)).2
  have hmem : d.displayName ∈ u.functions.map FunctionDecl.displayName := List.mem_map_of_mem hd
  have hfound := (checkFunctions_kept (s := (declarations exports u s).2) u.functions).2 _
    (hintroduced.found _ hmem)
  obtain ⟨b', hb'⟩ := Option.isSome_iff_exists.1 hfound
  have hsame := kept_of_items hclean (List.nil_append _).symm hb'
  rw [h] at hsame
  cases hsame
  rcases honly.trans honlyBodies _ b hb' with himport | htyped
  · rw [hintroduced.fresh _ hmem] at himport
    cases himport
  · rw [htyped]
    rfl

/-- Of the names that a `let` binds, only one that is bound to the value as a whole may be a stream
without an end. -/
theorem let_unbounded {items rest : List Item} {i : Item}
    (hsplit : u.program.items = items ++ i :: rest) {d : LetDecl} (hd : i.kind = .binding d)
    {n : String} (hn : n ∈ d.pattern.names) {b : Binding}
    (h : Keyed.get? n (upTo exports u u.functions u.program.items s).2.scopes.globals = some b)
    (hb : b.unbounded = true) : (∃ span, d.pattern = .bind span n) ∧
      isUnbounded (upTo exports u u.functions items s).2.scopes d.value = true := by
  obtain ⟨kind, exported, span⟩ := i
  obtain rfl : kind = .binding d := hd
  let before := upTo exports u u.functions items s
  let value := infer .module d.value before.2
  let bound := declareLet d.pattern d.ty d.value value.1 value.2
  have hvalue : value.2.scopes = before.2.scopes := (infer_adds _ _).scopes_eq
  have hrun : (upTo exports u u.functions u.program.items s).2 = (checkValues rest
      (bindGlobals bound.2.scopes d.pattern.names before.1) bound.2).2 := by
    rw [hsplit]
    exact checkValues_append items _ _ _
  have hrest := checkValues_declares rest (bindGlobals bound.2.scopes d.pattern.names before.1)
  rw [hrun] at hclean h
  have hturns : Turns (declareLet d.pattern d.ty d.value value.1) before.2.scopes bound.2.scopes :=
    ⟨value.2, hvalue, (hrest.quiet _ hclean).1, rfl⟩
  have hbefore : before.2.scopes.locals = [] := upTo_locals exports u s _ items
  obtain ⟨scope, hscopes, hscope, hlet⟩ := hturns.ofLet
  have hglobals : bound.2.scopes = { before.2.scopes with globals := scope } := by
    rw [hscopes]
    simp only [Scopes.withInnermost, hbefore]
  obtain ⟨b', hb'⟩ := Option.isSome_iff_exists.1 (hscope.found n hn)
  obtain ⟨-, -, hadded⟩ := hrest.atTop (s := bound.2) (by rw [hglobals]; exact hbefore)
  have hsame := (hadded hclean).kept n b' (by rw [hglobals]; exact hb')
  rw [h] at hsame
  cases hsame
  exact hlet n b hn hb' hb

theorem name_known {n : String} {b : Binding}
    (h : Keyed.get? n (upTo exports u u.functions u.program.items s).2.scopes.globals = some b) :
    n ∈ u.valueNames := by
  obtain ⟨-, -, hdeclared⟩ := declarations_scopes exports u s
  obtain ⟨himports, hfunctions⟩ := hdeclared (declarations_clean hclean)
  obtain ⟨-, -, hadded⟩ := (declareImports_declares exports u.imports []).atTop
    (s := { s with scopes := .empty }) rfl
  obtain ⟨hlocals, -, hothers⟩ := checkFunctions_scopes u.functions (declarations exports u s).2
  obtain ⟨-, -, hvalues⟩ := (checkValues_declares u.program.items (declarations exports u s).1).atTop
    (hlocals.trans (declarations_scopes exports u s).1)
  by_contra hn
  rw [ModuleUnit.valueNames, ModuleUnit.ownNames, List.mem_append, List.mem_append, not_or, not_or] at hn
  obtain ⟨hnImports, hnFunctions, hnItems⟩ := hn
  have hnone : Keyed.get? n (upTo exports u u.functions u.program.items s).2.scopes.globals = none :=
    calc _ = _ := (hvalues hclean).others n hnItems
      _ = _ := hothers n hnFunctions
      _ = _ := hfunctions.others n hnFunctions
      _ = none := (hadded himports).others n hnImports
  rw [hnone] at h
  cases h

end

end StreamLang.Check
