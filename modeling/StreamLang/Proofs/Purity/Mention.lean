import StreamLang.Proofs.Purity.Inert

/-! The names that code mentions outside the scope of their bindings. Code that is confined to each
set of names of a family is confined to what these have in common, so there is a least such set. -/

namespace StreamLang

namespace Expr

/-- The set has all names that the sets of the family, of which there is one, have in common. -/
structure Common (family : (String → Prop) → Prop) (target : String → Prop) : Prop where
  inhabited : ∃ good, family good
  names : ∀ n, (∀ good, family good → good n) → target n

section

variable {family : (String → Prop) → Prop} {target : String → Prop}

theorem name_common (hc : Common family target) {bound : List String} {n : String}
    (h : ∀ good, family good → n ∈ bound ∨ good n) : n ∈ bound ∨ target n := by
  by_cases hn : n ∈ bound
  · exact .inl hn
  · exact .inr (hc.names n fun good hgood => (h good hgood).resolve_left hn)

mutual

theorem confined_common (hc : Common family target) (e : Expr) (bound : List String)
    (h : ∀ good, family good → e.Confined good bound) : e.Confined target bound := by
  cases e with
  | literal _ _ => trivial
  | name _ n => exact name_common hc h
  | list _ items => exact allConfined_common hc items bound h
  | tuple _ items => exact allConfined_common hc items bound h
  | map _ entries => exact entriesConfined_common hc entries bound h
  | record _ _ fields => exact fieldsConfined_common hc fields bound h
  | variant _ _ _ args => exact allConfined_common hc args bound h
  | update _ target fields =>
    exact ⟨confined_common hc target bound fun g hg => (h g hg).1,
      fieldsConfined_common hc fields bound fun g hg => (h g hg).2⟩
  | select _ target _ => exact confined_common hc target bound h
  | index _ target key =>
    exact ⟨confined_common hc target bound fun g hg => (h g hg).1,
      confined_common hc key bound fun g hg => (h g hg).2⟩
  | call _ callee args =>
    exact ⟨confined_common hc callee bound fun g hg => (h g hg).1,
      allConfined_common hc args bound fun g hg => (h g hg).2⟩
  | method _ receiver m args =>
    exact ⟨name_common hc fun g hg => (h g hg).1,
      confined_common hc receiver bound fun g hg => (h g hg).2.1,
      allConfined_common hc args bound fun g hg => (h g hg).2.2⟩
  | binary _ _ lhs rhs =>
    exact ⟨confined_common hc lhs bound fun g hg => (h g hg).1,
      confined_common hc rhs bound fun g hg => (h g hg).2⟩
  | unary _ _ operand => exact confined_common hc operand bound h
  | branch _ test whenTrue whenFalse =>
    exact ⟨confined_common hc test bound fun g hg => (h g hg).1,
      confined_common hc whenTrue bound fun g hg => (h g hg).2.1,
      optionConfined_common hc whenFalse bound fun g hg => (h g hg).2.2⟩
  | cases _ scrutinee arms =>
    exact ⟨confined_common hc scrutinee bound fun g hg => (h g hg).1,
      armsConfined_common hc arms bound fun g hg => (h g hg).2⟩
  | block _ stmts tail =>
    exact ⟨stmtsConfined_common hc stmts bound fun g hg => (h g hg).1,
      optionConfined_common hc tail _ fun g hg => (h g hg).2⟩
  | closure _ decl => exact declConfined_common hc decl bound h
  | async _ _ =>
    obtain ⟨good, hgood⟩ := hc.inhabited
    exact h good hgood
  | await _ _ =>
    obtain ⟨good, hgood⟩ := hc.inhabited
    exact h good hgood
  | attempt _ inner => exact confined_common hc inner bound h
termination_by structural e

theorem optionConfined_common (hc : Common family target) (e : Option Expr) (bound : List String)
    (h : ∀ good, family good → OptionConfined good bound e) :
    OptionConfined target bound e := by
  cases e with
  | none => trivial
  | some e => exact confined_common hc e bound h
termination_by structural e

theorem allConfined_common (hc : Common family target) (es : List Expr) (bound : List String)
    (h : ∀ good, family good → AllConfined good bound es) :
    AllConfined target bound es := by
  cases es with
  | nil => trivial
  | cons e rest =>
    exact ⟨confined_common hc e bound fun g hg => (h g hg).1,
      allConfined_common hc rest bound fun g hg => (h g hg).2⟩
termination_by structural es

theorem entriesConfined_common (hc : Common family target) (entries : List (String × Expr))
    (bound : List String) (h : ∀ good, family good → EntriesConfined good bound entries) :
    EntriesConfined target bound entries := by
  cases entries with
  | nil => trivial
  | cons entry rest =>
    obtain ⟨_, e⟩ := entry
    exact ⟨confined_common hc e bound fun g hg => (h g hg).1,
      entriesConfined_common hc rest bound fun g hg => (h g hg).2⟩
termination_by structural entries

theorem fieldsConfined_common (hc : Common family target) (fields : List FieldInit) (bound : List String)
    (h : ∀ good, family good → FieldsConfined good bound fields) :
    FieldsConfined target bound fields := by
  cases fields with
  | nil => trivial
  | cons field rest =>
    obtain ⟨_, _, e⟩ := field
    exact ⟨confined_common hc e bound fun g hg => (h g hg).1,
      fieldsConfined_common hc rest bound fun g hg => (h g hg).2⟩
termination_by structural fields

theorem armsConfined_common (hc : Common family target) (arms : List MatchArm) (bound : List String)
    (h : ∀ good, family good → ArmsConfined good bound arms) :
    ArmsConfined target bound arms := by
  cases arms with
  | nil => trivial
  | cons arm rest =>
    obtain ⟨_, _, guard, body⟩ := arm
    exact ⟨optionConfined_common hc guard _ fun g hg => (h g hg).1,
      confined_common hc body _ fun g hg => (h g hg).2.1,
      armsConfined_common hc rest bound fun g hg => (h g hg).2.2⟩
termination_by structural arms

theorem stmtsConfined_common (hc : Common family target) (stmts : List Stmt) (bound : List String)
    (h : ∀ good, family good → StmtsConfined good bound stmts) :
    StmtsConfined target bound stmts := by
  cases stmts with
  | nil => trivial
  | cons stmt rest => cases stmt with
    | bind _ _ _ e =>
      exact ⟨confined_common hc e bound fun g hg => (h g hg).1,
        stmtsConfined_common hc rest _ fun g hg => (h g hg).2⟩
    | expr e =>
      exact ⟨confined_common hc e bound fun g hg => (h g hg).1,
        stmtsConfined_common hc rest bound fun g hg => (h g hg).2⟩
termination_by structural stmts

theorem declConfined_common (hc : Common family target) (decl : FunctionDecl) (bound : List String)
    (h : ∀ good, family good → DeclConfined good bound decl) :
    DeclConfined target bound decl := by
  obtain ⟨_, params, _, body, _, _⟩ := decl
  obtain ⟨good, hgood⟩ := hc.inhabited
  exact ⟨(h good hgood).1, confined_common hc body _ fun g hg => (h g hg).2⟩
termination_by structural decl

end

end

/-- The expression mentions the name outside the scope of its bindings: it is not confined to any
names without it. -/
def Mentions (bound : List String) (e : Expr) (name : String) : Prop :=
  ∀ good, e.Confined good bound → good name

/-- Only the names that are mentioned matter. -/
theorem Confined.of_mentions {good target : String → Prop} {bound : List String} {e : Expr}
    (h : e.Confined good bound) (htarget : ∀ n, e.Mentions bound n → target n) :
    e.Confined target bound :=
  confined_common ⟨⟨good, h⟩, htarget⟩ e bound fun _ hgood => hgood

end Expr

/-- The function mentions the name outside the scope of its bindings. -/
def FunctionDecl.Mentions (decl : FunctionDecl) (name : String) : Prop :=
  ∀ good, Expr.DeclConfined good [] decl → good name

theorem Expr.DeclConfined.of_mentions {good target : String → Prop} {decl : FunctionDecl}
    (h : Expr.DeclConfined good [] decl) (htarget : ∀ n, decl.Mentions n → target n) :
    Expr.DeclConfined target [] decl :=
  declConfined_common ⟨⟨good, h⟩, htarget⟩ decl [] fun _ hgood => hgood

end StreamLang
