import StreamLang.Proofs.Modules.Exports
import StreamLang.Proofs.Running

/-! A pattern has three readers: the check declares its names, a module exports them, and a match binds
them. Each comes to the names that stand in the pattern, from left to right. -/

namespace StreamLang

theorem Keyed.isSome_get?_ofList {α : Type} {key : String} {entries : List (String × α)} :
    (get? key (ofList entries)).isSome ↔ key ∈ entries.map Prod.fst := by
  constructor
  · intro h
    by_contra hnot
    rw [ofList, get?_foldl_insert_of_not_mem Prod.fst Prod.snd hnot] at h
    cases h
  · exact fun h => isSome_get?_foldl_insert Prod.fst Prod.snd (.inr h)

namespace Check

variable {s : State} {names : List String}

/-- The errors among what has been found. -/
def State.errors (s : State) : Array Diagnostic := s.findings.filter Diagnostic.isError

theorem Declares.introduced {α : Type} {ok : Binding → Prop} {x : CheckM α} (h : Declares ok names x)
    (hpass : (x s).2.errors = s.errors) : ∃ scope,
      (x s).2.scopes = s.scopes.withInnermost scope ∧ Introduced names s.scopes.innermost scope := by
  obtain ⟨scope, new, hend, hadded, -⟩ := h s
  refine ⟨scope, by rw [hend.state], hadded fun d hd => ?_⟩
  rw [hend.state, State.errors, State.errors, Array.filter_append Array.size_append,
    Array.append_right_eq_self, Array.filter_eq_empty_iff] at hpass
  exact Bool.eq_false_iff.2 (hpass d hd)

/-- A name of the innermost scope is found. -/
theorem lookup?_innermost {scopes : Scopes} {n : String} (h : (Keyed.get? n scopes.innermost).isSome) :
    (scopes.lookup? n).isSome := by
  obtain ⟨b, hb⟩ := Option.isSome_iff_exists.1 h
  obtain ⟨globals, _ | ⟨top, rest⟩⟩ := scopes
  · exact h
  · have hb : Keyed.get? n top = some b := hb
    simp [Scopes.lookup?, hb]

/-- A module exports the names of its exported items that have a type and a symbol. -/
theorem isSome_exportsOf_iff {scopes : Scopes} {globals : Globals} {p : Program} {n : String} :
    (Keyed.get? n (exportsOf scopes globals p)).isSome ↔
      n ∈ (p.items.filter Item.exported).flatMap Item.declaredNames ∧
        (scopes.lookup? n).isSome ∧ (Keyed.get? n globals).isSome := by
  simp only [exportsOf, Keyed.isSome_get?_ofList, List.mem_map, List.mem_filterMap]
  constructor
  · rintro ⟨e, ⟨m, hm, he⟩, rfl⟩
    split at he
    case h_1 hbinding hsymbol =>
      cases he
      exact ⟨hm, by rw [hbinding]; rfl, by rw [hsymbol]; rfl⟩
    case h_2 => cases he
  · rintro ⟨hn, hbinding, hsymbol⟩
    obtain ⟨b, hb⟩ := Option.isSome_iff_exists.1 hbinding
    obtain ⟨symbol, hs⟩ := Option.isSome_iff_exists.1 hsymbol
    exact ⟨_, ⟨n, hn, by rw [hb, hs]⟩, rfl⟩

/-- An exported `let` in which no error is found. -/
theorem let_exports {d : LetDecl} {span : Span} {globals : Globals}
    (hpass : (checkValues [⟨.binding d, true, span⟩] globals s).2.errors = s.errors) (n : String) :
    let r := checkValues [⟨.binding d, true, span⟩] globals s
    (Keyed.get? n (exportsOf r.2.scopes r.1 ⟨[⟨.binding d, true, span⟩]⟩)).isSome ↔
      n ∈ d.pattern.names := by
  intro r
  obtain ⟨scope, hscopes, hadded⟩ :=
    (checkValues_declares [⟨.binding d, true, span⟩] globals).introduced hpass
  have hnames : [⟨.binding d, true, span⟩].flatMap Item.letNames = d.pattern.names :=
    List.append_nil _
  have hdeclared : (List.filter Item.exported [⟨.binding d, true, span⟩]).flatMap
      Item.declaredNames = d.pattern.names := List.append_nil _
  rw [hnames] at hadded
  rw [isSome_exportsOf_iff, hdeclared]
  refine and_iff_left_of_imp fun hn => ⟨lookup?_innermost ?_, ?_⟩
  · rw [hscopes, Scopes.innermost_withInnermost]
    exact hadded.found n hn
  · exact Keyed.isSome_get?_foldl_insert id _ (.inr (by rwa [List.map_id]))

end Check

open Check in
/-- What a value that fits binds are the names of the pattern; a value that does not fit binds nothing, in
a `let` and in an arm. A check that finds no error adds these names to the innermost scope, all new and
no others, and a module exports them. -/
theorem pattern_names_agree {γ : Type} (p : Pattern) :
    (∀ (futures : FutureTable) (v : Value) (bound : List (String × Value)),
      p.bindings? futures v = some bound → bound.map Prod.fst = p.names) ∧
    (∀ (s : Interpreter γ) (v : Value), p.bindings? s.scheduler.futures v = none →
      Run.destructure p v s = .error (.fail (.patternMismatch v) 0) s ∧
      ∀ (r : Recur γ) (env : Env) (span : Span) (guard : Option Expr) (body : Expr)
        (rest : List MatchArm),
        r.firstArm v env (⟨span, p, guard, body⟩ :: rest) s = r.firstArm v env rest s) ∧
    (∀ (ty : Ty) (seen : List String) (s : State), (bindPattern p ty seen s).2.errors = s.errors →
      ∃ scope, (bindPattern p ty seen s).2.scopes = s.scopes.withInnermost scope ∧
        Introduced p.names s.scopes.innermost scope) ∧
    (∀ (d : LetDecl) (span : Span) (globals : Globals) (s : State), d.pattern = p →
      (checkValues [⟨.binding d, true, span⟩] globals s).2.errors = s.errors →
      let r := checkValues [⟨.binding d, true, span⟩] globals s
      ∀ n, (Keyed.get? n (exportsOf r.2.scopes r.1 ⟨[⟨.binding d, true, span⟩]⟩)).isSome ↔
        n ∈ p.names) := by
  refine ⟨fun _ _ _ => p.names_of_bindings?, fun s v hnone => ⟨?_, ?_⟩, ?_, ?_⟩
  · rw [Run.destructure, Eval.get_bind_apply, hnone]
    rfl
  · intro r env span guard body rest
    rw [Recur.firstArm, Eval.get_bind_apply, hnone]
  · exact fun ty seen s hpass => (bindPattern_declares p ty seen).introduced hpass
  · rintro d span globals s rfl hpass
    exact let_exports hpass

/-- The pattern `(a, [b, ..rest])`. -/
def pairOfLists : Pattern :=
  .tuple .none [.bind .none "a", .list .none [.bind .none "b"] (some (.bind .none "rest"))]

/-- Its value `(1, [2, 3])`, bound by a `let` of a module. -/
def pairOfListsLet : LetDecl where
  span := .none
  pattern := pairOfLists
  ty := none
  value := .tuple .none [.literal .none (.int 1),
    .list .none [.literal .none (.int 2), .literal .none (.int 3)]]

open Check in
/-- The rest of the list is bound last. A list without items does not fit. -/
theorem pairOfLists_binds_three :
    (∃ bound, pairOfLists.bindings? .empty (.tuple [.int 1, .list [.int 2, .int 3]]) = some bound ∧
      bound.map Prod.fst = ["a", "b", "rest"]) ∧
    (∃ scope, (bindPattern pairOfLists (.tuple [.int, .list .int]) []
        (beginning ⟨[], [], []⟩).2).2.scopes = ⟨scope, []⟩ ∧
      Introduced ["a", "b", "rest"] [] scope) ∧
    (let r := checkValues [⟨.binding pairOfListsLet, true, .none⟩] [] (beginning ⟨[], [], []⟩).2
      ∀ n, (Keyed.get? n (exportsOf r.2.scopes r.1
        ⟨[⟨.binding pairOfListsLet, true, .none⟩]⟩)).isSome ↔ n ∈ ["a", "b", "rest"]) := by
  obtain ⟨hmatch, -, hcheck, hexport⟩ := pattern_names_agree (γ := Unit) pairOfLists
  refine ⟨⟨_, rfl, hmatch .empty (.tuple [.int 1, .list [.int 2, .int 3]]) _ rfl⟩, ?_, ?_⟩
  · exact hcheck _ _ _ rfl
  · exact hexport pairOfListsLet .none [] _ rfl rfl

end StreamLang
