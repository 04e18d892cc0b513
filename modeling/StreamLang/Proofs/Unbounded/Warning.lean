import StreamLang.Outcome
import StreamLang.Proofs.Modules.Imports
import StreamLang.Proofs.Unbounded.Streams

/-! The warning of a stream without an end comes true. What the modules of a program bind at their tops is
what the check takes it for, and so the call of which there is a warning refuses its argument. -/

namespace StreamLang

namespace Accepted

open Check

variable {a : Accepted} {mainName : String} {main : Program} {provider : Provider}
  (haccept : accept mainName main provider = .ok a) {before after : List ModuleUnit} {u : ModuleUnit}
  (hsplit : a.units = before ++ u :: after) {n : String}

include haccept in
theorem names_nodup : (a.units.map ModuleUnit.name).Nodup :=
  (Modules.inOrder_of_resolve (P := ⟨mainName, main, provider⟩) (accept_eq_ok haccept).1).nodup

include haccept in
theorem index_of_name {before' after' : List ModuleUnit} {u' : ModuleUnit}
    (hsplit : a.units = before ++ u :: after) (hsplit' : a.units = before' ++ u' :: after')
    (hname : u.name = u'.name) : before.length = before'.length := by
  have hat : ∀ {front back : List ModuleUnit} {w : ModuleUnit}, a.units = front ++ w :: back →
      (a.units.map ModuleUnit.name)[front.length]? = some w.name := by
    intro front back w h
    rw [h, List.getElem?_map, List.getElem?_append_right (Nat.le_refl _), Nat.sub_self]
    rfl
  have hlt := (List.getElem?_eq_some_iff.1 (hat hsplit)).1
  exact (List.getElem?_inj hlt (names_nodup haccept)).1 (by rw [hat hsplit, hat hsplit', hname])

include hsplit

theorem Endless.known (h : a.Endless before.length n) : ∃ known,
    Keyed.get? n (a.scopesUpTo before u u.functions u.program.items).globals = some known ∧
      known.unbounded = true := by
  obtain ⟨before', u', after', known, hsplit', hlength, hknown⟩ := h
  obtain ⟨rfl, htail⟩ := List.append_inj (hsplit'.symm.trans hsplit) hlength
  cases htail
  exact ⟨known, hknown⟩

include haccept

/-- A stream without an end that is imported is one in the module that it comes from. -/
theorem Endless.imported {i : ResolvedImport} (hi : i ∈ valueImports u.imports)
    (h : a.Endless before.length i.localName) : ∃ front w back, before = front ++ w :: back ∧
      w.name = i.module ∧ a.Endless front.length i.symbol := by
  have hprogram := (accept_eq_ok haccept).2
  obtain ⟨known, hknown, hunbounded⟩ := h.known hsplit
  have himport := import_known (clean_of_split hprogram hsplit) hi
  obtain rfl : (exportOf (checkedUnits before (beginning a.checked.schemas)).1 i).binding = known :=
    Option.some.inj (himport.symm.trans hknown)
  cases hfound : findExport? (checkedUnits before (beginning a.checked.schemas)).1 i.module i.symbol with
  | none =>
    rw [exportOf, hfound] at hunbounded
    cases hunbounded
  | some e =>
    rw [exportOf, hfound] at hunbounded
    obtain ⟨front, w, back, rfl, hname, hexported, -⟩ :=
      exists_exporter (names_nodup haccept) hsplit hfound
    have hfront : a.units = front ++ w :: (back ++ u :: after) := by simp [hsplit]
    have hexported : (a.scopesUpTo front w w.functions w.program.items).lookup? i.symbol =
        some e.binding := hexported
    rw [lookup?_atTop (a.scopesUpTo_locals front w _ _)] at hexported
    exact ⟨front, w, back, rfl, hname, front, w, _, e.binding, hfront, rfl, hexported, hunbounded⟩

end Accepted

namespace Charter

open Check

section

variable {γ : Type} {a : Accepted} {P : Scopes → Expr → Prop}
  {mainName : String} {main : Program} {provider : Provider}
  (haccept : accept mainName main provider = .ok a) {before after : List ModuleUnit} {u : ModuleUnit}
  (hsplit : a.units = before ++ u :: after)
include haccept hsplit

theorem agrees_function (decls : List FunctionDecl) :
    Agrees (a.Endless before.length) Env.empty (a.scopesUpTo before u decls []) := by
  refine .atTop (a.scopesUpTo_locals before u decls []) fun n known hknown hunbounded => ?_
  have hclean := clean_of_split (accept_eq_ok haccept).2 hsplit
  exact ⟨before, u, after, known, hsplit, rfl, kept_of_functions hclean decls hknown hunbounded,
    hunbounded⟩

theorem agrees_item {items rest : List Item} (hitems : u.program.items = items ++ rest) :
    Agrees (a.Endless before.length) Env.empty (a.scopesUpTo before u u.functions items) := by
  refine .atTop (a.scopesUpTo_locals before u u.functions items) fun n known hknown hunbounded => ?_
  have hclean := clean_of_split (accept_eq_ok haccept).2 hsplit
  exact ⟨before, u, after, known, hsplit, rfl, kept_of_items hclean hitems hknown, hunbounded⟩

/-- A module is loaded behind those that were run. -/
theorem endless_loads {l : Loaded} (hl : (endless a P).loaded l) (hsize : l.modules.size = before.length)
    {functions : List (String × Value)}
    (hfunctions : functions.map (·.1) = u.functions.map FunctionDecl.displayName) :
    (endless a P).loaded { l with modules := l.modules.push (ModuleScope.mk u.name
      (Keyed.ofList (Run.importedGlobals l.modules u.imports ++ functions))) } := by
  refine ⟨hl.1, fun m scope hscope => ?_⟩
  rw [Array.getElem?_push] at hscope
  split at hscope
  case isFalse => exact hl.2 m scope hscope
  case isTrue hm =>
    cases hscope
    obtain rfl : m = before.length := hm.trans hsize
    refine ⟨before, u, after, hsplit, rfl, rfl, fun n v hv => ?_⟩
    obtain ⟨⟨n, v⟩, hmem, rfl, rfl⟩ | hnone := Keyed.mem_of_get?_foldl_insert Prod.fst Prod.snd hv
    case inr => cases hnone
    rcases List.mem_append.1 hmem with himport | hfunction
    · obtain ⟨i, hi, rfl, hvalue⟩ := Interpreter.mem_importedGlobals.1 himport
      refine ⟨List.mem_append_left _ (List.mem_map.2 ⟨i, hi, rfl⟩), fun hendless => ?_⟩
      obtain ⟨front, w, back, rfl, hname, hendless⟩ := hendless.imported haccept hsplit hi
      obtain ⟨exporter, hexporter, hget⟩ := Option.bind_eq_some_iff.1 hvalue
      obtain ⟨m, hm, rfl⟩ := Array.mem_iff_getElem.1 (Array.mem_of_find?_eq_some hexporter)
      obtain ⟨before', u', after', hsplit', rfl, hname', hknown⟩ :=
        hl.2 m _ (Array.getElem?_eq_getElem hm)
      have hfound := Array.find?_some hexporter
      rw [beq_iff_eq] at hfound
      have hfront : a.units = front ++ w :: (back ++ u :: after) := by simp [hsplit]
      rw [Accepted.index_of_name haccept hfront hsplit' (by rw [hname, ← hfound, hname'])] at hendless
      exact (hknown i.symbol v hget).2 hendless
    · have hn : n ∈ u.functions.map FunctionDecl.displayName :=
        hfunctions ▸ List.mem_map_of_mem (f := (·.1)) hfunction
      obtain ⟨d, hd, rfl⟩ := List.mem_map.1 hn
      have hown : d.displayName ∈ u.ownNames := List.mem_append_left _ (List.mem_map_of_mem hd)
      refine ⟨List.mem_append_right _ hown, fun hendless => ?_⟩
      obtain ⟨known, hknown, hunbounded⟩ := hendless.known hsplit
      have hclean := clean_of_split (accept_eq_ok haccept).2 hsplit
      rw [function_not_unbounded hclean hd hknown] at hunbounded
      cases hunbounded

/-- What a `let` binds at the top of a module. -/
theorem endless_binds (hall : a.Everywhere P)
    (hP : ∀ sc e, P sc e → isUnbounded sc e = true → isRooted sc e = true) {l : Loaded}
    (hl : (endless a P).loaded l) {i : Item} (hi : i ∈ u.program.items) {d : LetDecl}
    (hd : i.kind = .binding d) {v : Value} {bindings : List (String × Value)}
    (hgives : (endless a P).gives before.length Env.empty d.value v)
    (hbindings : d.pattern.Matches v bindings) :
    (endless a P).loaded { l with modules := l.modules.modify before.length fun scope =>
      { scope with globals := bindings.foldl (fun m b => Keyed.insert b.1 b.2 m) scope.globals } } := by
  refine ⟨hl.1, fun m scope hscope => ?_⟩
  rw [Array.getElem?_modify] at hscope
  split at hscope
  case isFalse => exact hl.2 m scope hscope
  case isTrue hm =>
    subst hm
    obtain ⟨old, hold, rfl⟩ := Option.map_eq_some_iff.1 hscope
    obtain ⟨before', u', after', hsplit', hlength, hname, hknown⟩ := hl.2 _ old hold
    obtain ⟨rfl, htail⟩ := List.append_inj (hsplit'.symm.trans hsplit) hlength
    cases htail
    refine ⟨before', u, after, hsplit, rfl, hname, fun n w hw => ?_⟩
    obtain ⟨⟨n, w⟩, hmem, rfl, rfl⟩ | hbefore :=
      Keyed.mem_of_get?_foldl_insert Prod.fst Prod.snd hw
    case inr => exact hknown n w hbefore
    obtain ⟨futures, hfits⟩ := hbindings
    have hn : n ∈ d.pattern.names :=
      d.pattern.names_of_bindings? hfits ▸ List.mem_map_of_mem (f := (·.1)) hmem
    have hletNames : i.letNames = d.pattern.names := by rw [Item.letNames, hd]
    have hown : n ∈ u.ownNames :=
      List.mem_append_right _ (List.mem_flatMap.2 ⟨i, hi, hletNames ▸ hn⟩)
    refine ⟨List.mem_append_right _ hown, fun hendless => ?_⟩
    obtain ⟨known, hbound, hunbounded⟩ := hendless.known hsplit
    obtain ⟨items, rest, hitems⟩ := List.append_of_mem hi
    have hclean := clean_of_split (accept_eq_ok haccept).2 hsplit
    obtain ⟨⟨span, hpattern⟩, hvisible⟩ := let_unbounded hclean hitems hd hn hbound hunbounded
    have hvalue := (hall.values before' u after hsplit items i rest hitems).1 d hd
    rw [hpattern] at hfits
    cases hfits
    cases List.mem_singleton.1 hmem
    exact (hgives _ (agrees_item haccept hsplit hitems)).1 (hP _ _ hvalue.self hvisible)

theorem endless_opens (hall : a.Everywhere P)
    (hP : ∀ sc e, P sc e → isUnbounded sc e = true → isRooted sc e = true) :
    (endless a P).Opens before.length u where
  functions d hd := by
    obtain ⟨decls, rest, hdecls⟩ := List.append_of_mem hd
    exact ⟨_, hall.functions before u after hsplit decls d rest hdecls,
      agrees_function haccept hsplit decls⟩
  values i hi := by
    obtain ⟨items, rest, hitems⟩ := List.append_of_mem hi
    obtain ⟨hlet, hexpr⟩ := hall.values before u after hsplit items i rest hitems
    have hagrees := agrees_item haccept hsplit hitems
    exact ⟨fun d hd => ⟨_, hlet d hd, hagrees⟩, fun e he => ⟨_, hexpr e he, hagrees⟩⟩
  loads _ _ hl hsize hfunctions := endless_loads haccept hsplit hl hsize hfunctions
  binds _ i hi d hd v bindings hl hgives hbindings :=
    endless_binds haccept hsplit hall hP hl hi hd hgives hbindings

end

end Charter

-- the warning

section

variable {γ : Type} [Gateway γ]

/-- The first argument of the call is a stream without an end, and the builtin refuses it. -/
def Refuses (b : Builtin) (e : Expr) (env : Env) (vs : List Value) (s : Interpreter γ) : Prop :=
  (∃ v, e.firstArgument? vs = some v ∧ v.Endless) ∧
    ∀ fuel, ∃ t, (Recur.ofFuel (fuel + 1)).combine e env vs s =
      .error (.fail (.unboundedStream b.name) 0) t

/-- Asks, whenever the parts of the call have been evaluated, that it refuses them. -/
def refusalWatch (b : Builtin) (e : Expr) (alarm : Run γ PUnit) : Watch γ where
  entering _ _ _ := True
  combining e' env vs s := e' = e → Refuses b e env vs s
  working frames v s := ∀ env done rest, frames = .operand e env done :: rest →
    e.operands.length = done.length + 1 → Refuses b e env (v :: done).reverse s
  alarm := alarm

open Check Charter

variable {a : Accepted} {b : Builtin} {warned : Expr} {due : FutureId → Value → Prop}
  (hnames : a.NamesApart)
  (hlog : b = .log → ∃ n source, warned.called? = some (n, [source]))
include hnames hlog

theorem refuses_of_warned {s : Interpreter γ} {env : Env} {vs : List Value}
    (hl : (endless a (BorneOut b warned)).loaded s.loaded)
    (he : (endless a (BorneOut b warned)).code s.current env warned)
    (hfrom : warned.isFromParts = true)
    (hvs : List.Forall₂ ((endless a (BorneOut b warned)).gives s.current env) warned.operands vs) :
    Refuses b warned env vs s := by
  obtain ⟨sc, he, hagrees⟩ := he
  obtain ⟨n, source, rest, hcalled, hsc, hb, hterminal, harity, hunbounded⟩ :=
    (he.self.warned rfl).called
  have hsource : Everywhere (BorneOut b warned) sc source :=
    he.of_parts hfrom source (Expr.mem_operands_of_called? hcalled)
  have hword := isStreamWord_of_terminal hb hterminal
  obtain ⟨v, ws, id, t, hfirst, hv, hlength, hrun⟩ := combine_called hl hnames hagrees hsc hword hb
    hcalled hvs fun v hgives => (hgives sc hagrees).1 (hsource.self.rooted hunbounded)
  rw [← hlength] at harity
  refine ⟨⟨v, hfirst, hv⟩, fun fuel => ⟨t, ?_⟩⟩
  rw [hrun, Recur.call_builtin harity]
  refine Recur.callBuiltin_endless _ hterminal hv harity (fun hb => ?_) t
  obtain ⟨n', source', hcalled'⟩ := hlog hb
  rw [hcalled] at hcalled'
  cases hcalled'
  exact List.eq_nil_of_length_eq_zero hlength

theorem refusalWatch_met (alarm : Run γ PUnit) :
    (refusalWatch b warned alarm).Met (endless a (BorneOut b warned)) where
  entering _ _ _ := trivial
  combining hs he _ hfrom _ hvs := by
    rintro rfl
    exact refuses_of_warned hnames hlog hs.loaded he hfrom hvs
  working hs hstack _ := by
    rintro env done rest rfl hlast
    obtain ⟨⟨hfrom, he, -, before, part, more, hoperands, hbefore, hpart⟩, -⟩ := hstack.1
    have hlength := hbefore.length_eq
    rw [hoperands, List.length_append, List.length_cons] at hlast
    rw [List.length_reverse] at hlength
    obtain rfl : more = [] := List.eq_nil_of_length_eq_zero (by omega)
    refine refuses_of_warned hnames hlog hs.loaded he hfrom ?_
    rw [hoperands, List.reverse_cons]
    exact List.rel_append hbefore (.cons hpart .nil)

end

open Check in
/-- The warning of a stream without an end comes true, in a program in which names are kept apart. Let no
function or value at the top of a module have the name of a builtin for streams, and no stream without
an end there that of any builtin, and let what the check takes for a stream without an end, wherever it
does, come from the source of such streams by stages with all their arguments, none of them hidden by a
local name. When the call of which there is a warning is reached with its arguments, the first of them is
such a stream, and the call fails for that reason. -/
theorem warned_calls_refuse {γ : Type} [Gateway γ] {mainName : String} {main : Program}
    {provider : Provider} {a : Accepted} (haccept : accept mainName main provider = .ok a)
    (hnames : a.NamesApart) {b : Builtin} {warned : Expr}
    (hall : a.Everywhere (BorneOut b warned))
    (hlog : b = .log → ∃ n source, warned.called? = some (n, [source]))
    (options : Options) (gateway : γ) (fuel : Nat) (alarm : Run γ PUnit) :
    (Runner.supervised (refusalWatch b warned alarm) fuel).runProgram a.units
        (.start a.checked options gateway) =
      (Recur.ofFuel fuel).runProgram a.units (.start a.checked options gateway) := by
  have hP : ∀ sc e, BorneOut b warned sc e → isUnbounded sc e = true → isRooted sc e = true :=
    fun _ _ h => h.rooted
  have hstart : (Charter.endless a (BorneOut b warned)).State (fun _ _ => True)
      (Interpreter.start a.checked options gateway) :=
    .start ⟨rfl, fun m scope hscope => nomatch hscope⟩
  refine (execute_kept (Charter.endless_lawful haccept hnames hall hP)
    (refusalWatch_met hnames hlog alarm) fuel hstart fun j u hu => ?_).1
  obtain ⟨hj, rfl⟩ := List.getElem?_eq_some_iff.1 hu
  have hsplit : a.units = a.units.take j ++ a.units[j] :: a.units.drop (j + 1) := by
    rw [← List.drop_eq_getElem_cons hj, List.take_append_drop]
  have hopens := Charter.endless_opens haccept hsplit hall hP
  rw [List.length_take, Nat.min_eq_left (Nat.le_of_lt hj)] at hopens
  have hindex : (Interpreter.start a.checked options gateway).modules.size + j = j := Nat.zero_add j
  rwa [hindex]

def genDecl : FunctionDecl where
  name := "gen"
  params := [⟨"i", some (.named .none "Int" []), .none⟩]
  ret := some (.named .none "Int" [])
  body := .name .none "i"
  isAsync := false
  span := .none

/-- `generate_infinite(gen)` -/
def endlessCall : Expr := .call .none (.name .none "generate_infinite") [.name .none "gen"]

/-- `s.map(gen).collect()` -/
def chainCall : Expr :=
  .method .none (.method .none (.name .none "s") "map" [.name .none "gen"]) "collect" []

/-- `fn gen(i: Int) -> Int { i }`
`{ let s = generate_infinite(gen); s.map(gen).collect() };` -/
def chainProgram : Program where
  items :=
    [⟨.function genDecl, false, .none⟩,
     ⟨.expr (.block .none [.bind .none (.bind .none "s") none endlessCall] (some chainCall)), false,
      .none⟩]

def chainAccepted : Accepted :=
  ⟨[⟨"main", chainProgram, []⟩], ⟨.empty, [⟨"main", "gen"⟩],
    [.ofSpan .warning (Warning.unboundedStream (.sequence .collect)).message .none]⟩⟩

theorem chain_apart : chainAccepted.NamesApart := by
  intro u hu n hn
  cases List.mem_singleton.1 hu
  obtain rfl : n = "gen" := List.mem_singleton.1 hn
  exact ⟨by decide, fun _ => by decide⟩

open Check in
theorem chain_borne_out : chainAccepted.Everywhere (BorneOut (.sequence .collect) chainCall) where
  functions before u after hsplit decls d rest hdecls := by
    rcases List.append_eq_singleton_iff.1 hsplit.symm with ⟨rfl, hmain⟩ | ⟨-, hnone⟩
    case inr => cases hnone
    cases hmain
    rcases List.append_eq_singleton_iff.1 hdecls.symm with ⟨rfl, hgen⟩ | ⟨-, hnone⟩
    case inr => cases hnone
    cases hgen
    exact ⟨_, ⟨⟨chainAccepted.checked.schemas, _, #[]⟩, rfl,
      fun d hd => absurd hd (Array.not_mem_empty d), rfl⟩, .name ⟨id, nofun⟩⟩
  values before u after hsplit items i rest hitems := by
    rcases List.append_eq_singleton_iff.1 hsplit.symm with ⟨rfl, hmain⟩ | ⟨-, hnone⟩
    case inr => cases hnone
    cases hmain
    rcases items with _ | ⟨_, _ | ⟨_, items⟩⟩
    · cases hitems
      exact ⟨nofun, nofun⟩
    · cases hitems
      refine ⟨nofun, fun e he => ?_⟩
      cases he
      have hname : ∀ sc n, Everywhere (BorneOut (.sequence .collect) chainCall) sc (.name .none n) :=
        fun _ _ => .name ⟨id, nofun⟩
      let sc := chainAccepted.scopesUpTo [] ⟨"main", chainProgram, []⟩ [genDecl]
        [⟨.function genDecl, false, .none⟩]
      have hlet : Turns (declareLet (.bind .none "s") none endlessCall .unknown) sc.enter
          ⟨sc.globals, [[("s", ⟨.unknown, none, true⟩)]]⟩ :=
        ⟨⟨.empty, sc.enter, #[]⟩, rfl, fun d hd => absurd hd (Array.not_mem_empty d), rfl⟩
      refine .block ⟨by decide, nofun⟩ (.bind (.parts ⟨by decide, nofun⟩ rfl ?_) hlet (.done ?_))
      · exact List.forall_mem_cons.2 ⟨hname _ _, List.forall_mem_singleton.2 (hname _ _)⟩
      · rintro _ ⟨⟩
        refine .parts ⟨by decide, fun _ => ?_⟩ rfl (List.forall_mem_singleton.2 ?_)
        · exact ⟨"collect", _, [], rfl, rfl, rfl, [.unknown], ⟨.empty, _, #[]⟩, rfl, rfl,
            fun d hd => absurd hd (Array.not_mem_empty d), rfl⟩
        · refine .parts ⟨by decide, nofun⟩ rfl (List.forall_mem_cons.2 ⟨hname _ _, ?_⟩)
          exact List.forall_mem_singleton.2 (hname _ _)
    · simp [chainProgram] at hitems
  predicates u hu i hi d hd p hp := by
    cases List.mem_singleton.1 hu
    simp only [chainProgram, List.mem_cons, List.not_mem_nil, or_false] at hi
    rcases hi with rfl | rfl <;> cases hd

def chainState : Interpreter StockGateway := .start chainAccepted.checked .default (.null [])

/-- The warning is drawn, and the run ends as it says. -/
theorem chain_refuses :
    accept "main" chainProgram [] = .ok chainAccepted ∧
      (∀ alarm, (Runner.supervised (refusalWatch (.sequence .collect) chainCall alarm) 9).runProgram
        chainAccepted.units chainState = (Recur.ofFuel 9).runProgram chainAccepted.units chainState) ∧
      (chainState.execute 9 chainAccepted.units).1.failure?.map Failure.render =
        some "Runtime Error (Line 0): unbounded stream reaches `collect` without a bounding `take`" := by
  have haccept : accept "main" chainProgram [] = .ok chainAccepted := rfl
  have hlog : Builtin.sequence .collect = .log → ∃ n source, chainCall.called? = some (n, [source]) :=
    nofun
  refine ⟨haccept, fun alarm => ?_, by decide +kernel⟩
  have h := warned_calls_refuse haccept chain_apart chain_borne_out hlog .default
    (StockGateway.null []) 9 alarm
  exact h

/-- `fn map(s: Any, f: Any) -> Any { [1, 2] }` -/
def ownMap : FunctionDecl where
  name := "map"
  params := [⟨"s", some (.named .none "Any" []), .none⟩, ⟨"f", some (.named .none "Any" []), .none⟩]
  ret := some (.named .none "Any" [])
  body := .list .none [.literal .none (.int 1), .literal .none (.int 2)]
  isAsync := false
  span := .none

/-- The same program with a function of the name of the stage. -/
def shadowedUnits : List ModuleUnit :=
  [⟨"main", ⟨⟨.function ownMap, false, .none⟩ :: chainProgram.items⟩, []⟩]

def shadowedAccepted : Accepted :=
  ⟨shadowedUnits, ⟨.empty, [⟨"main", "map"⟩, ⟨"main", "gen"⟩], chainAccepted.checked.warnings⟩⟩

/-- A method call of it is taken for the stage: the warning is drawn, and the call gives a list. -/
theorem shadowed_stage_collects :
    accept "main" ⟨⟨.function ownMap, false, .none⟩ :: chainProgram.items⟩ [] = .ok shadowedAccepted ∧
      ((Interpreter.start shadowedAccepted.checked ⟨512, false, 1000, false⟩
        (StockGateway.null [])).execute 9 shadowedUnits).2.results.toList.map Value.repr =
          ["[1, 2]"] := by
  exact ⟨rfl, by decide +kernel⟩

end StreamLang
