import StreamLang.Proofs.Checker.Declares
import StreamLang.Proofs.Modules.Order
import StreamLang.Proofs.Unreachable.Checked

/-! What the check of a module finds out about the names at its top, and what the modules behind it
learn of it. Without errors these names are all different, each has a type and a symbol in the end,
and an import of one of them is declared with just these. -/

namespace StreamLang

/-- The names that an item binds to values when it is run. -/
def Item.letNames (i : Item) : List String :=
  match i.kind with
  | .binding d => d.pattern.names
  | _ => []

/-- The names of the functions and values that a module declares. -/
def ModuleUnit.ownNames (u : ModuleUnit) : List String :=
  u.functions.map FunctionDecl.displayName ++ u.program.items.flatMap Item.letNames

/-- The names of functions and values at the top of a module, imported or of its own. -/
def ModuleUnit.valueNames (u : ModuleUnit) : List String :=
  (Check.valueImports u.imports).map ResolvedImport.localName ++ u.ownNames

/-- An item that declares functions or values, and brings in none. -/
def Item.declaresValues (i : Item) : Bool := !i.isImport && !(SymbolKind.ofItem i).isType

theorem ModuleUnit.mem_ownNames {u : ModuleUnit} {i : Item} (hi : i ∈ u.program.items)
    (hvalues : i.declaresValues = true) {name : String} (hname : name ∈ i.declaredNames) :
    name ∈ u.ownNames := by
  obtain ⟨kind, exported, span⟩ := i
  cases kind with
  | function d =>
    have hd : d ∈ u.functions := by
      refine List.mem_filterMap.2 ⟨_, hi, if_pos ?_⟩
      exact Option.isSome_iff_exists.2 ⟨name, Option.mem_toList.1 hname⟩
    have hdisplay : d.displayName = name := by
      rw [FunctionDecl.displayName, Option.mem_toList.1 hname]
      rfl
    exact List.mem_append_left _ (List.mem_map.2 ⟨d, hd, hdisplay⟩)
  | binding d =>
    exact List.mem_append_right _ (List.mem_flatMap.2 ⟨_, hi, hname⟩)
  | expr e => cases hname
  | _ => cases hvalues

namespace Check

variable {exports : Exports} {u : ModuleUnit} {s : State}

/-- At the top of a module all names go to the scope of the module. -/
theorem Declares.atTop {α : Type} {ok : Binding → Prop} {names : List String} {x : CheckM α}
    (h : Declares ok names x) (hs : s.scopes.locals = []) : (x s).2.scopes.locals = [] ∧
      OnlyNew ok s.scopes.globals (x s).2.scopes.globals ∧
        ((x s).2.Clean → Introduced names s.scopes.globals (x s).2.scopes.globals) := by
  obtain ⟨scope, new, hend, hadded, honly⟩ := h s
  have hinner : s.scopes.innermost = s.scopes.globals := by rw [Scopes.innermost, hs]
  have hscopes : (x s).2.scopes = { s.scopes with globals := scope } := by
    rw [hend.state]
    simp only [Scopes.withInnermost, hs]
  rw [hscopes]
  rw [hinner] at hadded honly
  refine ⟨hs, honly, fun hclean => hadded fun d hd => ?_⟩
  rw [hend.state] at hclean
  exact hclean d (Array.mem_append_right _ hd)

theorem Adds.scopes_eq {α : Type} {x : CheckM α} (h : Adds x) : (x s).2.scopes = s.scopes := by
  obtain ⟨new, hend⟩ := h s
  rw [hend.state]

/-- In an empty scope nothing is to be kept. -/
theorem Added.widen {names : List String} {scope scope' : Scope} (h : Added names [] scope)
    (hkept : ∀ n, (Keyed.get? n scope).isSome → (Keyed.get? n scope').isSome) :
    Added names [] scope' where
  nodup := h.nodup
  fresh := h.fresh
  found n hn := hkept n (h.found n hn)
  kept _ _ := nofun

theorem lookup?_atTop {scopes : Scopes} (h : scopes.locals = []) (name : String) :
    scopes.lookup? name = Keyed.get? name scopes.globals := by
  rw [Scopes.lookup?, h]
  rfl

-- imports

/-- What an import is declared as. -/
def exportOf (exports : Exports) (i : ResolvedImport) : Export :=
  (findExport? exports i.module i.symbol).getD ⟨.ofTy .unknown, .value .unknown⟩

/-- The check goes on when the name was declared, or with a problem. -/
theorem declare_or_report {α : Type} (name : String) (b : Binding) (fault : CheckFault)
    (span : Span) (f : PUnit → CheckM α) (s : State) :
    ∃ t, (do
        if !(← declare name b) then report fault span
        f ()) s = f () t ∧
      (t.Clean → t.scopes.innermost = Keyed.insert name b s.scopes.innermost) := by
  have hbind : ∀ g : Bool → CheckM α,
      (declare name b >>= g) s = g (declare name b s).1 (declare name b s).2 := fun _ => rfl
  dsimp only
  rw [hbind, declare_apply, Scopes.declare?_eq]
  cases Keyed.contains name s.scopes.innermost with
  | true =>
    refine ⟨(report fault span s).2, rfl, fun hclean => ?_⟩
    cases (hclean _ Array.mem_push_self : true = false)
  | false => exact ⟨_, rfl, fun _ => Scopes.innermost_withInnermost _ _⟩

theorem declareImports_of_type {i : ResolvedImport} (h : i.kind.isType = true)
    (rest : List ResolvedImport) (globals : Globals) :
    declareImports exports (i :: rest) globals = declareImports exports rest globals := by
  rw [declareImports, if_pos h]

variable (exports) in
theorem declareImports_of_value {i : ResolvedImport} (h : i.kind.isType = false)
    (rest : List ResolvedImport) (globals : Globals) (s : State) :
    ∃ t, declareImports exports (i :: rest) globals s =
        declareImports exports rest
          (Keyed.insert i.localName (exportOf exports i).symbol globals) t ∧
      (t.Clean → t.scopes.innermost =
        Keyed.insert i.localName (exportOf exports i).binding s.scopes.innermost) := by
  rw [declareImports, if_neg (by simp [h])]
  exact declare_or_report i.localName (exportOf exports i).binding (.declaredTwice i.localName)
    i.span (fun _ => declareImports exports rest
      (Keyed.insert i.localName (exportOf exports i).symbol globals)) s

theorem declareImports_symbols (imports : List ResolvedImport) (globals : Globals) :
    (declareImports exports imports globals s).1 =
      (valueImports imports).foldl
        (fun m i => Keyed.insert i.localName (exportOf exports i).symbol m) globals := by
  induction imports generalizing globals s with
  | nil => rfl
  | cons i rest ih =>
    cases htype : i.kind.isType with
    | true =>
      rw [declareImports_of_type htype, valueImports, List.filter_cons_of_neg (by simp [htype])]
      exact ih globals
    | false =>
      obtain ⟨t, hrun, -⟩ := declareImports_of_value exports htype rest globals s
      rw [hrun, valueImports, List.filter_cons_of_pos (by simp [htype])]
      exact ih _

theorem declareImports_bindings (imports : List ResolvedImport) (globals : Globals)
    (hclean : (declareImports exports imports globals s).2.Clean) :
    ∀ i ∈ valueImports imports,
      Keyed.get? i.localName (declareImports exports imports globals s).2.scopes.innermost =
        some (exportOf exports i).binding := by
  induction imports generalizing globals s with
  | nil => exact List.forall_mem_nil _
  | cons i rest ih =>
    cases htype : i.kind.isType with
    | true =>
      rw [declareImports_of_type htype] at hclean ⊢
      rw [valueImports, List.filter_cons_of_neg (by simp [htype])]
      exact ih globals hclean
    | false =>
      obtain ⟨t, hrun, hdeclared⟩ :=
        declareImports_of_value exports htype rest globals s
      rw [hrun] at hclean ⊢
      rw [valueImports, List.filter_cons_of_pos (by simp [htype])]
      refine List.forall_mem_cons.2 ⟨?_, ih _ hclean⟩
      -- the declarations behind it do not touch the name
      have hrest := declareImports_declares exports rest
        (Keyed.insert i.localName (exportOf exports i).symbol globals)
      have htop := hdeclared (hrest.quiet t hclean).1
      obtain ⟨scope, new, hend, hadded, -⟩ := hrest t
      rw [hend] at hclean ⊢
      rw [Scopes.innermost_withInnermost]
      refine (hadded fun d hd => hclean d (Array.mem_append_right _ hd)).kept _ _ ?_
      rw [htop, Keyed.get?_insert_self]

-- functions and values

/-- A name of a function refers to it, and each other name to what it did before. -/
theorem declareFunctions_get? (module : String) (decls : List FunctionDecl) (globals : Globals)
    (name : String) :
    let after := Keyed.get? name (declareFunctions module decls globals s).1
    (name ∈ decls.map FunctionDecl.displayName ∧
        ∃ isAsync, after = some (.function ⟨module, name⟩ isAsync)) ∨
      (name ∉ decls.map FunctionDecl.displayName ∧ after = Keyed.get? name globals) := by
  induction decls generalizing globals s with
  | nil => exact .inr ⟨List.not_mem_nil, rfl⟩
  | cons d rest ih =>
    obtain ⟨t, hrun, -⟩ := declare_or_report d.displayName (.ofTy (signature d s).1)
      (.declaredTwice d.displayName) d.span
      (fun _ => declareFunctions module rest (Keyed.insert d.displayName
        (.function ⟨module, d.displayName⟩ d.isAsync) globals)) (signature d s).2
    have hrun : declareFunctions module (d :: rest) globals s = _ := hrun
    rw [hrun, List.map_cons, List.mem_cons, not_or]
    rcases ih (s := t) (Keyed.insert d.displayName (.function ⟨module, d.displayName⟩ d.isAsync)
      globals) with ⟨hrest, hfound⟩ | ⟨hrest, hsame⟩
    · exact .inl ⟨.inr hrest, hfound⟩
    · by_cases hname : name = d.displayName
      · subst hname
        exact .inl ⟨.inl rfl, d.isAsync, hsame.trans (Keyed.get?_insert_self _ _ _)⟩
      · exact .inr ⟨⟨hname, hrest⟩, hsame.trans (Keyed.get?_insert_of_ne hname _ _)⟩

theorem declareFunctions_symbols (module : String) (decls : List FunctionDecl) (globals : Globals)
    {name : String}
    (h : (Keyed.get? name globals).isSome ∨ name ∈ decls.map FunctionDecl.displayName) :
    (Keyed.get? name (declareFunctions module decls globals s).1).isSome := by
  rcases declareFunctions_get? (s := s) module decls globals name with
    ⟨-, isAsync, hfound⟩ | ⟨hnot, hsame⟩
  · rw [hfound]
    rfl
  · rw [hsame]
    exact h.resolve_right hnot

/-- The predicates of aliases are checked in scopes of their own. -/
theorem checkPredicates_adds (items : List Item) : Adds (checkPredicates items) := by
  induction items with
  | nil => exact .pure ()
  | cons i rest ih =>
    unfold checkPredicates
    dsimp only
    split
    · exact ih
    · refine .get_bind (fun _ _ => rfl) fun _ => .enter <| .declare _ _ fun _ => .after (infer_adds _ _) fun _ => ?_
      exact .exit <| .reportIf _ _ ih

theorem checkFunctions_kept (decls : List FunctionDecl) :
    (checkFunctions decls s).2.scopes.locals = s.scopes.locals ∧
      ∀ name, (Keyed.get? name s.scopes.globals).isSome →
        (Keyed.get? name (checkFunctions decls s).2.scopes.globals).isSome := by
  induction decls generalizing s with
  | nil => exact ⟨rfl, fun _ => id⟩
  | cons d rest ih =>
    have hscopes := (inferFunction_adds d).scopes_eq (s := s)
    obtain ⟨hlocals, hglobals⟩ := ih (s := { (inferFunction d s).2 with
      scopes := (inferFunction d s).2.scopes.refineGlobal d.displayName
        (.ofTy (inferFunction d s).1) })
    have hsame : (inferFunction d s).2.scopes.locals = s.scopes.locals :=
      congrArg Scopes.locals hscopes
    refine ⟨hlocals.trans hsame, fun name hname => hglobals name ?_⟩
    rw [← hscopes] at hname
    exact Keyed.isSome_get?_insert _ (.inl hname)

theorem checkValues_declares (items : List Item) (globals : Globals) :
    Declares (fun _ => True) (items.flatMap Item.letNames) (checkValues items globals) := by
  induction items generalizing globals with
  | nil => exact .pure _
  | cons i rest ih =>
    obtain ⟨kind, exported, span⟩ := i
    cases kind with
    | binding d =>
      exact .after (infer_adds _ _) fun _ => .bind (declareLet_declares _ _ _ _) fun _ =>
        .get_bind (fun _ _ => rfl) fun _ => ih _
    | expr e => exact .after (infer_adds _ _) fun _ => ih globals
    | _ => exact ih globals

theorem bindGlobals_get? (scopes : Scopes) (names : List String) (globals : Globals)
    (name : String) :
    let after := Keyed.get? name (bindGlobals scopes names globals)
    (name ∈ names ∧ ∃ ty, after = some (.value ty)) ∨
      (name ∉ names ∧ after = Keyed.get? name globals) := by
  by_cases hname : name ∈ names
  · refine .inl ⟨hname, _, Keyed.get?_foldl_insert id _ hname ?_ globals⟩
    rintro _ _ rfl
    rfl
  · refine .inr ⟨hname, Keyed.get?_foldl_insert_of_not_mem id _ ?_ globals⟩
    rwa [List.map_id]

/-- The names of a `let` refer to values, and each other name to what it did before. -/
theorem checkValues_get? (items : List Item) (globals : Globals) (name : String) :
    let after := Keyed.get? name (checkValues items globals s).1
    (name ∈ items.flatMap Item.letNames ∧ ∃ ty, after = some (.value ty)) ∨
      (name ∉ items.flatMap Item.letNames ∧ after = Keyed.get? name globals) := by
  induction items generalizing globals s with
  | nil => exact .inr ⟨List.not_mem_nil, rfl⟩
  | cons i rest ih =>
    rw [List.flatMap_cons, List.mem_append, not_or]
    obtain ⟨kind, exported, span⟩ := i
    cases kind with
    | binding d =>
      let value := infer .module d.value s
      let t := (declareLet d.pattern d.ty d.value value.1 value.2).2
      rcases ih (s := t) (bindGlobals t.scopes d.pattern.names globals) with
        ⟨hrest, hfound⟩ | ⟨hrest, hsame⟩
      · exact .inl ⟨.inr hrest, hfound⟩
      · rcases bindGlobals_get? t.scopes d.pattern.names globals name with
          ⟨hname, ty, hfound⟩ | ⟨hname, hkept⟩
        · exact .inl ⟨.inl hname, ty, hsame.trans hfound⟩
        · exact .inr ⟨⟨hname, hrest⟩, hsame.trans hkept⟩
    | expr e =>
      exact (ih (s := (infer .module e s).2) globals).imp (.imp_left .inr)
        (.imp_left fun hrest => ⟨List.not_mem_nil, hrest⟩)
    | _ =>
      exact (ih (s := s) globals).imp (.imp_left .inr)
        (.imp_left fun hrest => ⟨List.not_mem_nil, hrest⟩)

theorem checkValues_symbols (items : List Item) (globals : Globals) {name : String}
    (h : (Keyed.get? name globals).isSome ∨ name ∈ items.flatMap Item.letNames) :
    (Keyed.get? name (checkValues items globals s).1).isSome := by
  rcases checkValues_get? (s := s) items globals name with ⟨-, ty, hfound⟩ | ⟨hnot, hsame⟩
  · rw [hfound]
    rfl
  · rw [hsame]
    exact h.resolve_right hnot

/-- After the check of a module, without errors: its names are all different, and each has a type and a
symbol. -/
structure Known (u : ModuleUnit) (r : (Globals × List (String × Export)) × State) : Prop where
  nodup : u.valueNames.Nodup
  binding : ∀ n ∈ u.valueNames, ∃ b, r.2.scopes.lookup? n = some b
  symbol : ∀ n ∈ u.valueNames, ∃ symbol, Keyed.get? n r.1.1 = some symbol
  exports : r.1.2 = exportsOf r.2.scopes r.1.1 u.program

theorem imports_clean (hclean : (checkUnit exports u s).2.Clean) :
    (declareImports exports u.imports [] { s with scopes := .empty }).2.Clean := by
  have hrest : ∀ imported, Assures True (do
      let withFunctions ← declareFunctions u.name u.functions imported
      checkPredicates u.program.items
      checkFunctions u.functions
      let globals ← checkValues u.program.items withFunctions
      return (globals, exportsOf (← get).scopes globals u.program)) :=
    fun imported => .next (declareFunctions_declares _ _ _).quiet fun _ =>
      .next (checkPredicates_adds _).quiet fun _ => .next (checkFunctions_assures _).quiet fun _ =>
        .next (checkValues_declares _ _).quiet fun _ => .get_bind fun _ => .pure _
  exact (hrest _ _ hclean).1

/-- Imports are declared as what was found for them. -/
theorem imports_known (hclean : (checkUnit exports u s).2.Clean) {i : ResolvedImport}
    (hi : i ∈ valueImports u.imports) :
    let r := declareImports exports u.imports [] { s with scopes := .empty }
    r.2.scopes.lookup? i.localName = some (exportOf exports i).binding ∧
      Keyed.get? i.localName r.1 = some (exportOf exports i).symbol := by
  have himports := imports_clean hclean
  obtain ⟨hlocals, -, hadded⟩ := (declareImports_declares exports u.imports []).atTop
    (s := { s with scopes := .empty }) rfl
  have hbinding := declareImports_bindings u.imports [] himports i hi
  rw [Scopes.innermost, hlocals] at hbinding
  refine ⟨(lookup?_atTop hlocals _).trans hbinding, ?_⟩
  rw [declareImports_symbols]
  refine Keyed.get?_foldl_insert ResolvedImport.localName
    (fun i => (exportOf exports i).symbol) hi ?_ []
  intro other hother hname
  rw [List.inj_on_of_nodup_map (hadded himports).nodup hother hi hname]

theorem checkUnit_known (hclean : (checkUnit exports u s).2.Clean) :
    Known u (checkUnit exports u s) := by
  let imported := declareImports exports u.imports [] { s with scopes := .empty }
  let declared := declareFunctions u.name u.functions imported.1 imported.2
  let predicates := (checkPredicates u.program.items declared.2).2
  let functions := (checkFunctions u.functions predicates).2
  let values := checkValues u.program.items declared.1 functions
  have hrun : checkUnit exports u s =
      ((values.1, exportsOf values.2.scopes values.1 u.program), values.2) := rfl
  have hvalues := checkValues_declares u.program.items declared.1
  have hdeclared := declareFunctions_declares u.name u.functions imported.1
  have himported := declareImports_declares exports u.imports []
  have hcleanFunctions : functions.Clean := (hvalues.quiet functions hclean).1
  have hcleanPredicates : predicates.Clean :=
    (checkFunctions_assures u.functions predicates hcleanFunctions).1
  have hcleanDeclared : declared.2.Clean :=
    ((checkPredicates_adds u.program.items).quiet declared.2 hcleanPredicates).1
  have hcleanImported : imported.2.Clean := imports_clean hclean
  obtain ⟨hlocals, -, hadded⟩ := himported.atTop (s := { s with scopes := .empty }) rfl
  obtain ⟨hlocals, -, haddedFunctions⟩ := hdeclared.atTop hlocals
  have hsame : predicates.scopes = declared.2.scopes :=
    (checkPredicates_adds u.program.items).scopes_eq
  obtain ⟨hkeptLocals, hkept⟩ := checkFunctions_kept (s := predicates) u.functions
  rw [hsame] at hkeptLocals hkept
  obtain ⟨hlocals, -, haddedValues⟩ := hvalues.atTop (hkeptLocals.trans hlocals)
  -- the types of functions become exact, and that keeps the names
  have hfunctions := ((hadded hcleanImported).append (haddedFunctions hcleanDeclared)).widen hkept
  have hall := hfunctions.append (haddedValues hclean).toAdded
  rw [List.append_assoc] at hall
  rw [hrun]
  constructor
  case nodup => exact hall.nodup
  case binding =>
    intro n hn
    dsimp only
    rw [lookup?_atTop hlocals]
    exact Option.isSome_iff_exists.1 (hall.found n hn)
  case symbol =>
    intro n hn
    refine Option.isSome_iff_exists.1 (checkValues_symbols _ _ ?_)
    rw [ModuleUnit.valueNames, ModuleUnit.ownNames, ← List.append_assoc, List.mem_append,
      List.mem_append] at hn
    refine hn.imp_left fun hn => declareFunctions_symbols _ _ _ (hn.imp_left fun hn => ?_)
    rw [declareImports_symbols]
    exact Keyed.isSome_get?_foldl_insert _ _ (.inr hn)
  case exports => rfl

/-- A name that refers to a function is bound by no `let`. It is the name of a function of the module, or of
an import that refers to the function in the module that it comes from. -/
theorem function_of_symbol {n : String} {id : FunctionId} {isAsync : Bool}
    (h : Keyed.get? n (checkUnit exports u s).1.1 = some (.function id isAsync)) :
    n ∉ u.program.items.flatMap Item.letNames ∧
      ((n ∈ u.functions.map FunctionDecl.displayName ∧ id = ⟨u.name, n⟩) ∨
        (n ∉ u.functions.map FunctionDecl.displayName ∧ ∃ i ∈ valueImports u.imports,
          i.localName = n ∧ (exportOf exports i).symbol = .function id isAsync)) := by
  let imported := declareImports exports u.imports [] { s with scopes := .empty }
  let declared := declareFunctions u.name u.functions imported.1 imported.2
  let predicates := (checkPredicates u.program.items declared.2).2
  let functions := (checkFunctions u.functions predicates).2
  have hrun : (checkUnit exports u s).1.1 =
      (checkValues u.program.items declared.1 functions).1 := rfl
  rw [hrun] at h
  rcases checkValues_get? (s := functions) u.program.items declared.1 n with
    ⟨-, ty, hvalue⟩ | ⟨hlet, hsame⟩
  · cases h.symm.trans hvalue
  refine ⟨hlet, ?_⟩
  have hdeclared := hsame.symm.trans h
  rcases declareFunctions_get? (s := imported.2) u.name u.functions imported.1 n with
    ⟨hname, _, hfound⟩ | ⟨hname, hsame⟩
  · cases hfound.symm.trans hdeclared
    exact .inl ⟨hname, rfl⟩
  · refine .inr ⟨hname, ?_⟩
    have himported := hsame.symm.trans hdeclared
    rw [declareImports_symbols] at himported
    exact (Keyed.mem_of_get?_foldl_insert _ _ himported).resolve_right nofun

/-- What a module exports under a name is what the name stands for there. -/
theorem known_of_exported {scopes : Scopes} {globals : Globals} {p : Program} {n : String}
    {e : Export} (h : Keyed.get? n (exportsOf scopes globals p) = some e) :
    scopes.lookup? n = some e.binding ∧ Keyed.get? n globals = some e.symbol := by
  obtain ⟨⟨_, _⟩, hmem, rfl, rfl⟩ | hnone := Keyed.mem_of_get?_foldl_insert Prod.fst Prod.snd h
  · obtain ⟨name, -, hname⟩ := List.mem_filterMap.1 hmem
    split at hname
    case h_1 hbinding hsymbol =>
      cases hname
      exact ⟨hbinding, hsymbol⟩
    case h_2 => cases hname
  · cases hnone

/-- A module exports a name as its check leaves it. -/
theorem Known.exists_export {r : (Globals × List (String × Export)) × State} (h : Known u r)
    {i : Item} (hi : i ∈ u.program.items) (hexported : i.exported = true)
    (hvalues : i.declaresValues = true) {name : String} (hname : name ∈ i.declaredNames) :
    ∃ e : Export, Keyed.get? name r.1.2 = some e ∧ r.2.scopes.lookup? name = some e.binding ∧
      Keyed.get? name r.1.1 = some e.symbol := by
  have hmem : name ∈ u.valueNames :=
    List.mem_append_right _ (ModuleUnit.mem_ownNames hi hvalues hname)
  obtain ⟨b, hb⟩ := h.binding name hmem
  obtain ⟨symbol, hsymbol⟩ := h.symbol name hmem
  refine ⟨⟨b, symbol⟩, ?_, hb, hsymbol⟩
  rw [h.exports]
  refine Keyed.get?_foldl_insert Prod.fst Prod.snd (e := (name, (⟨b, symbol⟩ : Export))) ?_ ?_ []
  · refine List.mem_filterMap.2 ⟨name, List.mem_flatMap.2 ⟨i, ?_, hname⟩, ?_⟩
    · exact List.mem_filter.2 ⟨hi, hexported⟩
    · rw [hb, hsymbol]
  · rintro ⟨other, e⟩ hother rfl
    obtain ⟨n, -, hn⟩ := List.mem_filterMap.1 hother
    split at hn
    case h_1 b' symbol' hb' hsymbol' =>
      cases hn
      rw [hb] at hb'
      rw [hsymbol] at hsymbol'
      cases hb'
      cases hsymbol'
      rfl
    case h_2 => cases hn

-- one module after the other

/-- What modules export, and the state in which their check ends. -/
def checkedUnits : List ModuleUnit → Exports × State → Exports × State
  | [], p => p
  | u :: rest, p =>
    let r := checkUnit p.1 u p.2
    checkedUnits rest (Keyed.insert u.name r.1.2 p.1, r.2)

theorem checkedUnits_append (units more : List ModuleUnit) (p : Exports × State) :
    checkedUnits (units ++ more) p = checkedUnits more (checkedUnits units p) := by
  induction units generalizing p with
  | nil => rfl
  | cons u rest ih => exact ih _

theorem get?_checkedUnits_of_not_mem {units : List ModuleUnit} {name : String}
    (h : name ∉ units.map ModuleUnit.name) (p : Exports × State) :
    Keyed.get? name (checkedUnits units p).1 = Keyed.get? name p.1 := by
  induction units generalizing p with
  | nil => rfl
  | cons u rest ih =>
    rw [List.map_cons, List.mem_cons, not_or] at h
    exact (ih h.2 _).trans (Keyed.get?_insert_of_ne h.1 _ _)

/-- The check of a program comes to a module with what those in front of it have left. -/
theorem checkUnits_append (units more : List ModuleUnit) (p : Exports × State)
    (summaries : List (FunctionId × Purity.Summary)) :
    ∃ summaries', checkUnits (units ++ more) p.1 summaries p.2 =
      checkUnits more (checkedUnits units p).1 summaries' (checkedUnits units p).2 := by
  induction units generalizing p summaries with
  | nil => exact ⟨summaries, rfl⟩
  | cons u rest ih =>
    exact ih (Keyed.insert u.name (checkUnit p.1 u p.2).1.2 p.1, (checkUnit p.1 u p.2).2) _

/-- Where a check of modules begins. -/
def beginning (schemas : SchemaTable) : Exports × State := ([], ⟨schemas, .empty, #[]⟩)

theorem program_clean {units : List ModuleUnit} {checked : Checked}
    (h : program units = .ok checked) {before after : List ModuleUnit}
    (hsplit : units = before ++ after) :
    (checkedUnits before (beginning checked.schemas)).2.Clean := by
  obtain ⟨summaries, hrun⟩ := checkUnits_append before after (beginning checked.schemas) []
  let p := checkedUnits before (beginning checked.schemas)
  refine (checkUnits_assures after p.1 summaries p.2 ?_).1
  rw [← hrun, ← hsplit]
  exact (program_eq_ok h).2

/-- The check of a module, which comes behind others. -/
def checkAfter (schemas : SchemaTable) (before : List ModuleUnit) (u : ModuleUnit) :
    (Globals × List (String × Export)) × State :=
  let p := checkedUnits before (beginning schemas)
  checkUnit p.1 u p.2

/-- The first thing that it does: its imports are declared. -/
def importAfter (schemas : SchemaTable) (before : List ModuleUnit) (u : ModuleUnit) :
    Globals × State :=
  let p := checkedUnits before (beginning schemas)
  declareImports p.1 u.imports [] { p.2 with scopes := .empty }

/-- `u` declares the import with the type and the symbol that `v`, which comes behind the modules `front`,
has found out for it. -/
structure ImportDeclared (schemas : SchemaTable) (front : List ModuleUnit) (v : ModuleUnit)
    (before : List ModuleUnit) (u : ModuleUnit) (i : ResolvedImport) (e : Export) : Prop where
  binding : (checkAfter schemas front v).2.scopes.lookup? i.symbol = some e.binding
  symbol : Keyed.get? i.symbol (checkAfter schemas front v).1.1 = some e.symbol
  found : findExport? (checkedUnits before (beginning schemas)).1 i.module i.symbol = some e
  declared : (importAfter schemas before u).2.scopes.lookup? i.localName = some e.binding
  refers : Keyed.get? i.localName (importAfter schemas before u).1 = some e.symbol

variable {units before after front back : List ModuleUnit} {checked : Checked} {v : ModuleUnit}

theorem clean_of_split (h : program units = .ok checked) (hsplit : units = before ++ u :: after) :
    (checkAfter checked.schemas before u).2.Clean := by
  have hnext : units = (before ++ [u]) ++ after := by simp [hsplit]
  have hclean := program_clean h hnext
  rw [checkedUnits_append] at hclean
  exact hclean

/-- What the last module of a name exports. -/
theorem findExport?_checkedUnits (schemas : SchemaTable) (hback : v.name ∉ back.map ModuleUnit.name)
    (name : String) :
    findExport? (checkedUnits (front ++ v :: back) (beginning schemas)).1 v.name name =
      Keyed.get? name (checkAfter schemas front v).1.2 := by
  rw [findExport?, checkedUnits_append, checkedUnits, get?_checkedUnits_of_not_mem hback,
    Keyed.get?_insert_self]
  rfl

/-- An export that is found is one of a module in front, as the check of that module leaves it. -/
theorem exists_exporter {schemas : SchemaTable} (hnodup : (units.map ModuleUnit.name).Nodup)
    (hsplit : units = before ++ after) {module symbol : String} {e : Export}
    (h : findExport? (checkedUnits before (beginning schemas)).1 module symbol = some e) :
    ∃ front w back, before = front ++ w :: back ∧ w.name = module ∧
      (checkAfter schemas front w).2.scopes.lookup? symbol = some e.binding ∧
      Keyed.get? symbol (checkAfter schemas front w).1.1 = some e.symbol := by
  have hmodule : module ∈ before.map ModuleUnit.name := by
    by_contra hnot
    rw [findExport?, get?_checkedUnits_of_not_mem hnot] at h
    cases h
  obtain ⟨w, hw, rfl⟩ := List.mem_map.1 hmodule
  obtain ⟨front, back, rfl⟩ := List.append_of_mem hw
  have hback : w.name ∉ back.map ModuleUnit.name := by
    rw [hsplit, List.map_append, List.map_append, List.map_cons] at hnodup
    exact (List.nodup_cons.1 (List.nodup_append.1 (List.nodup_append.1 hnodup).1).2.1).1
  rw [findExport?_checkedUnits schemas hback] at h
  obtain ⟨hbinding, hsymbol⟩ := known_of_exported h
  exact ⟨front, w, back, rfl, rfl, hbinding, hsymbol⟩

/-- In a program without errors an import is declared as the exporting module has left the symbol. -/
theorem import_declared (h : program units = .ok checked) (hnodup : (units.map ModuleUnit.name).Nodup)
    (hsplit : units = (front ++ v :: back) ++ u :: after) {i : ResolvedImport} (hi : i ∈ u.imports)
    (hmodule : v.name = i.module) {item : Item} (hitem : item ∈ v.program.items)
    (hexported : item.exported = true) (hvalues : item.declaresValues = true)
    (hname : i.symbol ∈ item.declaredNames) (hkind : i.kind.isType = false) :
    ∃ e, ImportDeclared checked.schemas front v (front ++ v :: back) u i e := by
  have hfront : units = front ++ v :: (back ++ u :: after) := by simp [hsplit]
  have hknown : Known v (checkAfter checked.schemas front v) :=
    checkUnit_known (clean_of_split h hfront)
  obtain ⟨e, he, hbinding, hsymbol⟩ := hknown.exists_export hitem hexported hvalues hname
  have hback : v.name ∉ back.map ModuleUnit.name := by
    rw [hfront, List.map_append, List.map_cons, List.map_append] at hnodup
    have htail := (List.nodup_cons.1 (List.nodup_append.1 hnodup).2.1).1
    exact fun hmem => htail (List.mem_append_left _ hmem)
  have hfound : findExport? (checkedUnits (front ++ v :: back) (beginning checked.schemas)).1
      i.module i.symbol = some e := by
    rw [← hmodule, findExport?_checkedUnits checked.schemas hback, he]
  have hvalue : i ∈ valueImports u.imports := List.mem_filter.2 ⟨hi, by simp [hkind]⟩
  have hexport :
      exportOf (checkedUnits (front ++ v :: back) (beginning checked.schemas)).1 i = e := by
    rw [exportOf, hfound]
    rfl
  obtain ⟨hdeclared, hrefers⟩ := imports_known (clean_of_split h hsplit) hvalue
  rw [hexport] at hdeclared hrefers
  exact ⟨e, hbinding, hsymbol, hfound, hdeclared, hrefers⟩

end Check

end StreamLang
