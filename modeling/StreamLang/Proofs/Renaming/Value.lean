import StreamLang.Interpreter

/-! Values with other identities. Neither the text of a value, nor its document, nor the code under which
a call is remembered shows an identity, and equality asks only which identities are the same. -/

namespace StreamLang

section

variable (ρ : Identity → Identity)

mutual

/-- The value with other identities, to any depth. -/
def Value.rename : Value → Value
  | .list items => .list (Value.renameAll items)
  | .map entries => .map (Value.renameEntries entries)
  | .set items => .set (Value.renameAll items)
  | .record name fields => .record name (Value.renameEntries fields)
  | .enum e variant payload => .enum e variant (Value.renameOption payload)
  | .tuple items => .tuple (Value.renameAll items)
  | .option inner => .option (Value.renameOption inner)
  | .ok inner => .ok (Value.rename inner)
  | .err error => .err (Value.rename error)
  | .stream id p => .stream (ρ id) (Pipeline.rename p)
  | .function id c => .function (ρ id) (Callable.rename c)
  | .int n => .int n
  | .float x => .float x
  | .text s => .text s
  | .bool b => .bool b
  | .void => .void
  | .future id => .future id
  | .model document => .model document
  | .prediction document => .prediction document

def Value.renameOption : Option Value → Option Value
  | none => none
  | some v => some (Value.rename v)

def Value.renameAll : List Value → List Value
  | [] => []
  | v :: rest => Value.rename v :: Value.renameAll rest

def Value.renameEntries : List (String × Value) → List (String × Value)
  | [] => []
  | (key, v) :: rest => (key, Value.rename v) :: Value.renameEntries rest

def Value.renameFrames : List (List (String × Value)) → List (List (String × Value))
  | [] => []
  | frame :: rest => Value.renameEntries frame :: Value.renameFrames rest

def Callable.rename : Callable → Callable
  | .closure decl env module => .closure decl (Value.renameFrames env) module
  | .builtin b => .builtin b
  | .applied target args => .applied (Callable.rename target) (Value.renameAll args)

def Source.rename : Source → Source
  | .list items => .list (Value.renameAll items)
  | .range start stop step => .range start stop step
  | .generate count generator => .generate count (Value.rename generator)
  | .infinite generator => .infinite (Value.rename generator)
  | .empty => .empty

def Stage.rename : Stage → Stage
  | .map f => .map (Value.rename f)
  | .filter f => .filter (Value.rename f)
  | .flatMap f => .flatMap (Value.rename f)
  | .take n => .take n
  | .skip n => .skip n

def Stage.renameAll : List Stage → List Stage
  | [] => []
  | stage :: rest => Stage.rename stage :: Stage.renameAll rest

def Pipeline.rename : Pipeline → Pipeline
  | ⟨source, stages⟩ => ⟨Source.rename source, Stage.renameAll stages⟩

end

/-- What is stored under a name, with other identities. -/
def Value.renameEntry {ι : Type} (e : ι × Value) : ι × Value := (e.1, e.2.rename ρ)

def Env.rename (env : Env) : Env := env.map (List.map (Value.renameEntry ρ))

end

namespace Value

variable {ρ : Identity → Identity}

theorem renameAll_eq (vs : List Value) : renameAll ρ vs = vs.map (rename ρ) := by
  induction vs with
  | nil => rfl
  | cons v rest ih => exact congrArg (rename ρ v :: ·) ih

theorem renameOption_eq (v : Option Value) : renameOption ρ v = v.map (rename ρ) := by
  cases v <;> rfl

theorem renameEntries_eq (entries : List (String × Value)) :
    renameEntries ρ entries = entries.map (renameEntry ρ) := by
  induction entries with
  | nil => rfl
  | cons e rest ih => exact congrArg (renameEntry ρ e :: ·) ih

theorem renameFrames_eq (env : Env) : renameFrames ρ env = env.rename ρ := by
  induction env with
  | nil => rfl
  | cons frame rest ih =>
    change renameEntries ρ frame :: renameFrames ρ rest = _
    rw [ih, renameEntries_eq]
    rfl

@[simp] theorem renameEntry_fst {ι : Type} (e : ι × Value) : (renameEntry ρ e).1 = e.1 := rfl

@[simp] theorem renameEntry_snd {ι : Type} (e : ι × Value) : (renameEntry ρ e).2 = e.2.rename ρ := rfl

@[simp] theorem rename_int (n : Int64) : (int n).rename ρ = int n := rfl

@[simp] theorem rename_float (x : Binary64) : (float x).rename ρ = float x := rfl

@[simp] theorem rename_text (s : String) : (text s).rename ρ = text s := rfl

@[simp] theorem rename_bool (b : Bool) : (bool b).rename ρ = bool b := rfl

@[simp] theorem rename_void : void.rename ρ = void := rfl

@[simp] theorem rename_future (id : Nat) : (future id).rename ρ = future id := rfl

@[simp] theorem rename_list (items : List Value) :
    (list items).rename ρ = list (items.map (rename ρ)) := congrArg list (renameAll_eq items)

@[simp] theorem rename_set (items : List Value) :
    (set items).rename ρ = set (items.map (rename ρ)) := congrArg set (renameAll_eq items)

@[simp] theorem rename_tuple (items : List Value) :
    (tuple items).rename ρ = tuple (items.map (rename ρ)) := congrArg tuple (renameAll_eq items)

@[simp] theorem rename_map (entries : List (String × Value)) :
    (map entries).rename ρ = map (entries.map (renameEntry ρ)) := congrArg map (renameEntries_eq entries)

@[simp] theorem rename_record (name : String) (fields : List (String × Value)) :
    (record name fields).rename ρ = record name (fields.map (renameEntry ρ)) :=
  congrArg (record name) (renameEntries_eq fields)

@[simp] theorem rename_enum (e variant : String) (payload : Option Value) :
    (enum e variant payload).rename ρ = enum e variant (payload.map (rename ρ)) :=
  congrArg (enum e variant) (renameOption_eq payload)

@[simp] theorem rename_option (inner : Option Value) :
    (option inner).rename ρ = option (inner.map (rename ρ)) := congrArg option (renameOption_eq inner)

@[simp] theorem rename_ok (inner : Value) : (ok inner).rename ρ = ok (inner.rename ρ) := rfl

@[simp] theorem rename_err (error : Value) : (err error).rename ρ = err (error.rename ρ) := rfl

@[simp] theorem rename_stream (id : Identity) (p : Pipeline) :
    (stream id p).rename ρ = stream (ρ id) (p.rename ρ) := rfl

@[simp] theorem rename_function (id : Identity) (c : Callable) :
    (function id c).rename ρ = function (ρ id) (c.rename ρ) := rfl

@[simp] theorem rename_ofLiteral (l : Literal) : (ofLiteral l).rename ρ = ofLiteral l := by
  cases l <;> rfl

@[simp] theorem kind_rename (v : Value) : (v.rename ρ).kind = v.kind := by cases v <;> rfl

@[simp] theorem toBinary64?_rename (v : Value) : (v.rename ρ).toBinary64? = v.toBinary64? := by
  cases v <;> rfl

end Value

namespace Callable

variable {ρ : Identity → Identity}

@[simp] theorem rename_closure (decl : FunctionDecl) (env : Env) (module : Nat) :
    (closure decl env module).rename ρ = closure decl (env.rename ρ) module :=
  congrArg (closure decl · module) (Value.renameFrames_eq env)

@[simp] theorem rename_builtin (b : Builtin) : (builtin b).rename ρ = builtin b := rfl

@[simp] theorem rename_applied (target : Callable) (args : List Value) :
    (applied target args).rename ρ = applied (target.rename ρ) (args.map (Value.rename ρ)) :=
  congrArg (applied (target.rename ρ)) (Value.renameAll_eq args)

theorem name_rename : ∀ c : Callable, (c.rename ρ).name = c.name
  | .closure _ _ _ => rfl
  | .builtin _ => rfl
  | .applied target _ => name_rename target

end Callable

@[simp] theorem Source.rename_list {ρ : Identity → Identity} (items : List Value) :
    (Source.list items).rename ρ = .list (items.map (Value.rename ρ)) :=
  congrArg Source.list (Value.renameAll_eq items)

namespace Pipeline

variable {ρ : Identity → Identity}

@[simp] theorem rename_mk (source : Source) (stages : List Stage) :
    (Pipeline.mk source stages).rename ρ = ⟨source.rename ρ, stages.map (Stage.rename ρ)⟩ := by
  have hstages : Stage.renameAll ρ stages = stages.map (Stage.rename ρ) := by
    induction stages with
    | nil => rfl
    | cons stage rest ih => exact congrArg (stage.rename ρ :: ·) ih
  exact congrArg (Pipeline.mk (source.rename ρ)) hstages

@[simp] theorem source_rename (p : Pipeline) : (p.rename ρ).source = p.source.rename ρ := by cases p; rfl

@[simp] theorem stages_rename (p : Pipeline) : (p.rename ρ).stages = p.stages.map (Stage.rename ρ) := by
  cases p
  rw [rename_mk]

end Pipeline

/-! Texts, documents and codes -/

namespace Value

variable {ρ : Identity → Identity}

mutual

theorem repr_rename : ∀ v : Value, (v.rename ρ).repr = v.repr
  | .list items => by rw [rename, repr, repr, reprAll_rename items]
  | .map entries => by rw [rename, repr, repr, reprEntries_rename entries]
  | .set items => by rw [rename, repr, repr, reprAll_rename items]
  | .record name fields => by rw [rename, repr, repr, reprEntries_rename fields]
  | .enum e variant payload => by rw [rename, repr, repr, reprPayload_rename payload]
  | .tuple items => by rw [rename, repr, repr, reprAll_rename items]
  | .option none => rfl
  | .option (some v) => by rw [rename, renameOption, repr, repr, reprOption, reprOption, repr_rename v]
  | .ok inner => by rw [rename, repr, repr, repr_rename inner]
  | .err error => by rw [rename, repr, repr, repr_rename error]
  | .function _ c => by rw [rename, repr, repr, c.name_rename]
  | .stream _ _ => rfl
  | .int _ => rfl
  | .float _ => rfl
  | .text _ => rfl
  | .bool _ => rfl
  | .void => rfl
  | .future _ => rfl
  | .model _ => rfl
  | .prediction _ => rfl

theorem reprPayload_rename : ∀ v : Option Value, reprPayload (renameOption ρ v) = reprPayload v
  | none => rfl
  | some v => by
    have hv := repr_rename v
    cases v with
    | tuple items => exact hv
    | _ => exact congrArg (fun s => "(" ++ s ++ ")") hv

theorem reprAll_rename : ∀ vs : List Value, reprAll (renameAll ρ vs) = reprAll vs
  | [] => rfl
  | v :: rest => by rw [renameAll, reprAll, reprAll, repr_rename v, reprAll_rename rest]

theorem reprEntries_rename : ∀ entries : List (String × Value),
    reprEntries (renameEntries ρ entries) = reprEntries entries
  | [] => rfl
  | (key, v) :: rest => by
    rw [renameEntries, reprEntries, reprEntries, repr_rename v, reprEntries_rename rest]

end

@[simp] theorem render_rename (v : Value) : (v.rename ρ).render = v.render := by
  have hv := v.repr_rename (ρ := ρ)
  cases v with
  | text s => rfl
  | _ => exact hv

section

variable (L : Json.Library)

mutual

theorem write_rename : ∀ v : Value, (v.rename ρ).write L = v.write L
  | .list items => by rw [rename, write, write, writeAll_rename items]
  | .map entries => by rw [rename, write, write, writeEntries_rename entries]
  | .set items => by rw [rename, write, write, writeAll_rename items]
  | .record name fields => by rw [rename, write, write, writeEntries_rename fields]
  | .enum e variant payload => by rw [rename, write, write, writeOption_rename payload]
  | .tuple items => by rw [rename, write, write, writeAll_rename items]
  | .option inner => by rw [rename, write, write, writeOption_rename inner]
  | .ok inner => by rw [rename, write, write, write_rename inner]
  | .err error => by rw [rename, write, write, write_rename error]
  | .function id c => congrArg Json.text ((function id c).repr_rename)
  | .stream _ _ => rfl
  | .int _ => rfl
  | .float _ => rfl
  | .text _ => rfl
  | .bool _ => rfl
  | .void => rfl
  | .future _ => rfl
  | .model _ => rfl
  | .prediction _ => rfl

theorem writeOption_rename :
    ∀ v : Option Value, writeOption L (renameOption ρ v) = writeOption L v
  | none => rfl
  | some v => write_rename v

theorem writeAll_rename : ∀ vs : List Value, writeAll L (renameAll ρ vs) = writeAll L vs
  | [] => rfl
  | v :: rest => by rw [renameAll, writeAll, writeAll, write_rename v, writeAll_rename rest]

theorem writeEntries_rename : ∀ entries : List (String × Value),
    writeEntries L (renameEntries ρ entries) = writeEntries L entries
  | [] => rfl
  | (key, v) :: rest => by
    rw [renameEntries, writeEntries, writeEntries, write_rename v, writeEntries_rename rest]

end

end

theorem toJson_rename (v : Value) : (v.rename ρ).toJson = v.toJson := write_rename Json.library v

theorem length_renameAll (vs : List Value) : (renameAll ρ vs).length = vs.length := by
  rw [renameAll_eq, List.length_map]

theorem length_renameEntries (entries : List (String × Value)) :
    (renameEntries ρ entries).length = entries.length := by
  rw [renameEntries_eq, List.length_map]

mutual

theorem code?_rename : ∀ v : Value, (v.rename ρ).code? = v.code?
  | .list items => by rw [rename, code?, code?, codes?_renameAll items, length_renameAll]
  | .map entries => by
    rw [rename, code?, code?, entryCodes?_renameEntries entries, length_renameEntries]
  | .set items => by rw [rename, code?, code?, codes?_renameAll items, length_renameAll]
  | .record name fields => by
    rw [rename, code?, code?, entryCodes?_renameEntries fields, length_renameEntries]
  | .enum e variant none => rfl
  | .enum e variant (some payload) => by rw [rename, renameOption, code?, code?, code?_rename payload]
  | .tuple items => by rw [rename, code?, code?, codes?_renameAll items, length_renameAll]
  | .option none => rfl
  | .option (some inner) => by rw [rename, renameOption, code?, code?, code?_rename inner]
  | .ok inner => by rw [rename, code?, code?, code?_rename inner]
  | .err error => by rw [rename, code?, code?, code?_rename error]
  | .function _ _ => rfl
  | .stream _ _ => rfl
  | .int _ => rfl
  | .float _ => rfl
  | .text _ => rfl
  | .bool _ => rfl
  | .void => rfl
  | .future _ => rfl
  | .model _ => rfl
  | .prediction _ => rfl

theorem codes?_renameAll : ∀ vs : List Value, codes? (renameAll ρ vs) = codes? vs
  | [] => rfl
  | v :: rest => by rw [renameAll, codes?, codes?, code?_rename v, codes?_renameAll rest]

theorem entryCodes?_renameEntries : ∀ entries : List (String × Value),
    entryCodes? (renameEntries ρ entries) = entryCodes? entries
  | [] => rfl
  | (key, v) :: rest => by
    rw [renameEntries, entryCodes?, entryCodes?, code?_rename v, entryCodes?_renameEntries rest]

end

/-! Equality -/

theorem sameKind_rename (a b : Value) : sameKind (a.rename ρ) (b.rename ρ) = sameKind a b := by
  rw [sameKind, sameKind, kind_rename, kind_rename]

theorem beq_rename (hρ : Function.Injective ρ) (id id' : Identity) : (ρ id == ρ id') = (id == id') := by
  rw [Bool.eq_iff_iff, beq_iff_eq, beq_iff_eq]
  exact hρ.eq_iff

mutual

theorem equalsFrom_rename (hρ : Function.Injective ρ) (flip : Bool) :
    ∀ a b : Value, equalsFrom flip (a.rename ρ) (b.rename ρ) = equalsFrom flip a b
  | .list as, b => by cases b with
    | list bs => exact equalsAll_rename hρ flip as bs
    | _ => rfl
  | .tuple as, b => by cases b with
    | tuple bs => exact equalsAll_rename hρ flip as bs
    | _ => rfl
  | .map as, b => by cases b with
    | map bs => exact equalsEntries_rename hρ flip as bs
    | _ => rfl
  | .record name as, b => by cases b with
    | record name' bs =>
      rw [rename, rename, equalsFrom, equalsFrom, equalsEntries_rename hρ flip as bs]
    | _ => rfl
  | .set as, b => by cases b with
    | set bs =>
      rw [rename, rename, equalsFrom, equalsFrom, length_renameAll, length_renameAll,
        allAmong_rename hρ as bs, renameAll_eq bs, List.all_map]
      rw [show isAmong (renameAll ρ as) ∘ rename ρ = isAmong as from
        funext fun b => isAmong_rename hρ as b]
    | _ => rfl
  | .enum e v p, b => by cases b with
    | enum f w q => rw [rename, rename, equalsFrom, equalsFrom, equalsOption_rename hρ flip p q]
    | _ => rfl
  | .option p, b => by cases b with
    | option q => exact equalsOption_rename hρ flip p q
    | _ => rfl
  | .ok a, b => by cases b with
    | ok b => exact equalsFrom_rename hρ flip a b
    | _ => rfl
  | .err a, b => by cases b with
    | err b => exact equalsFrom_rename hρ flip a b
    | _ => rfl
  | .stream id p, b => by cases b with
    | stream id' q => exact beq_rename hρ id id'
    | _ => rfl
  | .function id c, b => by cases b with
    | function id' d => exact beq_rename hρ id id'
    | _ => rfl
  | .int _, b => by cases b <;> rfl
  | .float _, b => by cases b <;> rfl
  | .text _, b => by cases b <;> rfl
  | .bool _, b => by cases b <;> rfl
  | .void, b => by cases b <;> rfl
  | .future _, b => by cases b <;> rfl
  | .model _, b => by cases b <;> rfl
  | .prediction _, b => by cases b <;> rfl
termination_by structural a => a

theorem equalsOption_rename (hρ : Function.Injective ρ) (flip : Bool) : ∀ a b : Option Value,
    equalsOption flip (renameOption ρ a) (renameOption ρ b) = equalsOption flip a b
  | none, b => by cases b <;> rfl
  | some a, b => by cases b with
    | none => rfl
    | some b => exact equalsFrom_rename hρ flip a b
termination_by structural a => a

theorem equalsAll_rename (hρ : Function.Injective ρ) (flip : Bool) : ∀ as bs : List Value,
    equalsAll flip (renameAll ρ as) (renameAll ρ bs) = equalsAll flip as bs
  | [], bs => by cases bs <;> rfl
  | a :: as, bs => by cases bs with
    | nil => rfl
    | cons b bs =>
      rw [renameAll, renameAll, equalsAll, equalsAll, equalsFrom_rename hρ flip a b,
        equalsAll_rename hρ flip as bs]
termination_by structural as => as

theorem equalsEntries_rename (hρ : Function.Injective ρ) (flip : Bool) : ∀ as bs : List (String × Value),
    equalsEntries flip (renameEntries ρ as) (renameEntries ρ bs) = equalsEntries flip as bs
  | [], bs => by cases bs <;> rfl
  | (key, a) :: as, bs => by cases bs with
    | nil => rfl
    | cons e bs =>
      rw [renameEntries, renameEntries, equalsEntries, equalsEntries, equalsFrom_rename hρ flip a e.2,
        equalsEntries_rename hρ flip as bs]
termination_by structural as => as

theorem allAmong_rename (hρ : Function.Injective ρ) : ∀ as bs : List Value,
    allAmong (renameAll ρ as) (renameAll ρ bs) = allAmong as bs
  | [], _ => rfl
  | a :: as, bs => by
    have hany : (fun b => sameKind b (a.rename ρ) && equalsFrom true (a.rename ρ) b) ∘ rename ρ =
        fun b => sameKind b a && equalsFrom true a b := by
      funext b
      rw [Function.comp_apply, sameKind_rename, equalsFrom_rename hρ true a b]
    rw [renameAll, allAmong, allAmong, allAmong_rename hρ as bs, renameAll_eq bs, List.any_map, hany]
termination_by structural as => as

theorem isAmong_rename (hρ : Function.Injective ρ) : ∀ (as : List Value) (b : Value),
    isAmong (renameAll ρ as) (b.rename ρ) = isAmong as b
  | [], _ => rfl
  | a :: as, b => by
    rw [renameAll, isAmong, isAmong, sameKind_rename, equalsFrom_rename hρ false a b, isAmong_rename hρ as b]
termination_by structural as => as

end

theorem equals_rename (hρ : Function.Injective ρ) (a b : Value) :
    (a.rename ρ).equals (b.rename ρ) = a.equals b :=
  equalsFrom_rename hρ false a b

theorem sameMember_rename (hρ : Function.Injective ρ) (a b : Value) :
    (a.rename ρ).sameMember (b.rename ρ) = a.sameMember b := by
  rw [sameMember, sameMember, sameKind_rename, equals_rename hρ]

end Value

end StreamLang
