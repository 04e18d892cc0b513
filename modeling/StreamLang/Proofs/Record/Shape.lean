import StreamLang.Proofs.Charter.Run
import StreamLang.Proofs.Record.Built
import StreamLang.Proofs.Record.Declared
import StreamLang.Proofs.Unreachable.Checked

/-! Records have their declared shapes, in all states of all runs of programs that are accepted, and
wherever they are kept. -/

namespace StreamLang

variable {γ : Type}

-- where values are kept

def TaskFrame.values : TaskFrame → List Value
  | eval _ env => env.values
  | operand _ env done => done ++ env.values
  | branch _ env => env.values
  | arms _ env => env.values
  | logic _ env _ => env.values
  | block _ env _ _ => env.values
  | _ => []

def TaskBody.values : TaskBody → List Value
  | machine m => m.stack.flatMap TaskFrame.values
  | combinator c => c.values

/-- The state keeps the value: at the top of a module, in the cache, as a result, in a future or for
a task. -/
inductive Interpreter.Holds (s : Interpreter γ) : Value → Prop
  | global {scope : ModuleScope} (hscope : scope ∈ s.modules) {e : String × Value}
      (he : e ∈ scope.globals) : Holds s e.2
  | memo {key : MemoKey FunctionId} {v : Value} (hv : s.memo.entries[key]? = some v) : Holds s v
  | result {v : Value} (hv : v ∈ s.results) : Holds s v
  | resolved {id : FutureId} {v : Value}
      (hv : s.scheduler.futures.state? id = some (.resolved v)) : Holds s v
  | failed {id : FutureId} {f : Failed}
      (hf : s.scheduler.futures.state? id = some (.failed f)) : Holds s f.error
  | task {id : TaskId} {task : Task TaskBody} (htask : s.scheduler.tasks[id]? = some task)
      {v : Value} (hv : v ∈ task.body.values) : Holds s v

-- shapes

/-- A record has the name and the fields of a declaration. -/
def Value.HasShape (units : List ModuleUnit) : Value → Prop
  | record name fields => DeclaresRecord units name (fields.map (·.1))
  | _ => True

/-- Every record in the value, however deep, has its declared shape. -/
abbrev Value.Shaped (units : List ModuleUnit) (v : Value) : Prop := v.Every (HasShape units)

/-- Of all values that the state keeps, the records have their declared shapes. -/
structure Interpreter.Shaped (a : Accepted) (s : Interpreter γ) : Prop where
  schemas : s.schemas = a.checked.schemas
  values : ∀ v, s.Holds v → v.Shaped a.units

/-- When a computation has ended, there are records of declared shapes in the state and in its value,
if it gives one, and no others. -/
def ShapedEnd (a : Accepted) : EStateM.Result Unwind (Interpreter γ) Value → Prop
  | .ok v t => t.Shaped a ∧ v.Shaped a.units
  | .error u t => t.Shaped a ∧ ∀ v line, u = .early v line → v.Shaped a.units

/-- Asks for shapes everywhere: in the state, in the scope of what is evaluated next, in the values of
its parts and of what it comes to, and in what the frames of a machine hold. -/
def shapeWatch [Gateway γ] (a : Accepted) (alarm : Run γ PUnit) : Watch γ where
  entering _ env s := s.Shaped a ∧ ∀ v ∈ env.values, v.Shaped a.units
  combining e env vs s := s.Shaped a ∧ (∀ v ∈ env.values ++ vs, v.Shaped a.units) ∧
    ∀ fuel, ShapedEnd a ((Recur.ofFuel fuel).combine e env vs s)
  working frames v s := s.Shaped a ∧ v.Shaped a.units ∧
    ∀ w ∈ frames.flatMap TaskFrame.values, w.Shaped a.units
  alarm

/-- Records have the shapes of the table. -/
def Charter.shapes (table : SchemaTable) : Charter where
  closure _ _ _ := True
  shape name fields := ∃ schema, table.record? name = some schema ∧ fields = schema.fields.map (·.1)
  loaded l := l.schemas = table
  code _ _ _ := True
  block _ _ _ _ := True
  gives _ _ _ _ := True

namespace Charter

variable {table : SchemaTable} {due : FutureId → Value → Prop} {m : Nat}

theorem shapes_lawful [Gateway γ] : (shapes table).Lawful γ where
  declared hl hschema := ⟨_, hl ▸ hschema, rfl⟩
  predicate _ _ _ _ _ := trivial
  others _ _ _ := trivial
  name _ _ _ := trivial
  parts _ _ _ _ := trivial
  combined _ _ _ _ _ := trivial
  logical _ _ := ⟨trivial, trivial⟩
  branch _ := ⟨trivial, trivial, fun _ _ => trivial⟩
  cases _ := ⟨trivial, fun _ _ _ _ _ => ⟨fun _ _ => trivial, trivial⟩⟩
  ofBlock _ := trivial
  tail _ := trivial
  bind _ := ⟨trivial, fun _ _ _ _ => trivial⟩
  expr _ := ⟨trivial, trivial⟩
  async _ := trivial
  await _ := trivial
  attempt _ := trivial
  ofClosure _ := trivial
  enter _ _ := trivial

theorem shapes_opens (k : Nat) (u : ModuleUnit) : (shapes table).Opens k u where
  functions _ _ := trivial
  values _ _ := ⟨fun _ _ => trivial, fun _ _ => trivial⟩
  loads _ _ hl _ _ := hl
  binds _ _ _ _ _ _ _ hl _ _ := hl

theorem shapes_gives {frame : TaskFrame} (v : Value) : (shapes table).Yields m frame v := by
  cases frame with
  | block e env next pending => cases pending <;> trivial
  | _ => trivial

theorem shapes_frame {frame : TaskFrame} {v : Value} (h : (shapes table).Ready m frame v) :
    (shapes table).AllFine frame.values := by
  cases frame with
  | operand e env done => exact h.1.2.2.1.append h.2
  | block e env next pending => cases pending <;> exact h.2
  | eval | branch | arms | logic => exact h.2
  | _ => exact AllEvery.nil

/-- All frames of a stack hold what they should: any value may come to those below the top. -/
theorem shapes_stack {Q : Value → Prop} {frames : List TaskFrame} {v : Value}
    (h : (shapes table).Stack m Q frames v) :
    (shapes table).AllFine (frames.flatMap TaskFrame.values) := by
  induction frames generalizing v with
  | nil => exact AllEvery.nil
  | cons frame rest ih =>
    rw [List.flatMap_cons]
    exact (shapes_frame h.1).append (ih (h.2 .void Value.every_void (shapes_gives _)))

theorem shapes_body {Q : Value → Prop} {body : TaskBody} (h : (shapes table).Body Q body) :
    (shapes table).AllFine body.values := by
  cases body with
  | machine m => exact shapes_stack h.2
  | combinator c => exact h.2

theorem shapes_holds {s : Interpreter γ} (hs : (shapes table).State due s) {v : Value}
    (hv : s.Holds v) : (shapes table).Fine v := by
  cases hv with
  | global hscope he => exact hs.globals _ hscope _ he
  | memo hv => exact hs.memo _ _ hv
  | result hv => exact hs.results _ hv
  | resolved hv => exact (hs.scheduler.futures _ _ hv).1
  | failed hf => exact hs.scheduler.futures _ _ hf
  | task htask hv => exact shapes_body (hs.scheduler.tasks _ _ htask).body _ hv

end Charter

namespace Accepted

/-- The shapes in the table are those that the program declares. -/
def Declared (a : Accepted) : Prop :=
  ∀ name schema, a.checked.schemas.record? name = some schema →
    DeclaresRecord a.units name (schema.fields.map (·.1))

theorem declared_of_accept {mainName : String} {main : Program} {provider : Provider} {a : Accepted}
    (h : accept mainName main provider = .ok a) : a.Declared := by
  have hprogram := (accept_eq_ok h).2
  intro name schema hschema
  rw [(Check.program_eq_ok hprogram).1] at hschema
  exact Check.collectSchemas_declared (Check.program_faults hprogram) hschema

variable {a : Accepted} (ha : a.Declared)
include ha

theorem Declared.shaped {v : Value} (hv : (Charter.shapes a.checked.schemas).Fine v) :
    v.Shaped a.units := by
  refine hv.imp fun w _ hw => ?_
  cases w with
  | record name fields =>
    obtain ⟨schema, hschema, hnames⟩ := hw
    change DeclaresRecord a.units name (fields.map (·.1))
    rw [hnames]
    exact ha name schema hschema
  | _ => trivial

theorem Declared.state {due : FutureId → Value → Prop} {s : Interpreter γ}
    (hs : (Charter.shapes a.checked.schemas).State due s) : s.Shaped a :=
  ⟨hs.loaded, fun _ hv => ha.shaped (Charter.shapes_holds hs hv)⟩

theorem Declared.watch_met [Gateway γ] (alarm : Run γ PUnit) :
    (shapeWatch a alarm).Met (Charter.shapes a.checked.schemas) where
  entering hs _ henv := ⟨ha.state hs, fun v hv => ha.shaped (henv v hv)⟩
  combining {due s e env vs} hs _ henv _ hvs _ := by
    refine ⟨ha.state hs, fun v hv => ha.shaped (henv.append hvs v hv), fun fuel => ?_⟩
    have hlawful : (Charter.shapes a.checked.schemas).Lawful γ := Charter.shapes_lawful
    have hobeys := Recur.supervised_obeys hlawful Watch.idle_met due fuel
    have hends := (hobeys.combine hlawful e henv hvs s hs rfl).2
    cases hrun : (Recur.ofFuel fuel).combine e env vs s with
    | ok v t =>
      rw [hrun] at hends
      exact ⟨ha.state hends.1.state, ha.shaped hends.2⟩
    | error u t =>
      rw [hrun] at hends
      refine ⟨ha.state hends.1.state, ?_⟩
      rintro v line rfl
      exact ha.shaped hends.2
  working hs hstack hv :=
    ⟨ha.state hs, ha.shaped hv, fun w hw => ha.shaped (Charter.shapes_stack hstack w hw)⟩

end Accepted

theorem Session.shapes [Gateway γ] {a : Accepted} {s : Interpreter γ} (hs : Session a s) :
    (Charter.shapes a.checked.schemas).State (fun _ _ => True) s := by
  induction hs with
  | start options gateway => exact .start rfl
  | again _ fuel ih =>
    exact (execute_kept Charter.shapes_lawful Watch.idle_met fuel ih fun _ _ _ =>
      Charter.shapes_opens _ _).2
  | clearLog _ ih => exact ih.of_same rfl rfl rfl rfl rfl

-- what is made

/-- The record of the name with just the values that are given, in the shape of its declaration. -/
def BuiltFrom (units : List ModuleUnit) (name : String) (given : List (FieldInit × Value))
    (v : Value) : Prop :=
  ∃ fields, v = .record name fields ∧ DeclaresRecord units name (fields.map (·.1)) ∧
    ∀ n, fieldOf? n fields = givenFor? given n

/-- The record with these fields in the same order, but for the values that are replaced. -/
def UpdatedFrom (name : String) (fields : List (String × Value)) (updates : List (FieldInit × Value))
    (v : Value) : Prop :=
  ∃ fields', v = .record name fields' ∧ fields'.map (·.1) = fields.map (·.1) ∧
    ∀ n, fieldOf? n fields' = (replacement? updates n).or (fieldOf? n fields)

theorem DeclaresRecord.unique {units : List ModuleUnit} {name : String} {fields fields' : List String}
    (h : DeclaresRecord units name fields) (h' : DeclaresRecord units name fields') :
    fields = fields' := by
  obtain ⟨d, hd, hname, -, rfl, -⟩ := h
  obtain ⟨d', -, -, honly, rfl, -⟩ := h'
  rw [honly d hd hname]

/-- The order in which values are given does not matter. -/
theorem BuiltFrom.unique {units : List ModuleUnit} {name : String}
    {given given' : List (FieldInit × Value)} (hsame : SameGiven given given') {v v' : Value}
    (h : BuiltFrom units name given v) (h' : BuiltFrom units name given' v') : v = v' := by
  obtain ⟨fields, rfl, hshape, hfields⟩ := h
  obtain ⟨fields', rfl, hshape', hfields'⟩ := h'
  have hnodup : (fields.map (·.1)).Nodup := hshape.elim fun d hd => hd.2.2.2.2
  rw [fields_eq (hshape.unique hshape') hnodup fun n => by rw [hfields, hsame, hfields']]

theorem Accepted.Declared.built {a : Accepted} (ha : a.Declared) {r : Recur γ} {name : String}
    {given : List (FieldInit × Value)} {v : Value} {s t : Interpreter γ}
    (hs : s.schemas = a.checked.schemas) (h : r.buildRecord name given s = .ok v t) :
    BuiltFrom a.units name given v := by
  obtain ⟨schema, fields, hschema, rfl, hnames, hfields⟩ := Recur.buildRecord_ok h
  refine ⟨fields, rfl, ?_, hfields⟩
  rw [hnames]
  exact ha name schema (hs ▸ hschema)

theorem Recur.update_ok {r : Recur γ} {name : String} {fields : List (String × Value)}
    {updates : List (FieldInit × Value)} {v : Value} {s t : Interpreter γ}
    (h : r.update (.record name fields) updates s = .ok v t) : UpdatedFrom name fields updates v := by
  obtain ⟨found, s₁, hfound, h⟩ := Eval.bind_eq_ok h
  cases h
  exact ⟨found, rfl, updateFields_ok hfound⟩

/-- Records have their declared shapes wherever they are, at all times of all runs of a program that is
accepted. A construction gives a record of the values that are given for its fields, and the order in
which they are written does not matter; an update replaces the fields that it names and keeps the
others. Where they fail there is no record. -/
theorem records_have_declared_shapes [Gateway γ] {mainName : String} {main : Program}
    {provider : Provider} {a : Accepted} (haccept : accept mainName main provider = .ok a)
    {s : Interpreter γ} (hs : Session a s) (fuel : Nat) :
    s.Shaped a ∧
      (∀ alarm, (Runner.supervised (shapeWatch a alarm) fuel).runProgram a.units s =
        (Recur.ofFuel fuel).runProgram a.units s) ∧
      (∀ (t : Interpreter γ) span name inits env vs v t', t.schemas = a.checked.schemas →
        (Recur.ofFuel fuel).combine (.record span name inits) env vs t = .ok v t' →
          BuiltFrom a.units name (inits.zip vs) v) ∧
      (∀ name inits vs inits' vs', SameGiven (inits.zip vs) (inits'.zip vs') →
        (∀ (t : Interpreter γ) span env span' env' v t',
          (Recur.ofFuel fuel).combine (.record span name inits) env vs t = .ok v t' →
            (Recur.ofFuel fuel).combine (.record span' name inits') env' vs' t = .ok v t') ∧
        ∀ fuel' (t u : Interpreter γ) span env span' env' v v' t' u',
          t.schemas = a.checked.schemas → u.schemas = a.checked.schemas →
          (Recur.ofFuel fuel).combine (.record span name inits) env vs t = .ok v t' →
          (Recur.ofFuel fuel').combine (.record span' name inits') env' vs' u = .ok v' u' → v = v') ∧
      ∀ (t : Interpreter γ) span target inits env name fields vs v t',
        (Recur.ofFuel fuel).combine (.update span target inits) env (.record name fields :: vs) t =
          .ok v t' → UpdatedFrom name fields (inits.zip vs) v := by
  have ha := Accepted.declared_of_accept haccept
  have hstate := hs.shapes
  refine ⟨ha.state hstate, fun alarm => ?_, fun t span name inits env vs v t' ht h => ha.built ht h,
    fun name inits vs inits' vs' hsame => ⟨fun t span env span' env' v t' h => ?_, ?_⟩,
    fun t span target inits env name fields vs v t' h => Recur.update_ok h⟩
  · exact (execute_kept Charter.shapes_lawful (ha.watch_met alarm) fuel hstate fun _ _ _ =>
      Charter.shapes_opens _ _).1
  · exact Recur.buildRecord_ok_of_same hsame h
  · intro fuel' t u span env span' env' v v' t' u' ht hu h h'
    exact (ha.built ht h).unique hsame (ha.built hu h')

def pointDecl : RecordDecl :=
  ⟨"Point", [⟨"x", .named .none "Int" [], .none⟩, ⟨"y", .named .none "Int" [], .none⟩]⟩

/-- A value written for a field. -/
def written (name : String) (n : Int64) : FieldInit := ⟨name, .none, .literal .none (.int n)⟩

/-- `record Point { x: Int, y: Int }`
`Point { y: 2, x: 1 } with { x: 5 }` -/
def pointProgram : Program where
  items :=
    [⟨.record pointDecl, false, .none⟩,
     ⟨.expr (.update .none (.record .none "Point" [written "y" 2, written "x" 1]) [written "x" 5]),
      false, .none⟩]

def pointAccepted : Accepted :=
  ⟨[⟨"main", pointProgram, []⟩],
    ⟨(Check.collectSchemas [⟨"main", pointProgram, []⟩]).table, [], []⟩⟩

def pointState : Interpreter StockGateway := .start pointAccepted.checked .default (.null [])

/-- The program gives a point; written the other way round it would be the same. -/
theorem point_has_declared_shape :
    accept "main" pointProgram [] = .ok pointAccepted ∧ Session pointAccepted pointState ∧
      (∀ alarm, (Runner.supervised (shapeWatch pointAccepted alarm) 9).runProgram
        pointAccepted.units pointState = (Recur.ofFuel 9).runProgram pointAccepted.units pointState) ∧
      (pointState.execute 9 pointAccepted.units).2.results.toList.map Value.repr =
        ["Point \x7b x: 5, y: 2 \x7d"] ∧
      ∃ t, (Recur.ofFuel 9).combine (.record .none "Point" [written "x" 1, written "y" 2]) Env.empty
        [.int 1, .int 2] pointState = .ok (.record "Point" [("x", .int 1), ("y", .int 2)]) t := by
  have haccept : accept "main" pointProgram [] = .ok pointAccepted := rfl
  have hs : Session pointAccepted pointState := .start _ _
  obtain ⟨-, hrun, -, hsame, -⟩ := records_have_declared_shapes haccept hs 9
  refine ⟨haccept, hs, hrun, by decide +kernel, pointState, ?_⟩
  refine (hsame "Point" [written "y" 2, written "x" 1] [.int 2, .int 1] _ _ ?_).1 pointState .none
    Env.empty _ _ _ _ rfl
  exact sameGiven_of_perm (.swap _ _ _) (by decide)

end StreamLang
