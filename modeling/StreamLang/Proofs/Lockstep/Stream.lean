import StreamLang.Proofs.Contents.Scope
import StreamLang.Proofs.Lockstep.Computation

/-! Pulling elements through a stream of permitted values keeps step, when the calls of its callbacks
do. -/

namespace StreamLang

variable {σ : Type} (q : Permit)

mutual

inductive StageCursor.Permitted : StageCursor → Prop
  | map {f : Value} (h : f.Permitted q) : StageCursor.Permitted (.map f)
  | filter {f : Value} (h : f.Permitted q) : StageCursor.Permitted (.filter f)
  | flatMap {f : Value} {t : Option String} (h : f.Permitted q) :
    StageCursor.Permitted (.flatMap f none t)
  | opened {f : Value} {inner : InnerCursor} {t : Option String} (h : f.Permitted q)
      (hinner : InnerCursor.Permitted inner) : StageCursor.Permitted (.flatMap f (some inner) t)
  | take (n : Nat) : StageCursor.Permitted (.take n)
  | skip (n : Nat) : StageCursor.Permitted (.skip n)

inductive InnerCursor.Permitted : InnerCursor → Prop
  | items {rest : List Value} (h : AllPermitted q rest) : InnerCursor.Permitted (.items rest)
  | stream {c : Cursor} (h : Cursor.Permitted c) : InnerCursor.Permitted (.stream c)

inductive Cursor.Permitted : Cursor → Prop
  | mk {source : SourceCursor} {stages : List StageCursor} (hsource : AllPermitted q source.values)
      (hstages : ∀ stage ∈ stages, StageCursor.Permitted stage) : Cursor.Permitted ⟨source, stages⟩

end

variable {q}

theorem Cursor.Permitted.push {c : Cursor} {stage : StageCursor} (hc : c.Permitted q)
    (hstage : stage.Permitted q) : (c.push stage).Permitted q := by
  obtain ⟨hsource, hstages⟩ := hc
  exact .mk hsource (List.forall_mem_cons.2 ⟨hstage, hstages⟩)

theorem Pipeline.cursor_permitted {p : Pipeline} (hp : AllPermitted q p.values)
    (terminal : Option String) : (p.cursor terminal).Permitted q := by
  obtain ⟨hsource, hstages⟩ := List.forall_mem_append.1 hp
  have hall : ∀ stages : List Stage, AllPermitted q (stages.flatMap Stage.values) →
      ∀ stage ∈ StageCursor.ofStages terminal stages, stage.Permitted q := by
    intro stages
    induction stages with
    | nil => exact fun _ _ h => by cases h
    | cons stage later ih =>
      intro h
      rw [List.flatMap_cons] at h
      obtain ⟨hstage, hlater⟩ := List.forall_mem_append.1 h
      refine List.forall_mem_cons.2 ⟨?_, ih hlater⟩
      cases stage with
      | map f => exact .map (hstage f (.head _))
      | filter f => exact .filter (hstage f (.head _))
      | flatMap f => exact .flatMap (hstage f (.head _))
      | take n => exact .take n
      | skip n => exact .skip n
  refine .mk ?_ fun stage hmem => hall p.stages hstages stage (List.mem_reverse.1 hmem)
  cases hs : p.source with
  | list items =>
    rw [hs] at hsource
    exact hsource
  | generate count generator =>
    rw [hs] at hsource
    exact hsource
  | infinite generator =>
    rw [hs] at hsource
    exact hsource
  | _ => exact List.forall_mem_nil _

theorem Pipeline.boundedCursor_permitted {p : Pipeline} (hp : AllPermitted q p.values)
    (terminal : String) : Except.All (Cursor.Permitted q) (p.boundedCursor terminal) := by
  rw [Pipeline.boundedCursor]
  split
  · exact .ok (p.cursor_permitted hp _)
  · exact .error _

theorem InnerCursor.ofValue_permitted (terminal : Option String) {v : Value} (hv : v.Permitted q) :
    Except.All (InnerCursor.Permitted q) (ofValue terminal v) := by
  cases v with
  | list items => exact .ok (.items (Value.permitted_list.1 hv))
  | set items => exact .ok (.items (Value.permitted_set.1 hv))
  | stream identity p =>
    have hp := Value.permitted_stream.1 hv
    cases terminal with
    | none => exact .ok (.stream (p.cursor_permitted hp none))
    | some t =>
      intro inner h
      obtain ⟨c, hc, rfl⟩ : ∃ c, p.boundedCursor t = .ok c ∧ InnerCursor.stream c = inner := by
        simp only [ofValue] at h
        cases hb : p.boundedCursor t with
        | ok c =>
          rw [hb] at h
          cases h
          exact ⟨c, rfl, rfl⟩
        | error e =>
          rw [hb] at h
          cases h
      exact .stream (p.boundedCursor_permitted hp t c hc)
  | _ => exact .error _

/-- A pull gives an element, if there is one, and the rest of the traversal. -/
def PulledPermitted {κ : Type} (q : Permit) (rest : κ → Prop) (pulled : Option Value × κ) :
    Prop :=
  (∀ v, pulled.1 = some v → v.Permitted q) ∧ rest pulled.2

section

variable {κ : Type} {rest : κ → Prop} {c : κ}

theorem PulledPermitted.none (hc : rest c) : PulledPermitted q rest (Option.none, c) := by
  refine ⟨?_, hc⟩
  rintro v ⟨⟩

theorem PulledPermitted.some {v : Value} (hv : v.Permitted q) (hc : rest c) :
    PulledPermitted q rest (Option.some v, c) := by
  refine ⟨?_, hc⟩
  rintro w ⟨⟩
  exact hv

end

/-- From related states, calls of the same permitted function with the same permitted arguments keep
step. -/
def Host.Lockstep (T : Terms) (R : σ → σ → Prop) (host host' : Host σ) : Prop :=
  ∀ f args, f.Permitted T.permit → AllPermitted T.permit args →
    Eval.Agree T R (Value.Permitted T.permit) (host f args) (host' f args)

variable {T : Terms} {R : σ → σ → Prop} {host host' : Host σ}

theorem SourceCursor.next_lockstep (hhost : host.Lockstep T R host') {source : SourceCursor}
    (h : AllPermitted T.permit source.values) :
    Eval.Agree T R (PulledPermitted T.permit fun c => AllPermitted T.permit c.values)
      (source.next host) (source.next host') := by
  cases source with
  | items rest =>
    cases rest with
    | nil => exact .pure (.none h)
    | cons v rest => exact .pure (.some (h v (.head _)) fun w hw => h w (.tail _ hw))
  | range next stop step =>
    have hmore : ∀ n, PulledPermitted T.permit
        (fun c : SourceCursor => AllPermitted T.permit c.values)
        (some (Value.int next), .range n stop step) := fun _ => .some (Value.permitted_int _) h
    have hover : PulledPermitted T.permit
        (fun c : SourceCursor => AllPermitted T.permit c.values)
        (none, .range next stop step) := .none h
    rw [SourceCursor.next, SourceCursor.next]
    split <;> split
    · exact .pure (hmore _)
    · exact .pure hover
    · exact .pure (hmore _)
    · exact .pure hover
  | generate index count generator =>
    rw [SourceCursor.next, SourceCursor.next]
    split
    · exact .pure (.none h)
    · refine .bind (hhost generator _ (h generator (.head _)) ?_) fun v hv => ?_
      · exact .cons (Value.permitted_int _) (List.forall_mem_nil _)
      · exact .pure (.some hv h)
  | done => exact .pure (.none h)

namespace Cursor

theorem pull_lockstep (hhost : host.Lockstep T R host') :
    ∀ {n n' : Nat}, T.Bounds n n' → ∀ {c : Cursor}, c.Permitted T.permit →
      Eval.Agree T R (PulledPermitted T.permit (Cursor.Permitted T.permit)) (c.pull host n)
        (c.pull host' n') := by
  have hone : ∀ {v : Value}, v.Permitted T.permit → AllPermitted T.permit [v] :=
    fun hv => .cons hv (List.forall_mem_nil _)
  intro n
  induction n with
  | zero => exact fun hbounds c _ => .exhausted (y := fun n => c.pull host' n) rfl hbounds
  | succ n ih =>
    intro n' hbounds c hc
    obtain ⟨k, rfl, hbelow⟩ := hbounds.step
    replace ih := fun {c} => ih hbelow (c := c)
    obtain ⟨hsource, hstages⟩ := hc
    rename_i source stages
    cases stages with
    | nil =>
      rw [pull, pull]
      refine .bind (SourceCursor.next_lockstep hhost hsource) fun p hp => .pure ⟨hp.1, ?_⟩
      exact .mk hp.2 (List.forall_mem_nil _)
    | cons stage before =>
      obtain ⟨hstage, hbefore⟩ := List.forall_mem_cons.1 hstages
      have hrest : Cursor.Permitted T.permit ⟨source, before⟩ := .mk hsource hbefore
      cases hstage with
      | @map f hf =>
        rw [pull, pull]
        refine .bind (ih hrest) fun p hp => ?_
        obtain ⟨v?, c⟩ := p
        cases v? with
        | none => exact .pure (.none (hp.2.push (.map hf)))
        | some v =>
          refine .bind (hhost f [v] hf (hone (hp.1 v rfl))) fun w hw => ?_
          exact .pure (.some hw (hp.2.push (.map hf)))
      | @filter f hf =>
        rw [pull, pull]
        refine .bind (ih hrest) fun p hp => ?_
        obtain ⟨v?, c⟩ := p
        cases v? with
        | none => exact .pure (.none (hp.2.push (.filter hf)))
        | some v =>
          refine .bind (hhost f [v] hf (hone (hp.1 v rfl))) fun verdict _ => ?_
          cases verdict with
          | bool b => cases b with
            | true => exact .pure (.some (hp.1 v rfl) (hp.2.push (.filter hf)))
            | false => exact ih (hp.2.push (.filter hf))
          | _ => exact .fail _
      | take n =>
        cases n with
        | zero => exact .pure (.none (.mk hsource hstages))
        | succ n =>
          rw [pull, pull]
          exact .bind (ih hrest) fun p hp => .pure ⟨hp.1, hp.2.push (.take n)⟩
      | skip n =>
        cases n with
        | zero =>
          rw [pull, pull]
          exact .bind (ih hrest) fun p hp => .pure ⟨hp.1, hp.2.push (.skip 0)⟩
        | succ n =>
          rw [pull, pull]
          refine .bind (ih hrest) fun p hp => ?_
          obtain ⟨v?, c⟩ := p
          cases v? with
          | none => exact .pure (.none (hp.2.push (.skip 0)))
          | some v => exact ih (hp.2.push (.skip n))
      | @flatMap f t hf =>
        rw [pull, pull]
        refine .bind (ih hrest) fun p hp => ?_
        obtain ⟨v?, c⟩ := p
        cases v? with
        | none => exact .pure (.none (hp.2.push (.flatMap hf)))
        | some v =>
          refine .bind (hhost f [v] hf (hone (hp.1 v rfl))) fun w hw => ?_
          refine .bind (.ofExcept (InnerCursor.ofValue_permitted t hw)) fun inner hinner => ?_
          exact ih (hp.2.push (.opened hf hinner))
      | @opened f inner t hf hinner =>
        have hagain : Cursor.Permitted T.permit ⟨source, .flatMap f none t :: before⟩ :=
          .mk hsource (List.forall_mem_cons.2 ⟨.flatMap hf, hbefore⟩)
        cases hinner with
        | @items rest hitems =>
          cases rest with
          | nil => exact ih hagain
          | cons v rest =>
            have hleft : AllPermitted T.permit rest := fun w hw => hitems w (.tail _ hw)
            exact .pure (.some (hitems v (.head _)) (.mk hsource
              (List.forall_mem_cons.2 ⟨.opened hf (.items hleft), hbefore⟩)))
        | stream hc =>
          rw [pull, pull]
          refine .bind (ih hc) fun p hp => ?_
          obtain ⟨v?, c⟩ := p
          cases v? with
          | none => exact ih hagain
          | some v =>
            exact .pure (.some (hp.1 v rfl) (.mk hsource
              (List.forall_mem_cons.2 ⟨.opened hf (.stream hp.2), hbefore⟩)))

theorem fold_lockstep {β : Type} {P : β → Prop} (hhost : host.Lockstep T R host')
    {step step' : β → Value → Eval σ β}
    (hstep : ∀ acc v, P acc → v.Permitted T.permit →
      Eval.Agree T R P (step acc v) (step' acc v)) :
    ∀ {n n' : Nat}, T.Bounds n n' → ∀ {c : Cursor} {acc : β}, c.Permitted T.permit → P acc →
      Eval.Agree T R P (c.fold host step n acc) (c.fold host' step' n' acc) := by
  intro n
  induction n with
  | zero =>
    exact fun hbounds c acc _ _ => .exhausted (y := fun n => c.fold host' step' n acc) rfl hbounds
  | succ n ih =>
    intro n' hbounds c acc hc hacc
    obtain ⟨k, rfl, hbelow⟩ := hbounds.step
    rw [fold, fold]
    refine .bind (pull_lockstep hhost hbelow hc) fun p hp => ?_
    obtain ⟨v?, c⟩ := p
    cases v? with
    | none => exact .pure hacc
    | some v => exact .bind (hstep acc v hacc (hp.1 v rfl)) fun acc hacc => ih hbelow hp.2 hacc

end Cursor

theorem Pipeline.drain_lockstep (hhost : host.Lockstep T R host') {n n' : Nat}
    (hbounds : T.Bounds n n') (terminal : String) {p : Pipeline}
    (hp : AllPermitted T.permit p.values) :
    Eval.Agree T R (AllPermitted T.permit) (p.drain host n terminal) (p.drain host' n' terminal) := by
  refine .bind (.ofExcept (p.boundedCursor_permitted hp terminal)) fun c hc => ?_
  refine .bind (Cursor.fold_lockstep (P := AllPermitted T.permit) hhost
    (fun vs v hvs hv => .pure (.cons hv hvs)) hbounds hc (List.forall_mem_nil _)) fun reversed h => ?_
  exact .pure fun v hv => h v (List.mem_reverse.1 hv)

end StreamLang
