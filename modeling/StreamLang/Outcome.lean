import StreamLang.Execution
import StreamLang.Grammar.Program

/-!
From the text of a program to what its run gives. Results and log lines that came before a failure
stay.
-/

namespace StreamLang

structure Outcome where
  /-- Values of the expressions at the top of the program. -/
  results : List Value
  log : List String
  warnings : List Diagnostic
  failure : Option Failure
  /-- How often the body of each function was run. -/
  evaluations : List (String × Nat)
  memoHits : Nat

/-- The failure an ending stands for. -/
def Ending.failure? : Ending → Option Failure
  | finished => none
  | failed fault line => some (.runtime (.atLine fault.message line))
  | exhausted => some (.other "the run was cut short")

namespace Outcome

/-- A program that was never run. -/
def ofFailure (f : Failure) : Outcome := ⟨[], [], [], some f, [], 0⟩

def ofRun {γ : Type} (warnings : List Diagnostic) (ending : Ending) (s : Interpreter γ) :
    Outcome where
  results := s.results.toList
  log := s.log.toList
  warnings
  failure := ending.failure?
  evaluations := s.evaluations
  memoHits := s.memo.hits

def isOk (o : Outcome) : Bool := o.failure.isNone

/-- The warnings and then the failure, a line for each finding. -/
def report (o : Outcome) : String :=
  "\n".intercalate (o.warnings.map Diagnostic.render ++ (o.failure.map Failure.render).toList)

end Outcome

/-- The name of the module that a program's own text makes up. -/
def entryName : String := "main"

/-- Runs a program, given as text, with the modules it may import; gives also the provider as the
run leaves it. -/
def runSource {γ : Type} [Gateway γ] (fuel : Nat) (options : Options) (provider : Provider)
    (gateway : γ) (source : String) : Outcome × γ :=
  match Program.ofSource source with
  | .error e => (.ofFailure e.toFailure, gateway)
  | .ok p =>
    match accept entryName p provider with
    | .error f => (.ofFailure f, gateway)
    | .ok a =>
      let r := (Interpreter.start a.checked options gateway).execute fuel a.units
      (.ofRun a.checked.warnings r.1 r.2, r.2.gateway)

end StreamLang
