import StreamLang.Source

/-!
What the phases report to the user: single findings, and the failure with which a phase ends.
-/

namespace StreamLang

/-- The phase a finding belongs to; warnings never stop a phase. -/
inductive DiagnosticKind
  | grammar
  | typing
  | runtime
  | warning
deriving DecidableEq, Repr

structure Diagnostic where
  kind : DiagnosticKind
  message : String
  line : Nat
  column : Nat
  code : Option String
  suggestions : List String
deriving DecidableEq, Repr

namespace Diagnostic

def ofSpan (kind : DiagnosticKind) (message : String) (span : Span) : Diagnostic :=
  ⟨kind, message, span.line, span.column, none, []⟩

/-- A finding while a program runs knows only its line. -/
def atLine (message : String) (line : Nat) : Diagnostic := ⟨.runtime, message, line, 0, none, []⟩

def isError (d : Diagnostic) : Bool := d.kind != .warning

/-- The line of the report. -/
def render (d : Diagnostic) : String :=
  match d.kind with
  | .grammar => s!"Syntax Error (Line {d.line}, Position {d.column}): {d.message}"
  | .typing => s!"Type Error (Line {d.line}, Position {d.column}): {d.message}"
  | .runtime => s!"Runtime Error (Line {d.line}): {d.message}"
  | .warning => s!"Warning (Line {d.line}, Position {d.column}): {d.message}"

/-- The errors among the findings, in order. -/
def errors (ds : List Diagnostic) : List Diagnostic := ds.filter isError

/-- The warnings among the findings, in order. -/
def warnings (ds : List Diagnostic) : List Diagnostic := ds.filter (!·.isError)

def hasErrors (ds : List Diagnostic) : Bool := ds.any isError

theorem hasErrors_eq_false_iff {ds : List Diagnostic} : hasErrors ds = false ↔ errors ds = [] := by
  simp [hasErrors, errors, List.filter_eq_nil_iff]

end Diagnostic

/-- How a phase fails. -/
inductive Failure
  | grammar (d : Diagnostic)
  | typing (ds : List Diagnostic)
  | runtime (d : Diagnostic)
  | other (text : String)
deriving DecidableEq, Repr

namespace Failure

def diagnostics : Failure → List Diagnostic
  | grammar d => [d]
  | typing ds => ds
  | runtime d => [d]
  | other _ => []

/-- One line for each finding. -/
def render : Failure → String
  | grammar d => d.render
  | typing ds => "\n".intercalate (ds.map Diagnostic.render)
  | runtime d => d.render
  | other text => "Generic error: " ++ text

def isTyping : Failure → Bool
  | typing _ => true
  | _ => false

def isRuntime : Failure → Bool
  | runtime _ => true
  | _ => false

end Failure

end StreamLang
