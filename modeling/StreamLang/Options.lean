import StreamLang.Text.Search
import StreamLang.Whole

/-!
The settings of a run, and how they are read from texts such as environment variables.
-/

namespace StreamLang

structure Options where
  /-- How deeply calls may nest. -/
  maxCallDepth : Nat
  /-- Whether results of pure functions are remembered. -/
  memoize : Bool
  /-- How many slices of tasks one interpreter may run. -/
  maxSchedulerSteps : Nat
  echoLog : Bool
deriving DecidableEq, Repr

namespace Options

def default : Options := ⟨512, true, 1000000, false⟩

/-- A count that fits in 64 bits: digits, with a plus in front if wanted, between blanks. -/
def readCount? (s : String) : Option Nat :=
  let cs := Text.trimChars s.toList
  Whole.readNat? (if cs.head? == some '+' then cs.drop 1 else cs)

/-- A switch is off when its text is blank, zero or a spelling of false. -/
def readSwitch (s : String) : Bool :=
  !(["", "0", "false", "FALSE", "False"].contains (Text.trim s))

/-- The defaults, overlaid with the texts that are given and can be read. -/
def ofTexts (depth memoize steps : Option String) : Options :=
  { default with
    maxCallDepth := (depth.bind readCount?).getD default.maxCallDepth
    memoize := (memoize.map readSwitch).getD default.memoize
    maxSchedulerSteps := (steps.bind readCount?).getD default.maxSchedulerSteps }

theorem ofTexts_none : ofTexts none none none = default := rfl

end Options

end StreamLang
