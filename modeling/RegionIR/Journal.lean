import RegionIR.Validation.Rule

/-!
# Journal of diagnostics

The journal counts errors and warnings and writes a line for each. A mark
(`error`, `warning`) may be set in colour, which wraps it in terminal
control sequences; the plural `s` of a summary is wrapped on its own.
-/

namespace RegionIR

inductive Severity where
  | error
  | warning
  deriving DecidableEq, Repr

namespace Severity

def word : Severity → String
  | .error => "error"
  | .warning => "warning"

/-- The parameter of the control sequence that switches the colour on. -/
def colour : Severity → String
  | .error => "91"
  | .warning => "33"

/-- A text in the colour of a severity, or as it is. -/
def mark (s : Severity) (coloured : Bool) (text : String) : String :=
  if coloured then "\x1b[" ++ s.colour ++ "m" ++ text ++ "\x1b[0m" else text

/-- `2 errors`, `1 warning`; no text for a count of zero. -/
def count (s : Severity) (coloured : Bool) : Nat → String
  | 0 => ""
  | 1 => "1 " ++ s.mark coloured s.word
  | n => toString n ++ " " ++ s.mark coloured s.word ++ s.mark coloured "s"

end Severity

/-- The counts of diagnostics and the text written so far. -/
structure Journal where
  coloured : Bool := false
  errors : Nat := 0
  warnings : Nat := 0
  text : String := ""
  deriving DecidableEq, Repr, Inhabited

namespace Journal

/-- Writes one line for a diagnostic. -/
def line (j : Journal) (s : Severity) (message : String) : String :=
  s.mark j.coloured s.word ++ ": " ++ message ++ "\n"

def logError (j : Journal) (message : String) : Journal :=
  { j with errors := j.errors + 1, text := j.text ++ j.line .error message }

def logWarning (j : Journal) (message : String) : Journal :=
  { j with warnings := j.warnings + 1, text := j.text ++ j.line .warning message }

def hasError (j : Journal) : Bool := j.errors != 0

/-- The line that sums up the counts; empty if there is nothing to tell. -/
def summary (j : Journal) : String :=
  if j.errors = 0 ∧ j.warnings = 0 then ""
  else
    Severity.error.count j.coloured j.errors ++
      (if j.errors ≠ 0 ∧ j.warnings ≠ 0 then " and " else "") ++
      Severity.warning.count j.coloured j.warnings ++ " emitted\n"

/-- Writes the summary. -/
def logSummary (j : Journal) : Journal :=
  { j with text := j.text ++ j.summary }

/-- Forgets the counts. -/
def reset (j : Journal) : Journal := { j with errors := 0, warnings := 0 }

/-- Writes an error line `[rule] message` for each failure. -/
def logFailures (j : Journal) (failures : List RuleFailure) : Journal :=
  failures.foldl (fun j f => j.logError ("[" ++ f.rule ++ "] " ++ f.message)) j

/-- Forgets the text written so far. -/
def drain (j : Journal) : Journal := { j with text := "" }

end Journal

end RegionIR
