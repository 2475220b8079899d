import Heritage.Report

/-!
# What a compilation comes to

A compilation ends with a report, and with an output if the report is of nothing.
-/

namespace Heritage

/-- **The stages of a compilation**, in order. -/
inductive Stage where
  /-- Nothing was done. -/
  | unparsed
  /-- There is a tree. -/
  | parsed
  /-- Its symbols are collected. -/
  | symbolsBuilt
  /-- They are resolved. -/
  | resolved
  /-- The bodies are checked. A compilation that found issues ends here. -/
  | validated
  /-- There is an output. -/
  | generated
deriving DecidableEq, Inhabited

/-- The name of a stage. -/
def Stage.name : Stage → String
  | .unparsed => "Unparsed"
  | .parsed => "Parsed"
  | .symbolsBuilt => "SymbolsBuilt"
  | .resolved => "Resolved"
  | .validated => "Validated"
  | .generated => "Generated"

/-- The stage at which a compilation starts. -/
def Stage.start : Stage := .unparsed

/-- **The output of a compilation.** -/
structure Output where
  /-- The C text. -/
  text : String
  /-- How many classes it has structs for. -/
  classCount : Nat
  /-- How many functions it defines. -/
  functionCount : Nat
deriving DecidableEq, Inhabited

/-- **What a compilation comes to.** -/
structure Outcome where
  /-- The stage that it reached. -/
  stage : Stage
  /-- The output, if it has one. -/
  output? : Option Output
  /-- The report of what was found wrong. -/
  report : Report
deriving DecidableEq, Inhabited

namespace Outcome

/-- **How a compilation ends** that has written something, wanted or not: the
report decides. -/
def ofReport (report : Report) (written : Output) : Outcome :=
  if report.stops then { stage := .validated, output? := none, report := report }
  else { stage := .generated, output? := some written, report := report }

/-- Whether the compilation succeeded. -/
def isSuccess (o : Outcome) : Bool :=
  o.stage == .generated

/-- **The output, or the report.** An output counts only if the report is empty. -/
def result (o : Outcome) : Except Report Output :=
  match o.output? with
  | some out => if o.report.isEmpty then .ok out else .error o.report
  | none => .error o.report

end Outcome

end Heritage
