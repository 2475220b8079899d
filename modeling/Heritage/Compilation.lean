import Heritage.Pipeline
import Heritage.Symbols.Collect

/-!
# Compilations, part by part

What each part of a compilation gives, and what it finds wrong, as a record. The
parts are functions of what they are given; none of them has a report at hand.
What was found is in the record as a list, and its report is made of it. The
pipeline, which hands its report on, comes to the same
(`Pipeline.run_eq_outcome`).
-/

namespace Heritage

/-- **A compilation that was run**: what each of its parts gave. -/
structure Compilation where
  /-- The options it was run with. -/
  options : Options
  /-- The symbols of the program. -/
  collected : Collected
  /-- The symbols resolved. -/
  resolved : Resolved
  /-- The file written for them. -/
  file : C.File

namespace Compilation

/-- **Compile a program**, part by part. -/
def run (o : Options) (p : Program) : Compilation :=
  let collected := SymbolTable.collect p
  let resolved := collected.table.resolve
  { options := o
    collected := collected
    resolved := resolved
    file := C.File.ofTable resolved.table p }

/-- Everything found wrong, in order. -/
def issues (c : Compilation) : List Issue :=
  c.collected.issues ++ c.resolved.issues ++ c.file.issues

/-- The report of what was found wrong. -/
def report (c : Compilation) : Report :=
  Report.ofIssues c.options.errorLimit c.issues

/-- What the compilation has to give, wanted or not. -/
def written (c : Compilation) : Output where
  text := c.file.text c.options
  classCount := c.file.structCount
  functionCount := c.file.functionCount

/-- What the compilation comes to. -/
def outcome (c : Compilation) : Outcome :=
  Outcome.ofReport c.report c.written

/-- The stage that the compilation reached. -/
def stage (c : Compilation) : Stage :=
  c.outcome.stage

/-- Whether the compilation succeeded. -/
def isSuccess (c : Compilation) : Bool :=
  c.outcome.isSuccess

/-- The output, if nothing is wrong. -/
def output? (c : Compilation) : Option Output :=
  c.outcome.output?

/-- **The output, or the report.** -/
def result (c : Compilation) : Except Report Output :=
  c.outcome.result

end Compilation

end Heritage
