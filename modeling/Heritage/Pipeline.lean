import Heritage.Outcome
import Heritage.Reporting.Collect
import Heritage.Reporting.File
import Heritage.Reporting.Resolve

/-!
# The pipeline

Collecting, resolving and writing, one after the other, with one report that is
handed on. All three are done whatever is reported, so that one compilation finds
as much as it can; only at the end does the report decide whether there is an
output.
-/

namespace Heritage

namespace Pipeline

/-- The parts of a compilation, one after the other. -/
def passes (o : Options) (p : Program) : Reporting Output := do
  let symbols ← Registry.ofProgram p
  let table ← symbols.table.resolving
  C.writeFile o table p

/-- **Compile a program.** -/
def run (o : Options) (p : Program) : Outcome :=
  let (written, report) := (passes o p).run { limit := o.errorLimit }
  Outcome.ofReport report written

end Pipeline

/-- Compile a program to its output, or to the report of what is wrong with
it. -/
def compileWith (o : Options) (p : Program) : Except Report Output :=
  (Pipeline.run o p).result

/-- Compile a program with the options that hold if none are chosen. -/
def compile (p : Program) : Except Report Output :=
  compileWith {} p

end Heritage
