import Heritage.Issue

/-!
# Reports

A report holds the issues found so far, in the order in which they were found.
It may have a limit; past it, issues are counted and not kept.

A compilation hands one report from part to part, and each of them adds what it
finds (`Reporting`). A list of issues has a report too (`Report.ofIssues`): the
one that a computation leaves which finds just these.
-/

namespace Heritage

/-- **The issues found**, under an optional limit on how many are kept. -/
structure Report where
  /-- How many issues are kept at most. -/
  limit : Option Nat := none
  /-- The issues kept, oldest first. -/
  issues : List Issue := []
  /-- How many issues were found beyond the limit. -/
  truncated : Nat := 0
deriving DecidableEq, Inhabited

namespace Report

/-- Whether the limit is reached. -/
def isFull (r : Report) : Bool :=
  match r.limit with
  | none => false
  | some n => decide (n ≤ r.issues.length)

/-- **Add an issue**: keep it, or count it when the report is full. -/
def add (r : Report) (i : Issue) : Report :=
  if r.isFull then { r with truncated := r.truncated + 1 }
  else { r with issues := r.issues ++ [i] }

/-- Add issues in order. -/
def addAll (r : Report) (is : List Issue) : Report :=
  is.foldl add r

/-- The report of a list of issues. -/
def ofIssues (limit : Option Nat) (is : List Issue) : Report :=
  ({ limit := limit } : Report).addAll is

/-- Keep the value of a computation that succeeded, and add the issue of one
that failed. -/
def record {α : Type} (r : Report) : Except Issue α → Option α × Report
  | .ok a => (some a, r)
  | .error i => (none, r.add i)

/-- Whether nothing was found. -/
def isEmpty (r : Report) : Bool :=
  r.issues.isEmpty && r.truncated == 0

/-- How many issues are kept. -/
def length (r : Report) : Nat :=
  r.issues.length

/-- Whether anything was found that stops a compilation. Every issue does, kept or
not. -/
def stops (r : Report) : Bool :=
  decide (0 < r.truncated) || !r.issues.isEmpty

/-- The kinds of the issues kept. -/
def kinds (r : Report) : List Kind :=
  r.issues.map Issue.kind

/-- How many issues of a kind are kept. -/
def countOf (r : Report) (k : Kind) : Nat :=
  r.kinds.count k

/-- Whether an issue of a kind is kept. -/
def hasKind (r : Report) (k : Kind) : Bool :=
  r.kinds.contains k

/-- One issue as a line of a report. -/
def entry (i : Issue) : String :=
  "error[" ++ i.kind.name ++ "]: " ++ i.message

/-- **The report as text**: a line for each issue kept, then how many were
not. -/
def text (r : Report) : String :=
  let suppressed :=
    if r.truncated = 0 then []
    else ["... " ++ toString r.truncated ++ " more diagnostic(s) suppressed"]
  "\n".intercalate (r.issues.map entry ++ suppressed)

end Report

/-! ## Computations that report -/

/-- **A computation with a report at hand**, to which it can add. It could look at
the report as well. -/
abbrev Reporting := StateM Report

namespace Reporting

/-- Report an issue. -/
def report (i : Issue) : Reporting Unit :=
  modify (·.add i)

/-- Report an issue if there is one. -/
def reportAny (i? : Option Issue) : Reporting Unit :=
  match i? with
  | none => pure ()
  | some i => report i

/-- Keep the value of a computation that succeeded, and report the issue of one
that failed. -/
def record {α : Type} (result : Except Issue α) : Reporting (Option α) :=
  modifyGet (·.record result)

end Reporting

end Heritage
