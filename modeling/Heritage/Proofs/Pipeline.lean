import Heritage.Compilation
import Heritage.Proofs.Collecting
import Heritage.Proofs.Resolving
import Heritage.Proofs.Writing

/-!
# The pipeline and its parts

The pipeline hands one report from part to part. No part looks at what the report holds, so the
pipeline can be taken apart: each part gives what it gives without a report, and the report at the
end is that of everything they find. So a compilation with a report comes to what a compilation
part by part comes to.
-/

namespace Heritage

open Reporting (Finds)

namespace Pipeline

/-- **What the pipeline finds is what its parts find**, one after the other. -/
theorem finds_passes (o : Options) (p : Program) :
    Finds (passes o p) (Compilation.run o p).written (Compilation.run o p).issues := by
  have hcollect := Registry.finds_ofProgram p
  have hresolve := (collect_fresh p).finds_resolving
  have hwrite := C.finds_writeFile o (SymbolTable.collect p).table.resolve.table p
  unfold Compilation.issues
  rw [List.append_assoc]
  refine hcollect.bind ?_
  rw [SymbolTable.table_registry]
  exact hresolve.bind hwrite

/-- **A compilation with a report at hand comes to what a compilation part by part comes to.** -/
theorem run_eq_outcome (o : Options) (p : Program) : run o p = (Compilation.run o p).outcome := by
  have hpasses := finds_passes o p { limit := o.errorLimit }
  unfold run
  rw [hpasses]
  rfl

end Pipeline

/-! ## How a compilation ends -/

namespace Report

/-- Whatever the limit is, a report accounts for every issue. -/
theorem addAll_total (is : List Issue) (r : Report) :
    (r.addAll is).issues.length + (r.addAll is).truncated
      = r.issues.length + r.truncated + is.length := by
  induction is generalizing r with
  | nil => rfl
  | cons i rest ih =>
    have hadd : (r.add i).issues.length + (r.add i).truncated
        = r.issues.length + r.truncated + 1 := by
      unfold add
      split
      · rfl
      · rw [List.length_append, List.length_singleton, Nat.add_right_comm]
    have hcons : r.addAll (i :: rest) = (r.add i).addAll rest := rfl
    rw [hcons, ih, hadd, List.length_cons, Nat.add_assoc, Nat.add_comm 1]

/-- **A report stops a compilation exactly if it is of something.** -/
theorem stops_ofIssues (limit : Option Nat) (is : List Issue) :
    (ofIssues limit is).stops = true ↔ is ≠ [] := by
  have htotal : ((ofIssues limit is).issues.length) + (ofIssues limit is).truncated = is.length :=
    (addAll_total is { limit := limit }).trans (Nat.zero_add _)
  unfold stops
  rw [Bool.or_eq_true_iff, decide_eq_true_iff, Bool.not_eq_true', List.isEmpty_eq_false_iff,
    ← List.length_pos_iff, ← List.length_pos_iff]
  omega

/-- What does not stop a compilation is empty. -/
theorem isEmpty_eq_not_stops (r : Report) : r.isEmpty = !r.stops := by
  unfold isEmpty stops
  rw [Bool.eq_iff_iff, Bool.and_eq_true_iff, Bool.not_eq_true', Bool.or_eq_false_iff, beq_iff_eq,
    decide_eq_false_iff_not, Nat.pos_iff_ne_zero, not_not, Bool.not_eq_false', and_comm]

end Report

namespace Compilation

/-- **How a compilation ends is decided by what it found**, and not by what its report had room
for. -/
theorem outcome_eq (c : Compilation) :
    c.outcome = if c.issues = []
      then { stage := .generated, output? := some c.written, report := c.report }
      else { stage := .validated, output? := none, report := c.report } := by
  have hstops : c.report.stops = true ↔ c.issues ≠ [] := Report.stops_ofIssues _ _
  unfold outcome Outcome.ofReport
  rw [if_congr hstops rfl rfl, ite_not]

theorem report_outcome (c : Compilation) : c.outcome.report = c.report := by
  rw [outcome_eq]
  split <;> rfl

theorem result_eq (c : Compilation) :
    c.result = if c.issues = [] then .ok c.written else .error c.report := by
  unfold result Outcome.result
  rw [outcome_eq]
  by_cases hnil : c.issues = []
  · have hempty : c.report.isEmpty = true := by
      rw [Report.isEmpty_eq_not_stops, Bool.not_eq_true', ← Bool.not_eq_true]
      exact mt (Report.stops_ofIssues _ _).mp (not_not.mpr hnil)
    simp only [if_pos hnil, if_pos hempty]
  · simp only [if_neg hnil]

end Compilation

/-- **A program is compiled to what was written for it, or to the report.** -/
theorem compileWith_eq (o : Options) (p : Program) :
    compileWith o p = if (Compilation.run o p).issues = []
      then .ok (Compilation.run o p).written else .error (Compilation.run o p).report := by
  unfold compileWith
  rw [Pipeline.run_eq_outcome]
  exact (Compilation.run o p).result_eq

end Heritage
