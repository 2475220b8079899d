import Heritage.Proofs.Acceptance

/-!
# A limit only shortens the report

A report with a limit keeps the issues that come first and counts the others.
No part of the pipeline does one thing or another because of what the report
kept, and whether anything was found is read off what is kept together with what
is counted. So a limit changes neither the outcome of a compilation nor its
output, even if it keeps nothing.
-/

namespace Heritage

namespace Report

/-! ## What a report keeps -/

/-- Without a limit everything is kept. -/
theorem addAll_of_limit_none (is : List Issue) {r : Report} (h : r.limit = none) :
    r.addAll is = { r with issues := r.issues ++ is } := by
  induction is generalizing r with
  | nil => rw [List.append_nil]; rfl
  | cons i rest ih =>
    have hadd : r.add i = { r with issues := r.issues ++ [i] } := by
      unfold add isFull
      rw [h]
      rfl
    show (r.add i).addAll rest = _
    rw [hadd]
    refine Eq.trans (ih ?_) ?_
    · exact h
    · rw [List.append_assoc]
      rfl

/-- **With a limit, what there is room for is kept**, and the rest is counted. -/
theorem addAll_of_limit_some (is : List Issue) {r : Report} {n : Nat} (h : r.limit = some n) :
    r.addAll is
      = { r with issues := r.issues ++ is.take (n - r.issues.length)
                 truncated := r.truncated + (is.length - (n - r.issues.length)) } := by
  induction is generalizing r with
  | nil =>
    rw [List.take_nil, List.append_nil, List.length_nil, Nat.zero_sub]
    rfl
  | cons i rest ih =>
    have hfull : r.isFull = decide (n ≤ r.issues.length) := by
      unfold isFull
      rw [h]
    show (r.add i).addAll rest = _
    unfold add
    rw [hfull]
    -- Once there is no room there never will be again: a report only grows.
    by_cases hn : n ≤ r.issues.length
    · have hroom : n - r.issues.length = 0 := Nat.sub_eq_zero_of_le hn
      rw [if_pos (decide_eq_true hn)]
      refine Eq.trans (ih ?_) ?_
      · exact h
      · simp only [hroom, List.take_zero, Nat.sub_zero, List.length_cons]
        rw [Nat.add_assoc, Nat.add_comm 1]
    · have hroom : n - r.issues.length = n - (r.issues.length + 1) + 1 := by omega
      rw [if_neg (by rwa [decide_eq_true_eq])]
      refine Eq.trans (ih ?_) ?_
      · exact h
      · simp only [hroom, List.length_append, List.length_cons, List.length_nil, Nat.zero_add,
          List.take_succ_cons, Nat.add_sub_add_right, List.append_assoc, List.singleton_append]

theorem ofIssues_none (is : List Issue) : ofIssues none is = { issues := is } :=
  addAll_of_limit_none is rfl

theorem ofIssues_some (n : Nat) (is : List Issue) :
    ofIssues (some n) is
      = { limit := some n, issues := is.take n, truncated := is.length - n } := by
  refine (addAll_of_limit_some is rfl).trans ?_
  rw [Nat.zero_add]
  rfl

end Report

/-! ## What a compilation comes to -/

/-- **An outcome of a compilation that found these issues and wrote this output**: with the output
if there are none, and with its report if there are some. -/
structure Outcome.Ends (c : Outcome) (found : List Issue) (written : Output) : Prop where
  generated : c.stage = .generated ↔ found = []
  validated : c.stage = .validated ↔ found ≠ []
  success : c.isSuccess = true ↔ found = []
  output : c.output? = if found = [] then some written else none
  ok : (∃ out, c.result = .ok out) ↔ found = []
  error : c.result = .error c.report ↔ found ≠ []

namespace Compilation

theorem ends (c : Compilation) : c.outcome.Ends c.issues c.written := by
  have houtcome := c.outcome_eq
  have hresult : c.outcome.result = if c.issues = [] then .ok c.written else .error c.report :=
    c.result_eq
  by_cases hnil : c.issues = []
  · rw [if_pos hnil] at houtcome hresult
    have hstage : c.outcome.stage = .generated := congrArg Outcome.stage houtcome
    exact {
      generated := iff_of_true hstage hnil
      validated := iff_of_false (fun h => nomatch hstage.symm.trans h) (not_not.mpr hnil)
      success := iff_of_true (beq_iff_eq.mpr hstage) hnil
      output := (congrArg Outcome.output? houtcome).trans (if_pos hnil).symm
      ok := iff_of_true ⟨_, hresult⟩ hnil
      error := iff_of_false (fun h => nomatch hresult.symm.trans h) (not_not.mpr hnil) }
  · rw [if_neg hnil] at houtcome hresult
    have hstage : c.outcome.stage = .validated := congrArg Outcome.stage houtcome
    exact {
      generated := iff_of_false (fun h => nomatch hstage.symm.trans h) hnil
      validated := iff_of_true hstage hnil
      success := iff_of_false (fun h => nomatch hstage.symm.trans (beq_iff_eq.mp h)) hnil
      output := (congrArg Outcome.output? houtcome).trans (if_neg hnil).symm
      ok := iff_of_false (fun ⟨_, h⟩ => nomatch hresult.symm.trans h) hnil
      error := iff_of_true (hresult.trans (congrArg Except.error c.report_outcome.symm)) hnil }

/-- Without a limit a compilation reports all that it found. -/
theorem report_issues_of_limit_none {o : Options} (h : o.errorLimit = none) (p : Program) :
    (run o p).report = { issues := (run o p).issues } := by
  unfold report
  show Report.ofIssues o.errorLimit _ = _
  rw [h, Report.ofIssues_none]

end Compilation

/-- **A limit only shortens the report.** A program is compiled twice, with a report that is
handed from part to part: once without a limit and once with the limit `n`. The first reports
everything that the parts find, each by itself; the second, the first `n` of it, and how many it
left out. Both end in the same way, and with the same output. -/
theorem limit_only_shortens_report (o : Options) (p : Program) (n : Nat) :
    let c := Pipeline.run { o with errorLimit := none } p
    let c' := Pipeline.run { o with errorLimit := some n } p
    let found := (Compilation.run o p).issues
    let written := (Compilation.run o p).written
    c.report.issues = found
      ∧ c.report.truncated = 0
      ∧ c'.report.issues = found.take (min n found.length)
      ∧ c'.report.truncated = found.length - min n found.length
      ∧ c.Ends found written
      ∧ c'.Ends found written
      ∧ c'.output? = c.output? := by
  intro c c' found written
  have hc : c = (Compilation.run { o with errorLimit := none } p).outcome :=
    Pipeline.run_eq_outcome _ p
  have hc' : c' = (Compilation.run { o with errorLimit := some n } p).outcome :=
    Pipeline.run_eq_outcome _ p
  -- No part of the compilation takes the limit, so both find and write the same.
  have hends : c.Ends found written := hc ▸ Compilation.ends _
  have hends' : c'.Ends found written := hc' ▸ Compilation.ends _
  have hreport : c.report = { issues := found } := by
    rw [hc, Compilation.report_outcome]
    exact Report.ofIssues_none found
  have hreport' : c'.report
      = { limit := some n, issues := found.take n, truncated := found.length - n } := by
    rw [hc', Compilation.report_outcome]
    exact Report.ofIssues_some n found
  refine ⟨congrArg Report.issues hreport, congrArg Report.truncated hreport, ?_, ?_, hends,
    hends', ?_⟩
  · rw [hreport']
    exact List.take_eq_take_min
  · rw [hreport']
    show found.length - n = _
    omega
  · rw [hends'.output, hends.output]

end Heritage
