import Heritage.Proofs.Reporting
import Heritage.Reporting.Expr

/-!
# One walk does what three functions do

The type of an expression, its text and its issues are three functions of it. The walk that reports
brings back the first two and reports the third: each of its parts does, so it does by induction on
the expression.
-/

namespace Heritage

open Reporting (Finds)

variable {s : Site}

namespace Site

/-! ## What is done with an expression -/

theorem finds_useValue (s : Site) (e : Expr) (code : String) :
    Finds (useValue e { type := s.type? e, code := code })
      { type := s.valueType? e, code := s.valueText e code } (s.useIssues e) := by
  unfold useValue valueType? valueText useIssues
  match s.type? e with
  | none => exact Finds.pure _
  | some .void => exact (Finds.report _).andThen (Finds.pure _)
  | some .int => exact Finds.pure _
  | some (.cls c) => exact Finds.pure _

/-- An operand is reported if it is no number. -/
theorem finds_useOperand (s : Site) (op : BinOp) (e : Expr) (code : String) :
    Finds (s.useOperand op e { type := s.valueType? e, code := code }) code
      (s.operandIssues op e) := by
  unfold operandIssues
  match htype : s.valueType? e with
  | none => exact Finds.pure _
  | some type => exact (Finds.reportAny _).andThen (Finds.pure _)

/-- A value is converted where it fits, and reported where it does not. -/
theorem finds_storeValue (s : Site) (e : Expr) (target : Option Ty) (use code : String) :
    Finds (s.storeValue e target use { type := s.valueType? e, code := code })
      (s.storeText e target code) (s.storeIssues e target use) := by
  unfold storeValue storeText storeIssues SymbolTable.storeIssue?
  match s.valueType? e, target with
  | none, _ => exact Finds.pure _
  | some _, none => exact Finds.pure _
  | some source, some target =>
    dsimp only
    cases s.table.isCompatible source target with
    | true => exact Finds.pure _
    | false => exact (Finds.report _).andThen (Finds.pure _)

/-- A call that reaches no method has its arguments walked too, and their texts thrown away. -/
theorem finds_inferCall {discard : Reporting Unit} {pass : Reporting String} {receiver : String}
    {callee : Ident} {got : Nat} {span : Span} {target : Target} {args : String} {is : List Issue}
    (hpass : Finds pass args is)
    (hdiscard : (∀ on m, target ≠ .method on m) → Finds discard () is) (hnone : got = 0 → is = []) :
    Finds (s.inferCall receiver callee got span discard pass target)
      { type := s.targetType? target, code := s.callText receiver args target }
      (s.targetIssues callee got span target ++ is) := by
  cases target with
  | construct c =>
    refine Finds.andThen (?_ : Finds (refuseArgs callee got span discard) () _) (Finds.pure _)
    unfold refuseArgs targetIssues
    by_cases hgot : got = 0
    · rw [if_pos hgot, hnone hgot]
      dsimp only
      rw [if_pos hgot]
      exact Finds.pure _
    · rw [if_neg hgot]
      dsimp only
      rw [if_neg hgot]
      exact (Finds.report _).bind (hdiscard fun _ _ => nofun)
  | nothing why =>
    exact (Finds.reportAny why).bind ((hdiscard fun _ _ => nofun).andThen (Finds.pure _))
  | method on m => exact (Finds.reportAny _).bind (hpass.andThen (Finds.pure _))

/-! ## The walk -/

mutual
/-- **The walk over an expression** brings back its type and its text, and reports its issues. -/
theorem finds_infer (s : Site) : (e : Expr) →
    Finds (s.infer e) { type := s.type? e, code := s.code e } (s.issues e)
  | .int value span => by
    unfold infer type? code issues literalIssue?
    cases fitsInt value with
    | true => exact (Finds.record_ok _).andThen (Finds.pure _)
    | false => exact (Finds.record_error _).andThen (Finds.pure _)
  | .name ident => by
    unfold infer type? code issues
    cases s.var ident with
    | ok v => exact (Finds.record_ok _).andThen (Finds.pure _)
    | error i => exact (Finds.record_error _).andThen (Finds.pure _)
  | .self _ => Finds.pure _
  | .binary op left right _ => by
    unfold infer type? code issues
    simp only [List.append_assoc]
    refine (finds_infer s left).bind ((finds_useValue s left _).bind ?_)
    refine (finds_useOperand s op left _).bind ?_
    refine (finds_infer s right).bind ((finds_useValue s right _).bind ?_)
    exact (finds_useOperand s op right _).andThen (Finds.pure _)
  | .call callee args span => by
    unfold infer type? code issues
    exact finds_inferCall (finds_passArgs s _ 0 args) (finds_discardArgs s _ 0 args)
      fun hnone => List.eq_nil_of_length_eq_zero hnone ▸ rfl
  | .send receiver callee args span => by
    unfold infer type? code issues
    simp only [List.append_assoc]
    refine (finds_infer s receiver).bind ((finds_useValue s receiver _).bind ?_)
    exact finds_inferCall (finds_passArgs s _ 0 args) (finds_discardArgs s _ 0 args)
      fun hnone => List.eq_nil_of_length_eq_zero hnone ▸ rfl
/-- Arguments that are not passed to a method are expected to be of no type in particular. -/
theorem finds_discardArgs (s : Site) (target : Target) (i : Nat) : (args : List Expr) →
    (∀ on m, target ≠ .method on m) → Finds (s.discardArgs args) () (s.argIssues target i args)
  | [], _ => Finds.pure _
  | e :: rest, h => by
    have hstore : s.storeIssues e (s.paramType? target i) (s.argUse target i) = [] := by
      have hparam : s.paramType? target i = none := by
        unfold paramType?
        split
        · rename_i on m
          exact absurd rfl (h on m)
        · rfl
      rw [hparam]
      unfold storeIssues
      split
      · contradiction
      · rfl
    unfold discardArgs argIssues
    rw [hstore, List.append_nil, List.append_assoc]
    exact (finds_infer s e).bind ((finds_useValue s e _).bind
      (finds_discardArgs s target (i + 1) rest h))
theorem finds_passArgs (s : Site) (target : Target) (i : Nat) : (args : List Expr) →
    Finds (s.passArgs target i args) (s.argsCode target i args) (s.argIssues target i args)
  | [] => Finds.pure _
  | e :: rest => by
    unfold passArgs argsCode argIssues
    simp only [List.append_assoc]
    refine (finds_infer s e).bind ((finds_useValue s e _).bind ?_)
    refine (finds_storeValue s e _ _ _).bind ?_
    exact (finds_passArgs s target (i + 1) rest).andThen (Finds.pure _)
end

theorem finds_inferValue (s : Site) (e : Expr) :
    Finds (s.inferValue e) { type := s.valueType? e, code := s.valueCode e } (s.valueIssues e) :=
  (finds_infer s e).bind (finds_useValue s e _)

theorem finds_check (s : Site) (e : Expr) (target : Option Ty) (use : String) :
    Finds (s.check e target use) (s.checkCode e target) (s.checkIssues e target use) :=
  (finds_inferValue s e).bind (finds_storeValue s e target use _)

end Site

end Heritage
