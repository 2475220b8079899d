import Heritage.Report

/-!
# Computations that only add to the report

A computation with a report at hand could look at what the report holds, and do one thing or
another. `Reporting.Finds x a found` says that `x` does not: whatever the report holds, and whether
or not there is room in it, `x` gives `a` and adds the issues `found`. It is closed under what
computations are made of, so it is shown of a computation along its own text. The issues come in
the order in which the computation adds them.
-/

namespace Heritage

theorem Report.addAll_append (r : Report) (is js : List Issue) :
    r.addAll (is ++ js) = (r.addAll is).addAll js :=
  List.foldl_append

namespace Reporting

variable {α β σ : Type} {a : α} {b : β} {is js : List Issue}

/-- **What a computation does whatever the report holds**: it gives a value, and adds issues. -/
def Finds (x : Reporting α) (a : α) (found : List Issue) : Prop :=
  ∀ r, x.run r = (a, r.addAll found)

namespace Finds

theorem pure (a : α) : Finds (Pure.pure a) a [] := fun _ => rfl

/-- **What two computations find in turn**: first the issues of the one, then those of the
other. -/
theorem bind {x : Reporting α} {f : α → Reporting β} (hx : Finds x a is)
    (hf : Finds (f a) b js) : Finds (x >>= f) b (is ++ js) := by
  intro r
  have hrun : (x >>= f).run r = (f (x.run r).1).run (x.run r).2 := rfl
  rw [hrun, hx r, Report.addAll_append]
  exact hf _

/-- A computation that goes on without finding anything. -/
theorem andThen {x : Reporting α} {f : α → Reporting β} (hx : Finds x a is)
    (hf : Finds (f a) b []) : Finds (x >>= f) b is :=
  List.append_nil is ▸ hx.bind hf

theorem of_eq {x : Reporting α} {a' : α} (h : Finds x a is) (ha : a = a') (his : is = js) :
    Finds x a' js :=
  ha ▸ his ▸ h

theorem report (i : Issue) : Finds (Reporting.report i) () [i] := fun _ => rfl

theorem reportAny (i? : Option Issue) : Finds (Reporting.reportAny i?) () i?.toList := by
  cases i? with
  | none => exact pure ()
  | some i => exact report i

theorem record_ok (a : α) : Finds (record (.ok a)) (some a) [] := fun _ => rfl

theorem record_error (i : Issue) : Finds (record (.error i : Except Issue α)) none [i] :=
  fun _ => rfl

/-! ## With a state -/

theorem run_bind {x : StateT σ Reporting α} {f : α → StateT σ Reporting β} {s s' : σ} {q : β × σ}
    (hx : Finds (x.run s) (a, s') is) (hf : Finds ((f a).run s') q js) :
    Finds ((x >>= f).run s) q (is ++ js) :=
  bind (f := fun (p : α × σ) => (f p.1).run p.2) hx hf

theorem run_after {x : StateT σ Reporting α} {f : α → StateT σ Reporting β} {s s' : σ} {q : β × σ}
    (hx : Finds (x.run s) (a, s') []) (hf : Finds ((f a).run s') q is) :
    Finds ((x >>= f).run s) q is :=
  run_bind hx hf

theorem run_andThen {x : StateT σ Reporting α} {f : α → StateT σ Reporting β} {s s' : σ}
    {q : β × σ} (hx : Finds (x.run s) (a, s') is) (hf : Finds ((f a).run s') q []) :
    Finds ((x >>= f).run s) q is :=
  andThen (f := fun (p : α × σ) => (f p.1).run p.2) hx hf

/-- A computation that knows nothing of the state leaves it as it is. -/
theorem run_lift {x : Reporting α} (hx : Finds x a is) (s : σ) :
    Finds ((liftM x : StateT σ Reporting α).run s) (a, s) is :=
  andThen (f := fun a => Pure.pure (a, s)) hx (pure (a, s))

/-- **A loop that changes the state step by step.** `states i` is the state before the `i`-th
turn. -/
theorem forM_states {f : α → StateT σ Reporting Unit} {found : α → List Issue} (xs : List α)
    (states : Nat → σ)
    (turn : ∀ i a, xs[i]? = some a → Finds ((f a).run (states i)) ((), states (i + 1)) (found a)) :
    Finds ((xs.forM f).run (states 0)) ((), states xs.length) (xs.flatMap found) := by
  induction xs generalizing states with
  | nil => exact pure _
  | cons x rest ih =>
    exact (turn 0 x rfl).run_bind (ih (fun i => states (i + 1)) fun i a ha => turn (i + 1) a ha)

/-- A loop over some of the entries of a list is one over all of them, in which the others have
nothing to do. -/
theorem forM_filter {f : α → StateT σ Reporting Unit} {p : α → Bool} (xs : List α) :
    (xs.filter p).forM f = xs.forM fun a => if p a then f a else Pure.pure () := by
  induction xs with
  | nil => rfl
  | cons x rest ih =>
    rw [List.filter_cons]
    show _ = (if p x then f x else Pure.pure ()) >>= fun _ => rest.forM _
    cases p x with
    | true => exact congrArg (fun y => f x >>= fun _ => y) ih
    | false => exact ih

/-- **A loop that is a fold**, over the state together with what was found before. -/
theorem forM_foldl {f : α → StateT σ Reporting Unit} {next : σ → α → σ}
    {found : σ → α → List Issue} (turn : ∀ s a, Finds ((f a).run s) ((), next s a) (found s a))
    (xs : List α) (s : σ) :
    Finds ((xs.forM f).run s)
      ((), (xs.foldl (fun c a => (next c.1 a, c.2 ++ found c.1 a)) (s, [])).1)
      (xs.foldl (fun c a => (next c.1 a, c.2 ++ found c.1 a)) (s, [])).2 := by
  have general (before : List Issue) :
      ∃ s' after, xs.foldl (fun c a => (next c.1 a, c.2 ++ found c.1 a)) (s, before)
          = (s', before ++ after) ∧ Finds ((xs.forM f).run s) ((), s') after := by
    induction xs generalizing s before with
    | nil => exact ⟨s, [], by rw [List.append_nil]; rfl, pure _⟩
    | cons x rest ih =>
      obtain ⟨s', after, hfold, hrest⟩ := ih (next s x) (before ++ found s x)
      exact ⟨s', found s x ++ after, by rw [List.foldl_cons, hfold, List.append_assoc],
        (turn s x).run_bind hrest⟩
  obtain ⟨s', after, hfold, hloop⟩ := general []
  rw [hfold]
  exact hloop

end Finds

end Reporting

end Heritage
