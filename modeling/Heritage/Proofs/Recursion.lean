import Heritage.Proofs.Ancestry
import Heritage.Proofs.ParentsFirst

/-!
# Recursions that go to the parents first

Classes are laid out, linearized and given their members by recursions of one
shape: a class that has had its turn is passed over; any other one waits until
its parents have had theirs. Nothing in this shape says that the recursion comes
to an end, and on a cycle it need not. So it is a relation here: `Runs` holds of
the states in which the recursion starts and ends, if it does, and then of one
end only (`Runs.unique`).

The recursion that lays out structs notes the classes it has met before it goes
to their parents, and ends whatever the parents are. `ParentsFirst.visit` counts
levels instead; it never runs out of them, and follows the recursion to the end.
-/

namespace Heritage

namespace ParentsFirst

/-- **A recursion over classes that goes to the parents first**, and what it does
to a state on the way. -/
structure Recursion (σ : Type) where
  /-- The classes it goes to from a class. -/
  parents : ClassId → List ClassId
  /-- A class is passed over. -/
  seen : σ → ClassId → Prop
  /-- What is done with a class before it goes to the parents. -/
  enter : σ → ClassId → σ
  /-- What is done with a class when it comes back from them. -/
  leave : σ → ClassId → σ

/-- **The recursion, started for some classes one after the other, ends**, and in
which state. -/
inductive Recursion.Runs {σ : Type} (r : Recursion σ) : σ → List ClassId → σ → Prop where
  | done {s : σ} : r.Runs s [] s
  | skip {s u : σ} {c : ClassId} {rest : List ClassId} (seen : r.seen s c)
      (behind : r.Runs s rest u) : r.Runs s (c :: rest) u
  | turn {s v u : σ} {c : ClassId} {rest : List ClassId} (fresh : ¬ r.seen s c)
      (above : r.Runs (r.enter s c) (r.parents c) v) (behind : r.Runs (r.leave v c) rest u) :
      r.Runs s (c :: rest) u

namespace Recursion

variable {σ : Type} {r : Recursion σ} {s u w : σ} {cs ds : List ClassId} {c : ClassId}

/-- **The recursion can end in one state only.** -/
theorem Runs.unique (h : r.Runs s cs u) (h' : r.Runs s cs w) : w = u := by
  induction h generalizing w with
  | done =>
    cases h' with
    | done => rfl
  | skip seen _ ih =>
    cases h' with
    | skip _ behind => exact ih behind
    | turn fresh _ _ => exact absurd seen fresh
  | turn fresh _ _ ihAbove ihBehind =>
    cases h' with
    | skip seen _ => exact absurd seen fresh
    | turn _ above behind =>
      obtain rfl := ihAbove above
      exact ihBehind behind

/-- Where the recursion ends, it ends nowhere else. -/
theorem Runs.iff_eq (h : r.Runs s cs u) : r.Runs s cs w ↔ w = u :=
  ⟨h.unique, fun heq => heq ▸ h⟩

theorem Runs.append (h : r.Runs s cs u) (h' : r.Runs u ds w) : r.Runs s (cs ++ ds) w := by
  induction h with
  | done => exact h'
  | skip seen _ ih => exact .skip seen (ih h')
  | turn fresh above _ _ ih => exact .turn fresh above (ih h')

theorem Runs.single_turn (fresh : ¬ r.seen s c) (above : r.Runs (r.enter s c) (r.parents c) u) :
    r.Runs s [c] (r.leave u c) :=
  .turn fresh above .done

end Recursion

/-! ## Classes that were met are passed over -/

/-- The recursion that places each class behind its parents. -/
def placing (parents : ClassId → List ClassId) : Recursion Visit where
  parents := parents
  seen v c := c ∈ v.met
  enter v c := { v with met := c :: v.met }
  leave v c := { v with placed := v.placed ++ [c] }

/-- The recursion that takes a step with each class, behind its parents. -/
def stepping {σ : Type} (parents : ClassId → List ClassId) (step : σ → ClassId → σ) :
    Recursion (List ClassId × σ) where
  parents := parents
  seen s c := c ∈ s.1
  enter s c := (c :: s.1, s.2)
  leave s c := (s.1, step s.2 c)

variable {parents : ClassId → List ClassId} {count : Nat} {opened : ClassId → Prop}
  {v w : Visit} {c : ClassId} {cs : List ClassId}

/-- **Steps are taken in the order in which classes are placed.** -/
theorem runs_stepping {σ : Type} (step : σ → ClassId → σ)
    (h : (placing parents).Runs v cs w) :
    ∃ new, w.placed = v.placed ++ new
      ∧ ∀ s, (stepping parents step).Runs (v.met, s) cs (w.met, new.foldl step s) := by
  induction h with
  | done => exact ⟨[], (List.append_nil _).symm, fun _ => .done⟩
  | skip seen _ ih =>
    obtain ⟨new, hplaced, hruns⟩ := ih
    exact ⟨new, hplaced, fun s => .skip seen (hruns s)⟩
  | @turn v x w c _ fresh _ _ ihAbove ihBehind =>
    obtain ⟨above, hplacedAbove, hruns⟩ := ihAbove
    obtain ⟨behind, hplacedBehind, hrunsBehind⟩ := ihBehind
    have hx : x.placed = v.placed ++ above := hplacedAbove
    have hw : w.placed = x.placed ++ [c] ++ behind := hplacedBehind
    refine ⟨above ++ c :: behind, ?_, fun s => ?_⟩
    · rw [hw, hx, List.append_assoc, List.append_assoc]
      rfl
    · rw [List.foldl_append, List.foldl_cons]
      exact .turn fresh (hruns s) (hrunsBehind _)

theorem foldl_visit_runs {n : Nat} (inside : ∀ c < count, ∀ a ∈ parents c, a < count)
    (one : ∀ v c, Visiting parents count opened v → c < count →
      (∀ s, opened s → Relation.TransGen (Edge parents) s c) → count ≤ v.met.length + n →
      (placing parents).Runs v [c] (visit parents n v c))
    (cs : List ClassId) (h : Visiting parents count opened v)
    (hcs : ∀ c ∈ cs, c < count ∧ ∀ s, opened s → Relation.TransGen (Edge parents) s c)
    (fuel : count ≤ v.met.length + n) :
    (placing parents).Runs v cs (cs.foldl (visit parents n) v) :=
  foldl_visit_induction
    (P := fun v cs => (placing parents).Runs v cs (cs.foldl (visit parents n) v)) inside
    (fun _ => .done)
    (fun v c _ hv hc hopen fuel hrest => (one v c hv hc hopen fuel).append hrest) cs h hcs fuel

/-- **A visit follows the recursion to the end**: each level meets one more class, so
there is one left as long as there is a class to meet. -/
theorem visit_runs (inside : ∀ c < count, ∀ a ∈ parents c, a < count) (n : Nat)
    (h : Visiting parents count opened v) (hc : c < count)
    (hopen : ∀ s, opened s → Relation.TransGen (Edge parents) s c)
    (fuel : count ≤ v.met.length + n) :
    (placing parents).Runs v [c] (visit parents n v c) := by
  induction n generalizing v c opened with
  | zero => exact .skip (h.mem_met_of_full hc fuel) .done
  | succ n ih =>
    by_cases hmet : c ∈ v.met
    · rw [visit_of_mem _ hmet]
      exact .skip hmet .done
    · have hfuel : count ≤ (c :: v.met).length + n := by
        rw [List.length_cons]
        omega
      unfold visit
      rw [if_neg fun hm => hmet (List.contains_iff_mem.mp hm)]
      exact .single_turn hmet (foldl_visit_runs inside (fun v d => ih) (parents c) (h.meet hc hmet)
        (fun a ha => ⟨inside c hc a ha, leads_to_parent hopen ha⟩) hfuel)

/-- **The order of the classes is the one in which the recursion places them.** -/
theorem order_runs (inside : ∀ c < count, ∀ a ∈ parents c, a < count) :
    ∃ met, (placing parents).Runs {} (List.range count) { met, placed := order parents count } :=
  ⟨_, foldl_visit_runs inside (fun _ _ => visit_runs inside count) _ visiting_start
    (fun _ hc => ⟨List.mem_range.mp hc, fun _ => False.elim⟩) (Nat.le_add_left _ _)⟩

/-- **The steps are taken in the order of the classes.** -/
theorem order_runs_stepping {σ : Type} (inside : ∀ c < count, ∀ a ∈ parents c, a < count)
    (step : σ → ClassId → σ) :
    ∃ met, ∀ s, (stepping parents step).Runs ([], s) (List.range count)
      (met, (order parents count).foldl step s) := by
  obtain ⟨met, hplacing⟩ := order_runs inside
  obtain ⟨new, hnew, hruns⟩ := runs_stepping step hplacing
  obtain rfl : order parents count = new := hnew
  exact ⟨met, hruns⟩

/-- **Classes whose parents come before them stay where they are.** -/
theorem order_eq_range (earlier : ∀ c < count, ∀ a ∈ parents c, a < c) :
    order parents count = List.range count := by
  induction count with
  | zero => rfl
  | succ count ih =>
    have hearlier : ∀ c < count, ∀ a ∈ parents c, a < c :=
      fun c hc => earlier c (Nat.lt_succ_of_lt hc)
    rw [order_succ (fun _ _ => rfl) (fun c hc a ha => Nat.lt_trans (hearlier c hc a ha) hc)
      (earlier count (Nat.lt_succ_self count)), ih hearlier, List.range_succ]

end ParentsFirst

/-! ## Structs -/

open ParentsFirst SymbolTable

/-- **Structs can be laid out in the order of the table**, whatever the parents of its
classes are. The recursion ends and lists every class once; a class that does not
derive from itself stands behind all of its parents; and if no class has a parent
declared after it, the order is that of declaration. -/
theorem structs_behind_parents (t : SymbolTable) (inside : t.ParentsInside) :
    (∃ met, ∀ v, (placing fun c => (t.classAt c).resolvedParents).Runs {} t.classIds v
        ↔ v = { met, placed := t.structOrder })
      ∧ t.structOrder.Perm t.classIds
      ∧ (∀ before c behind, t.structOrder = before ++ c :: behind → ¬ t.Ancestor c c →
        ∀ a, t.Parent c a → a ∈ before)
      ∧ ((∀ c a, t.Parent c a → a < c) → t.structOrder = t.classIds) := by
  have hinside : ∀ c < t.classes.length, ∀ a ∈ (t.classAt c).resolvedParents,
      a < t.classes.length := fun c _ a ha => inside c a ha
  obtain ⟨met, hruns⟩ := order_runs hinside
  refine ⟨⟨met, fun v => hruns.iff_eq⟩, order_perm hinside, ?_, fun earlier => ?_⟩
  · intro before c behind hsplit hacyclic a ha
    exact (order_behind_parents hinside hsplit ha).resolve_right hacyclic
  · exact order_eq_range fun c _ a ha => earlier c a ha

/-- Classes that only have resolved parents. -/
def SymbolTable.ofParents (parents : List (List ClassId)) : SymbolTable :=
  { SymbolTable.empty with
    classes := parents.map fun ps => { (default : ClassSymbol) with resolvedParents := ps } }

/-- Two classes on a cycle, and one between them in the order of declaration that has
a parent on the cycle and one declared behind it. -/
theorem structs_behind_parents_cycle :
    let t := SymbolTable.ofParents [[2], [0, 3], [0], []]
    t.ParentsInside ∧ t.structOrder = [2, 0, 3, 1] ∧ t.Ancestor 0 0 ∧ ¬ t.Ancestor 1 1
      ∧ ∀ a, t.Parent 1 a → a ∈ [2, 0, 3] := by
  intro t
  have inside : t.ParentsInside := by
    intro c a hp
    have hc : c < 4 := lt_of_parent hp
    have hall : ∀ c < 4, ∀ a ∈ (t.classAt c).resolvedParents, a < 4 := by decide
    exact hall c hc a hp
  have horder : t.structOrder = [2, 0, 3] ++ 1 :: [] := by decide
  have hcycle : t.Ancestor 0 0 :=
    .head (show t.Parent 0 2 by unfold Parent; decide) (.single (by unfold Parent; decide))
  -- nothing has the class as a parent
  have hone : ¬ t.Ancestor 1 1 := by
    intro h
    obtain ⟨c, -, hp⟩ := Relation.TransGen.tail'_iff.mp h
    have hall : ∀ c < 4, 1 ∉ (t.classAt c).resolvedParents := by decide
    exact hall c (lt_of_parent hp) hp
  exact ⟨inside, horder, hcycle, hone,
    (structs_behind_parents t inside).2.2.1 [2, 0, 3] 1 [] horder hone⟩

end Heritage
