import Heritage.Inheritance.ParentsFirst
import Mathlib.Data.List.Nodup
import Mathlib.Data.List.Perm.Subperm
import Mathlib.Logic.Relation

/-!
# Every class is placed once, behind its parents

A class that is being visited has been met and not placed; such classes are
open. Every open class leads to the one that is visited next, so a parent that
turns out to be open closes a cycle. A parent that is not open has been placed.

A class that is added behind the others and is no parent of theirs is placed
behind them, and they are placed as before.
-/

namespace Heritage

namespace ParentsFirst

variable {parents : ClassId → List ClassId} {count : Nat}

/-- A step to a parent. -/
def Edge (parents : ClassId → List ClassId) (c a : ClassId) : Prop :=
  a ∈ parents c

/-- **The state of a visit in which some classes are open.** -/
structure Visiting (parents : ClassId → List ClassId) (count : Nat) (opened : ClassId → Prop)
    (v : Visit) : Prop where
  /-- No class is met twice. -/
  met_nodup : v.met.Nodup
  /-- Only classes are met. -/
  met_lt : ∀ c ∈ v.met, c < count
  /-- No class is placed twice. -/
  placed_nodup : v.placed.Nodup
  /-- What was met is placed or open. -/
  met_iff : ∀ c, c ∈ v.met ↔ c ∈ v.placed ∨ opened c
  /-- What is open is not placed. -/
  not_placed : ∀ c, opened c → c ∉ v.placed
  /-- A class is placed behind its parents unless it lies on a cycle. -/
  behind_parents : ∀ {before c behind}, v.placed = before ++ c :: behind →
    ∀ a ∈ parents c, a ∈ before ∨ Relation.TransGen (Edge parents) c c

variable {opened : ClassId → Prop} {v w : Visit} {c : ClassId}

theorem visiting_start : Visiting parents count (fun _ => False) {} where
  met_nodup := List.nodup_nil
  met_lt c hc := (List.not_mem_nil hc).elim
  placed_nodup := List.nodup_nil
  met_iff c :=
    ⟨fun h => (List.not_mem_nil h).elim, fun h => h.elim (List.not_mem_nil · |>.elim) False.elim⟩
  not_placed c h := h.elim
  behind_parents h := by simp at h

theorem Visiting.met_length_lt (h : Visiting parents count opened v) (hc : c < count)
    (hmet : c ∉ v.met) : v.met.length < count := by
  have hnodup : (c :: v.met).Nodup := List.nodup_cons.mpr ⟨hmet, h.met_nodup⟩
  have hsub : c :: v.met ⊆ List.range count := by
    intro x hx
    rcases List.mem_cons.mp hx with rfl | hx
    · exact List.mem_range.mpr hc
    · exact List.mem_range.mpr (h.met_lt x hx)
  have hle := (List.subperm_of_subset hnodup hsub).length_le
  rwa [List.length_cons, List.length_range] at hle

/-- With as many classes met as there are, every class has been met. -/
theorem Visiting.mem_met_of_full (h : Visiting parents count opened v) (hc : c < count)
    (full : count ≤ v.met.length) : c ∈ v.met := by
  by_contra hmet
  exact absurd (h.met_length_lt hc hmet) (Nat.not_lt.mpr full)

/-- A class that every open one leads to is opened: then they lead to its parents. -/
theorem leads_to_parent (hopen : ∀ s, opened s → Relation.TransGen (Edge parents) s c)
    {a : ClassId} (ha : a ∈ parents c) (s : ClassId) (hs : s = c ∨ opened s) :
    Relation.TransGen (Edge parents) s a := by
  rcases hs with rfl | hs
  · exact .single ha
  · exact (hopen s hs).tail ha

/-- A class that is met becomes open. -/
theorem Visiting.meet (h : Visiting parents count opened v) (hc : c < count)
    (hmet : c ∉ v.met) :
    Visiting parents count (fun s => s = c ∨ opened s) { v with met := c :: v.met } where
  met_nodup := List.nodup_cons.mpr ⟨hmet, h.met_nodup⟩
  met_lt x hx := by
    rcases List.mem_cons.mp hx with rfl | hx
    · exact hc
    · exact h.met_lt x hx
  placed_nodup := h.placed_nodup
  met_iff x := by
    rw [List.mem_cons, h.met_iff x]
    exact or_left_comm
  not_placed x hx := by
    rcases hx with rfl | hx
    · exact fun hp => hmet ((h.met_iff x).mpr (Or.inl hp))
    · exact h.not_placed x hx
  behind_parents := h.behind_parents

/-- An element of a list with one more at the end is that one, or stands before
it. -/
theorem concat_eq_split {xs before behind : List ClassId} {d : ClassId}
    (h : xs ++ [c] = before ++ d :: behind) :
    (d = c ∧ before = xs) ∨ ∃ rest, xs = before ++ d :: rest := by
  rcases behind.eq_nil_or_concat with rfl | ⟨rest, e, rfl⟩
  · obtain ⟨rfl, hd⟩ := List.append_inj' h rfl
    exact Or.inl ⟨(List.cons.inj hd).1.symm, rfl⟩
  · refine Or.inr ⟨rest, ?_⟩
    have h' : xs ++ [c] = (before ++ d :: rest) ++ [e] := by
      rw [h, List.append_assoc, List.concat_eq_append]
      rfl
    exact (List.append_inj' h' rfl).1

/-- An open class whose parents were met is placed. -/
theorem Visiting.place (h : Visiting parents count (fun s => s = c ∨ opened s) w)
    (hfresh : ¬ opened c) (hopen : ∀ s, opened s → Relation.TransGen (Edge parents) s c)
    (hparents : ∀ a ∈ parents c, a ∈ w.met) :
    Visiting parents count opened { w with placed := w.placed ++ [c] } where
  met_nodup := h.met_nodup
  met_lt := h.met_lt
  placed_nodup := by
    refine List.nodup_append.mpr ⟨h.placed_nodup, List.nodup_singleton c, ?_⟩
    rintro x hx y hy rfl
    exact h.not_placed x (Or.inl (List.mem_singleton.mp hy)) hx
  met_iff x := by
    rw [h.met_iff x, List.mem_append, List.mem_singleton, or_assoc]
  not_placed x hx hp := by
    rcases List.mem_append.mp hp with hp | hp
    · exact h.not_placed x (Or.inr hx) hp
    · exact hfresh (List.mem_singleton.mp hp ▸ hx)
  behind_parents := by
    intro before d behind hsplit a ha
    rcases concat_eq_split hsplit with ⟨rfl, rfl⟩ | ⟨rest, hrest⟩
    · rcases (h.met_iff a).mp (hparents a ha) with hp | rfl | hs
      · exact Or.inl hp
      · exact Or.inr (.single ha)
      · exact Or.inr (.head ha (hopen a hs))
    · exact h.behind_parents hrest a ha

/-- What visiting a class or several in a row comes to: the state is kept, and
what was met stays met. -/
def Arrives (parents : ClassId → List ClassId) (count : Nat) (opened : ClassId → Prop)
    (v w : Visit) (targets : List ClassId) : Prop :=
  Visiting parents count opened w ∧ (∀ x ∈ v.met, x ∈ w.met) ∧ v.met.length ≤ w.met.length
    ∧ ∀ c ∈ targets, c ∈ w.met

theorem arrives_foldl {f : Visit → ClassId → Visit} {n : Nat}
    (one : ∀ v c, Visiting parents count opened v → c < count →
      (∀ s, opened s → Relation.TransGen (Edge parents) s c) → count ≤ v.met.length + n →
      Arrives parents count opened v (f v c) [c])
    (cs : List ClassId) (h : Visiting parents count opened v)
    (hcs : ∀ c ∈ cs, c < count ∧ ∀ s, opened s → Relation.TransGen (Edge parents) s c)
    (fuel : count ≤ v.met.length + n) : Arrives parents count opened v (cs.foldl f v) cs := by
  induction cs generalizing v with
  | nil => exact ⟨h, fun _ => id, Nat.le_refl _, fun c hc => (List.not_mem_nil hc).elim⟩
  | cons c rest ih =>
    obtain ⟨hc, hopen⟩ := hcs c List.mem_cons_self
    obtain ⟨hv, hkeep, hlen, hmet⟩ := one v c h hc hopen fuel
    obtain ⟨hv', hkeep', hlen', hmet'⟩ := ih hv (fun d hd => hcs d (List.mem_cons_of_mem c hd))
      (Nat.le_trans fuel (Nat.add_le_add_right hlen n))
    refine ⟨hv', fun x hx => hkeep' x (hkeep x hx), Nat.le_trans hlen hlen', fun d hd => ?_⟩
    rcases List.mem_cons.mp hd with rfl | hd
    · exact hkeep' d (hmet d List.mem_cons_self)
    · exact hmet' d hd

/-- **Visiting a class** that every open class leads to. -/
theorem visit_arrives (inside : ∀ c < count, ∀ a ∈ parents c, a < count) (n : Nat)
    (h : Visiting parents count opened v) (hc : c < count)
    (hopen : ∀ s, opened s → Relation.TransGen (Edge parents) s c)
    (fuel : count ≤ v.met.length + n) :
    Arrives parents count opened v (visit parents n v c) [c] := by
  induction n generalizing v c opened with
  | zero =>
    have hmet := h.mem_met_of_full hc fuel
    exact ⟨h, fun _ => id, Nat.le_refl _, fun d hd => List.mem_singleton.mp hd ▸ hmet⟩
  | succ n ih =>
    unfold visit
    by_cases hmet : c ∈ v.met
    · rw [if_pos (List.contains_iff_mem.mpr hmet)]
      exact ⟨h, fun _ => id, Nat.le_refl _, fun d hd => List.mem_singleton.mp hd ▸ hmet⟩
    · rw [if_neg (fun hm => hmet (List.contains_iff_mem.mp hm))]
      have hfuel : count ≤ (c :: v.met).length + n := by
        rw [List.length_cons]
        omega
      obtain ⟨hw, hkeep, hlen, hparents⟩ := arrives_foldl (fun v d => ih) (parents c)
        (h.meet hc hmet) (fun a ha => ⟨inside c hc a ha, leads_to_parent hopen ha⟩) hfuel
      refine ⟨hw.place ?_ hopen hparents, fun x hx => hkeep x (List.mem_cons_of_mem c hx), ?_, ?_⟩
      · exact fun ho => hmet ((h.met_iff c).mpr (Or.inr ho))
      · exact Nat.le_trans (Nat.le_succ _) hlen
      · exact fun d hd => hkeep d (List.mem_singleton.mp hd ▸ List.mem_cons_self)

/-- The state at the end: every class is met, and none is open. -/
theorem order_visiting (inside : ∀ c < count, ∀ a ∈ parents c, a < count) :
    Arrives parents count (fun _ => False) {}
      ((List.range count).foldl (visit parents count) {}) (List.range count) :=
  arrives_foldl (fun _ _ => visit_arrives inside count) _ visiting_start
    (fun _ hc => ⟨List.mem_range.mp hc, fun _ => False.elim⟩) (Nat.le_add_left _ _)

/-- **The order lists every class once.** -/
theorem order_perm (inside : ∀ c < count, ∀ a ∈ parents c, a < count) :
    (order parents count).Perm (List.range count) := by
  obtain ⟨hv, -, -, hmet⟩ := order_visiting inside
  refine (List.perm_ext_iff_of_nodup hv.placed_nodup List.nodup_range).mpr (fun c => ?_)
  constructor
  · exact fun hp => List.mem_range.mpr (hv.met_lt c ((hv.met_iff c).mpr (Or.inl hp)))
  · exact fun hc => ((hv.met_iff c).mp (hmet c hc)).elim id False.elim

/-- **A class stands behind its parents**, unless it lies on a cycle. -/
theorem order_behind_parents (inside : ∀ c < count, ∀ a ∈ parents c, a < count)
    {before behind : List ClassId} (h : order parents count = before ++ c :: behind)
    {a : ClassId} (ha : a ∈ parents c) :
    a ∈ before ∨ Relation.TransGen (Edge parents) c c :=
  (order_visiting inside).1.behind_parents h a ha

/-! ## One more class -/

/-- Visiting a class that was met changes nothing. -/
theorem visit_of_mem (n : Nat) (hmet : c ∈ v.met) : visit parents n v c = v := by
  cases n with
  | zero => rfl
  | succ n =>
    unfold visit
    exact if_pos (List.contains_iff_mem.mpr hmet)

theorem foldl_visit_of_mem {cs : List ClassId} (n : Nat) (hmet : ∀ c ∈ cs, c ∈ v.met) :
    cs.foldl (visit parents n) v = v := by
  induction cs with
  | nil => rfl
  | cons c rest ih =>
    rw [List.foldl_cons, visit_of_mem n (hmet c List.mem_cons_self)]
    exact ih fun d hd => hmet d (List.mem_cons_of_mem c hd)

/-- **Induction along visits to some classes in a row.** -/
theorem foldl_visit_induction {n : Nat} {P : Visit → List ClassId → Prop}
    (inside : ∀ c < count, ∀ a ∈ parents c, a < count) (nil : ∀ v, P v [])
    (cons : ∀ v c rest, Visiting parents count opened v → c < count →
      (∀ s, opened s → Relation.TransGen (Edge parents) s c) → count ≤ v.met.length + n →
      P (visit parents n v c) rest → P v (c :: rest))
    (cs : List ClassId) (h : Visiting parents count opened v)
    (hcs : ∀ c ∈ cs, c < count ∧ ∀ s, opened s → Relation.TransGen (Edge parents) s c)
    (fuel : count ≤ v.met.length + n) : P v cs := by
  induction cs generalizing v with
  | nil => exact nil v
  | cons c rest ih =>
    obtain ⟨hc, hopen⟩ := hcs c List.mem_cons_self
    obtain ⟨hv, -, hlen, -⟩ := visit_arrives inside n h hc hopen fuel
    exact cons v c rest h hc hopen fuel (ih hv (fun d hd => hcs d (List.mem_cons_of_mem c hd))
      (Nat.le_trans fuel (Nat.add_le_add_right hlen n)))

/-- What does the same as a visit at each class does the same as a visit to all of them. -/
theorem foldl_visit_congr {f : Visit → ClassId → Visit} {n : Nat}
    (inside : ∀ c < count, ∀ a ∈ parents c, a < count)
    (one : ∀ v c, Visiting parents count opened v → c < count →
      (∀ s, opened s → Relation.TransGen (Edge parents) s c) → count ≤ v.met.length + n →
      f v c = visit parents n v c)
    (cs : List ClassId) (h : Visiting parents count opened v)
    (hcs : ∀ c ∈ cs, c < count ∧ ∀ s, opened s → Relation.TransGen (Edge parents) s c)
    (fuel : count ≤ v.met.length + n) : cs.foldl f v = cs.foldl (visit parents n) v := by
  refine foldl_visit_induction (P := fun v cs => cs.foldl f v = cs.foldl (visit parents n) v)
    inside (fun _ => rfl) (fun v c rest hv hc hopen fuel hrest => ?_) cs h hcs fuel
  rw [List.foldl_cons, List.foldl_cons, one v c hv hc hopen fuel, hrest]

variable {parents' : ClassId → List ClassId}

/-- **A visit that may go one level deeper** goes no deeper, and only the parents of the classes
that there are to visit matter to it. -/
theorem visit_succ (same : ∀ c < count, parents' c = parents c)
    (inside : ∀ c < count, ∀ a ∈ parents c, a < count) (n : Nat)
    (h : Visiting parents count opened v) (hc : c < count)
    (hopen : ∀ s, opened s → Relation.TransGen (Edge parents) s c)
    (fuel : count ≤ v.met.length + n) :
    visit parents' (n + 1) v c = visit parents n v c := by
  induction n generalizing v c opened with
  | zero =>
    have hmet := h.mem_met_of_full hc fuel
    rw [visit_of_mem _ hmet, visit_of_mem _ hmet]
  | succ n ih =>
    by_cases hmet : c ∈ v.met
    · rw [visit_of_mem _ hmet, visit_of_mem _ hmet]
    · have hfuel : count ≤ (c :: v.met).length + n := by
        rw [List.length_cons]
        omega
      have hfold := foldl_visit_congr inside (fun v d => ih) (parents c) (h.meet hc hmet)
        (fun a ha => ⟨inside c hc a ha, leads_to_parent hopen ha⟩) hfuel
      rw [visit, visit, if_neg fun hm => hmet (List.contains_iff_mem.mp hm),
        if_neg fun hm => hmet (List.contains_iff_mem.mp hm), same c hc, hfold]

/-- **A class behind all others is placed behind all others**, if its parents are among them. -/
theorem order_succ (same : ∀ c < count, parents' c = parents c)
    (inside : ∀ c < count, ∀ a ∈ parents c, a < count)
    (last : ∀ a ∈ parents' count, a < count) :
    order parents' (count + 1) = order parents count ++ [count] := by
  have hfold : (List.range count).foldl (visit parents' (count + 1)) {}
      = (List.range count).foldl (visit parents count) {} :=
    foldl_visit_congr inside (fun v d hv hd hopen => visit_succ same inside count hv hd hopen) _
      visiting_start (fun _ hc => ⟨List.mem_range.mp hc, fun _ => False.elim⟩)
      (Nat.le_add_left _ _)
  obtain ⟨hv, -, -, hmet⟩ := order_visiting inside
  unfold order
  rw [List.range_succ, List.foldl_append, hfold]
  generalize (List.range count).foldl (visit parents count) {} = v at *
  have hnew : count ∉ v.met := fun hmem => Nat.lt_irrefl _ (hv.met_lt count hmem)
  have hparents : ∀ a ∈ parents' count, a ∈ count :: v.met :=
    fun a ha => List.mem_cons_of_mem _ (hmet a (List.mem_range.mpr (last a ha)))
  rw [List.foldl_cons, List.foldl_nil, visit,
    if_neg fun hm => hnew (List.contains_iff_mem.mp hm)]
  dsimp only
  rw [foldl_visit_of_mem count hparents]

end ParentsFirst

end Heritage
