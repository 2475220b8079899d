import Heritage.Inheritance.Ancestry
import Heritage.Proofs.Declared
import Mathlib.Logic.Relation

/-!
# The ancestry is the transitive closure

The ancestors of a class are computed by letting paths pass through one class
after the other. The invariant needs no paths: once a class has been let
through, whoever reaches it reaches what it reaches, and letting another one
through keeps that. When all have been let through, what is reached is closed
under steps to a parent.
-/

namespace Heritage

namespace SymbolTable

/-- **A class is a parent of another**, as far as the parents are resolved. -/
def Parent (t : SymbolTable) (c a : ClassId) : Prop :=
  a ∈ (t.classAt c).resolvedParents

/-- **A class is an ancestor of another**: one or more steps to a parent lead to
it. -/
def Ancestor (t : SymbolTable) : ClassId → ClassId → Prop :=
  Relation.TransGen t.Parent

/-- Every resolved parent is a class of the table. -/
def ParentsInside (t : SymbolTable) : Prop :=
  ∀ c a, t.Parent c a → a < t.classes.length

theorem ParentsInside.ancestor_lt {t : SymbolTable} (h : t.ParentsInside) {c a : ClassId}
    (hca : t.Ancestor c a) : a < t.classes.length := by
  cases hca with
  | single hp => exact h _ _ hp
  | tail _ hp => exact h _ _ hp

/-- A position without a class has no parents. -/
theorem lt_of_parent {t : SymbolTable} {c a : ClassId} (h : t.Parent c a) :
    c < t.classes.length := by
  refine Nat.lt_of_not_le (fun hc => ?_)
  unfold Parent classAt at h
  rw [List.getD_eq_getElem?_getD, List.getElem?_eq_none hc] at h
  exact List.not_mem_nil h

theorem lt_of_ancestor {t : SymbolTable} {c a : ClassId} (h : t.Ancestor c a) :
    c < t.classes.length := by
  obtain ⟨d, hd, -⟩ := Relation.TransGen.head'_iff.mp h
  exact lt_of_parent hd

end SymbolTable

namespace Ancestry

/-! ## The closure -/

/-- What a class reaches, as far as paths may go. -/
def Reaches (rows : List (List ClassId)) (c a : ClassId) : Prop :=
  a ∈ rows.getD c []

theorem passThrough_length (rows : List (List ClassId)) (k : ClassId) :
    (passThrough rows k).length = rows.length :=
  List.length_map _

/-- **Letting paths pass through a class**: a class is reached as before, or by
way of it. -/
theorem reaches_passThrough {rows : List (List ClassId)} {k c a : ClassId} :
    Reaches (passThrough rows k) c a
      ↔ Reaches rows c a ∨ Reaches rows c k ∧ Reaches rows k a := by
  unfold Reaches passThrough
  rw [List.getD_eq_getElem?_getD, List.getElem?_map, rows.getD_eq_getElem?_getD (i := c)]
  cases rows[c]? with
  | none => simp
  | some row =>
    rw [Option.map_some, Option.getD_some, Option.getD_some]
    by_cases hk : k ∈ row
    · rw [if_pos (List.contains_iff_mem.mpr hk), List.mem_append, List.mem_filter]
      by_cases ha : a ∈ row
      · simp [ha]
      · simp [ha, hk]
    · rw [if_neg (fun h => hk (List.contains_iff_mem.mp h))]
      simp [hk]

/-- Whoever reaches one of the first `k` classes reaches what it reaches. -/
def PassesBelow (k : Nat) (rows : List (List ClassId)) : Prop :=
  ∀ j < k, ∀ c a, Reaches rows c j → Reaches rows j a → Reaches rows c a

/-- **Letting the next class through keeps what was let through before.** -/
theorem PassesBelow.passThrough {k : Nat} {rows : List (List ClassId)}
    (h : PassesBelow k rows) : PassesBelow (k + 1) (passThrough rows k) := by
  intro j hj c a hcj hja
  rw [reaches_passThrough] at hcj hja ⊢
  rcases Nat.lt_succ_iff_lt_or_eq.mp hj with hj | rfl
  · rcases hcj with hcj | ⟨hck, hkj⟩
    · rcases hja with hja | ⟨hjk, hka⟩
      · exact Or.inl (h j hj c a hcj hja)
      · exact Or.inr ⟨h j hj c k hcj hjk, hka⟩
    · rcases hja with hja | ⟨hjk, hka⟩
      · exact Or.inr ⟨hck, h j hj k a hkj hja⟩
      · exact Or.inr ⟨hck, hka⟩
  · have hck : Reaches rows c j := hcj.elim id (·.1)
    have hka : Reaches rows j a := hja.elim id (·.2)
    exact Or.inr ⟨hck, hka⟩

/-- The rows once the first `k` classes have been let through. -/
def letThrough (rows : List (List ClassId)) (k : Nat) : List (List ClassId) :=
  (List.range k).foldl Ancestry.passThrough rows

/-- One more class is let through. -/
theorem letThrough_succ (rows : List (List ClassId)) (k : Nat) :
    letThrough rows (k + 1) = Ancestry.passThrough (letThrough rows k) k := by
  unfold letThrough
  rw [List.range_succ, List.foldl_append]
  rfl

theorem letThrough_length (rows : List (List ClassId)) (k : Nat) :
    (letThrough rows k).length = rows.length := by
  induction k with
  | zero => rfl
  | succ k ih => rw [letThrough_succ, passThrough_length, ih]

/-- **Letting classes through one after the other** finds the ways that pass through these classes
only. -/
theorem passesBelow_letThrough (rows : List (List ClassId)) (k : Nat) :
    PassesBelow k (letThrough rows k) := by
  induction k with
  | zero => exact fun j hj => absurd hj (Nat.not_lt_zero j)
  | succ k ih =>
    rw [letThrough_succ]
    exact ih.passThrough

theorem reaches_letThrough_of_reaches {rows : List (List ClassId)} {c a : ClassId}
    (h : Reaches rows c a) (k : Nat) : Reaches (letThrough rows k) c a := by
  induction k with
  | zero => exact h
  | succ k ih =>
    rw [letThrough_succ]
    exact reaches_passThrough.mpr (Or.inl ih)

theorem transGen_of_reaches_letThrough {rows : List (List ClassId)} {k : Nat} {c a : ClassId}
    (h : Reaches (letThrough rows k) c a) : Relation.TransGen (Reaches rows) c a := by
  induction k generalizing c a with
  | zero => exact .single h
  | succ k ih =>
    rw [letThrough_succ] at h
    rcases reaches_passThrough.mp h with h | ⟨hck, hka⟩
    · exact ih h
    · exact (ih hck).trans (ih hka)

/-- **The closure of the rows is their transitive closure**, if they hold
nothing but classes. -/
theorem reaches_closure (rows : List (List ClassId))
    (inside : ∀ c a, Reaches rows c a → a < rows.length) {c a : ClassId} :
    Reaches (closure rows) c a ↔ Relation.TransGen (Reaches rows) c a := by
  have hpass := passesBelow_letThrough rows rows.length
  refine ⟨transGen_of_reaches_letThrough, fun h => ?_⟩
  show Reaches (letThrough rows rows.length) c a
  induction h using Relation.TransGen.head_induction_on with
  | single hca => exact reaches_letThrough_of_reaches hca _
  | head hcd _ ih =>
    exact hpass _ (inside _ _ hcd) _ _ (reaches_letThrough_of_reaches hcd _) ih

theorem mem_ancestors_ofParents {parents : List (List ClassId)} {c a : ClassId} :
    a ∈ (ofParents parents).ancestors c ↔ a < parents.length ∧ Reaches (closure parents) c a := by
  unfold ancestors ofParents Reaches
  rw [List.getD_eq_getElem?_getD, List.getElem?_map, (closure parents).getD_eq_getElem?_getD]
  cases (closure parents)[c]? with
  | none => simp
  | some row =>
    show a ∈ (List.range parents.length).filter (fun a => row.contains a) ↔ _
    rw [List.mem_filter, List.mem_range, List.contains_iff_mem]
    rfl

/-! ## The ancestry of a table -/

variable {t : SymbolTable}

theorem reaches_resolvedParents {c a : ClassId} :
    Reaches (t.classes.map (·.resolvedParents)) c a ↔ t.Parent c a := by
  unfold Reaches SymbolTable.Parent SymbolTable.classAt
  rw [SymbolTable.getD_map_of_default _ t.classes c (a := default)
    (show (default : ClassSymbol).resolvedParents = [] from rfl)]

/-- **The ancestors of a class in the ancestry of a table.** -/
theorem mem_ancestors (h : t.ParentsInside) {c a : ClassId} :
    a ∈ (ofTable t).ancestors c ↔ t.Ancestor c a := by
  have hrel : Reaches (t.classes.map (·.resolvedParents)) = t.Parent :=
    funext fun _ => funext fun _ => propext reaches_resolvedParents
  have hclosure := reaches_closure (t.classes.map (·.resolvedParents)) (c := c) (a := a)
    (fun d b hdb => by
      rw [List.length_map]
      exact h d b (reaches_resolvedParents.mp hdb))
  rw [hrel] at hclosure
  unfold ofTable
  rw [mem_ancestors_ofParents, List.length_map]
  exact ⟨fun hm => hclosure.mp hm.2, fun hm => ⟨h.ancestor_lt hm, hclosure.mpr hm⟩⟩

/-- A class is found cyclic exactly if it is its own ancestor. -/
theorem isCyclic_iff (h : t.ParentsInside) {c : ClassId} :
    (ofTable t).isCyclic c = true ↔ t.Ancestor c c := by
  unfold isCyclic
  rw [List.contains_iff_mem, mem_ancestors h]

/-- A class is found below another one exactly if that one is its ancestor. -/
theorem isSubclassOf_iff (h : t.ParentsInside) {c a : ClassId} :
    (ofTable t).isSubclassOf c a = true ↔ c ≠ a ∧ t.Ancestor c a := by
  unfold isSubclassOf
  rw [Bool.and_eq_true, bne_iff_ne, List.contains_iff_mem, mem_ancestors h]

end Ancestry

end Heritage
