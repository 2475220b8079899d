import Heritage.Inheritance.Resolve
import Heritage.Proofs.InPlace
import Heritage.Proofs.Linearization

/-!
# Marking in place is marking at once

The classes with a broken ancestor are marked one after the other in one table, so
a class may be marked for an ancestor that was whole before the loop began. Nothing
depends on that. Such an ancestor was marked for a broken ancestor of its own, which
is an ancestor of the class as well, and that one was broken all along. So each
class is judged as it would be in the table before the loop, and the loop can be
read as one step (`markTainted`, `taintIssues`), in whatever order the classes come.
-/

namespace Heritage

namespace SymbolTable

variable {t u : SymbolTable} {g : Ancestry}

theorem classAt_of_le {c : ClassId} (h : t.classes.length ≤ c) : t.classAt c = default := by
  unfold classAt
  rw [List.getD_eq_getElem?_getD, List.getElem?_eq_none h]
  rfl

/-- A class of a table whose classes were changed by position. -/
theorem classAt_of_mapIdx {f : ClassId → ClassSymbol → ClassSymbol}
    (h : u.classes = t.classes.mapIdx f) {c : ClassId} (hc : c < t.classes.length) :
    u.classAt c = f c (t.classAt c) := by
  unfold classAt
  rw [h, List.getD_eq_getElem?_getD, List.getElem?_mapIdx, List.getElem?_eq_getElem hc,
    List.getD_eq_getElem?_getD, List.getElem?_eq_getElem hc]
  rfl

theorem not_broken_of_le {c : ClassId} (h : t.classes.length ≤ c) : ¬ t.Broken c := by
  unfold Broken
  rw [classAt_of_le h]
  exact Bool.false_ne_true

theorem lt_of_broken {c : ClassId} (h : t.Broken c) : c < t.classes.length :=
  Nat.lt_of_not_le (fun hc => not_broken_of_le hc h)

/-! ## All at once -/

/-- Mark the classes that have a broken ancestor in the table as it is. -/
def markTainted (t : SymbolTable) (g : Ancestry) : SymbolTable :=
  { t with
    classes := t.classes.mapIdx fun c s =>
      if t.isTainted g c then { s with state := .unresolved } else s }

/-- The issue of a class with a broken ancestor. -/
def taintIssue (t : SymbolTable) (c : ClassId) : Issue :=
  .unresolved (t.classAt c).name (t.classAt c).span

/-- The classes that have a broken ancestor in the table as it is, as issues. -/
def taintIssues (t : SymbolTable) (g : Ancestry) : List Issue :=
  (t.classIds.filter (t.isTainted g)).map t.taintIssue

theorem isTainted_iff {c : ClassId} :
    t.isTainted g c = true ↔ ¬ t.Broken c ∧ ∃ a ∈ g.ancestors c, t.Broken a := by
  unfold isTainted Broken
  rw [Bool.and_eq_true, Bool.not_eq_true', List.any_eq_true, Bool.not_eq_true]

/-! ## One after the other -/

/-- Mark a class if it is tainted in a table. -/
def markedIn (t : SymbolTable) (g : Ancestry) (c : ClassId) (s : ClassSymbol) : ClassSymbol :=
  if t.isTainted g c then { s with state := .unresolved } else s

/-- **The table when the first `k` classes have been treated**, each as it would have
been at the beginning. -/
def markBelow (t : SymbolTable) (g : Ancestry) (k : Nat) : SymbolTable :=
  { t with classes := mapBelow (t.markedIn g) k t.classes }

theorem markBelow_length (t : SymbolTable) (g : Ancestry) (k : Nat) :
    (t.markBelow g k).classes.length = t.classes.length :=
  length_mapBelow

theorem markBelow_classAt {c : ClassId} (hc : c < t.classes.length) (k : Nat) :
    (t.markBelow g k).classAt c = if c < k then t.markedIn g c (t.classAt c) else t.classAt c :=
  classAt_of_mapIdx (t := t) (f := fun c s => if c < k then t.markedIn g c s else s) rfl hc

theorem markBelow_all (t : SymbolTable) (g : Ancestry) :
    t.markBelow g t.classes.length = t.markTainted g :=
  congrArg (fun cs => ({ t with classes := cs } : SymbolTable)) (mapBelow_all _ _)

/-- **Who is broken on the way** was broken at the beginning or tainted then. -/
theorem broken_or_isTainted_of_markBelow {k : Nat} {c : ClassId} (h : (t.markBelow g k).Broken c) :
    t.Broken c ∨ t.isTainted g c = true := by
  have hc : c < t.classes.length := markBelow_length t g k ▸ lt_of_broken h
  unfold Broken at h
  rw [markBelow_classAt hc] at h
  cases htainted : t.isTainted g c with
  | true => exact Or.inr rfl
  | false =>
    unfold markedIn at h
    rw [htainted, if_neg Bool.false_ne_true, ite_self] at h
    exact Or.inl h

/-- Who was broken at the beginning stays so. -/
theorem Broken.markBelow {c : ClassId} (h : t.Broken c) (k : Nat) : (t.markBelow g k).Broken c := by
  unfold Broken
  rw [markBelow_classAt (lt_of_broken h)]
  unfold markedIn
  split_ifs
  · rfl
  · exact h
  · exact h

/-- **A class that was not treated yet is judged as at the beginning.** -/
theorem isTainted_markBelow
    (trans : ∀ c a b, a ∈ g.ancestors c → b ∈ g.ancestors a → b ∈ g.ancestors c) {k : Nat}
    {c : ClassId} (hk : k ≤ c) (hc : c < t.classes.length) :
    (t.markBelow g k).isTainted g c = t.isTainted g c := by
  have hself : (t.markBelow g k).Broken c ↔ t.Broken c := by
    unfold Broken
    rw [markBelow_classAt hc, if_neg (Nat.not_lt.mpr hk)]
  rw [Bool.eq_iff_iff, isTainted_iff, isTainted_iff, hself]
  refine and_congr_right fun _ => ⟨?_, ?_⟩
  · rintro ⟨a, ha, hbroken⟩
    rcases broken_or_isTainted_of_markBelow hbroken with hbroken | htainted
    · exact ⟨a, ha, hbroken⟩
    · -- The ancestor was marked on the way, for one of its own ancestors.
      obtain ⟨-, b, hb, hbroken⟩ := isTainted_iff.mp htainted
      exact ⟨b, trans c a b ha hb, hbroken⟩
  · rintro ⟨a, ha, hbroken⟩
    exact ⟨a, ha, hbroken.markBelow k⟩

/-- **One class**, whatever the table: it is put back, marked or not. -/
theorem markIfTainted_eq (t : SymbolTable) (g : Ancestry) (found : List Issue) (c : ClassId) :
    markIfTainted g (t, found) c
      = ({ t with classes := t.classes.set c (t.markedIn g c (t.classAt c)) },
        found ++ ([c].filter (t.isTainted g)).map t.taintIssue) := by
  unfold markIfTainted markedIn
  rw [List.filter_singleton]
  cases t.isTainted g c with
  | true =>
    rw [if_pos rfl, if_pos rfl, modifyClass_eq_set]
    rfl
  | false =>
    rw [if_neg Bool.false_ne_true, if_neg Bool.false_ne_true, set_classAt]
    exact Prod.ext rfl (List.append_nil found).symm

/-- **One class after those before it** is treated as at the beginning. -/
theorem markIfTainted_markBelow
    (trans : ∀ c a b, a ∈ g.ancestors c → b ∈ g.ancestors a → b ∈ g.ancestors c) {k : Nat}
    (hk : k < t.classes.length) (found : List Issue) :
    markIfTainted g (t.markBelow g k, found) k
      = (t.markBelow g (k + 1), found ++ ([k].filter (t.isTainted g)).map t.taintIssue) := by
  have hclass : (t.markBelow g k).classAt k = t.classAt k := getD_mapBelow default
  have htainted := isTainted_markBelow trans (Nat.le_refl k) hk
  have hmarked : (t.markBelow g k).markedIn g k = t.markedIn g k := by
    unfold markedIn
    rw [htainted]
  have hissue : (t.markBelow g k).taintIssue k = t.taintIssue k := by
    unfold taintIssue
    rw [hclass]
  rw [markIfTainted_eq, hmarked, hclass, List.filter_singleton, List.filter_singleton, htainted]
  refine Prod.ext ?_ ?_
  · exact congrArg (fun cs => ({ t with classes := cs } : SymbolTable))
      (set_mapBelow (getElem?_eq_getD hk default))
  · cases t.isTainted g k with
    | true => exact congrArg (fun i => found ++ [i]) hissue
    | false => rfl

/-- **The first classes**, one after the other. -/
theorem foldl_markIfTainted
    (trans : ∀ c a b, a ∈ g.ancestors c → b ∈ g.ancestors a → b ∈ g.ancestors c) {k : Nat}
    (hk : k ≤ t.classes.length) :
    (List.range k).foldl (markIfTainted g) (t, [])
      = (t.markBelow g k, ((List.range k).filter (t.isTainted g)).map t.taintIssue) := by
  induction k with
  | zero =>
    exact Prod.ext (congrArg (fun cs => ({ t with classes := cs } : SymbolTable))
      (mapBelow_zero _ _).symm) rfl
  | succ k ih =>
    rw [List.range_succ, List.foldl_append, ih (Nat.le_of_succ_le hk), List.filter_append,
      List.map_append]
    exact markIfTainted_markBelow trans hk _

/-- **Marking in place is marking at once**, where an ancestor of an ancestor is an
ancestor. -/
theorem markUnresolved_eq
    (trans : ∀ c a b, a ∈ g.ancestors c → b ∈ g.ancestors a → b ∈ g.ancestors c) :
    t.markUnresolved g = (t.markTainted g, t.taintIssues g) := by
  rw [← markBelow_all]
  exact foldl_markIfTainted trans (Nat.le_refl _)

end SymbolTable

/-- An ancestor of an ancestor is an ancestor. -/
theorem Ancestry.mem_ancestors_trans {t : SymbolTable} (h : t.ParentsInside) (c a b : ClassId)
    (hca : a ∈ (ofTable t).ancestors c) (hab : b ∈ (ofTable t).ancestors a) :
    b ∈ (ofTable t).ancestors c :=
  (mem_ancestors h).mpr (((mem_ancestors h).mp hca).trans ((mem_ancestors h).mp hab))

end Heritage
