import Heritage.Symbols.Table
import Mathlib.Data.List.Basic
import Mathlib.Data.List.GetD

/-!
# Positions under the operations of a table

A symbol table is read through the positions of what passes a test. What
becomes of them when a list is extended, mapped or searched is said here once;
the views of a table inherit it.
-/

namespace Heritage

variable {α β : Type}

/-- **The positions are the indices that the library finds.** -/
theorem positions_eq_findIdxs (p : α → Bool) (xs : List α) : positions p xs = xs.findIdxs p := by
  rw [List.findIdxs_eq_filterMap_zipIdx]
  refine List.filterMap_congr fun x _ => ?_
  cases p x.1 <;> rfl


/-- **A position is listed exactly if the element there passes.** -/
theorem mem_positions {p : α → Bool} {k : Nat} {xs : List α} :
    k ∈ positions p xs ↔ ∃ a, xs[k]? = some a ∧ p a = true := by
  rw [positions_eq_findIdxs, List.mem_findIdxs_iff_exists_getElem_pos]
  constructor
  · rintro ⟨hk, hp⟩
    exact ⟨xs[k], List.getElem?_eq_getElem hk, hp⟩
  · rintro ⟨a, ha, hp⟩
    obtain ⟨hk, rfl⟩ := List.getElem?_eq_some_iff.mp ha
    exact ⟨hk, hp⟩

/-- **The positions in two lists in a row**: those in the first, then those in
the second behind it. -/
theorem positions_append (p : α → Bool) (xs ys : List α) :
    positions p (xs ++ ys) = positions p xs ++ (positions p ys).map (xs.length + ·) := by
  have hshift : ys.findIdxs p xs.length = (ys.findIdxs p).map (xs.length + ·) := by
    rw [List.findIdxs_start]
    exact List.map_congr_left fun k _ => Nat.add_comm k xs.length
  rw [positions_eq_findIdxs, positions_eq_findIdxs, positions_eq_findIdxs, List.findIdxs_append,
    Nat.zero_add, hshift]

/-- **Adding an element at the end keeps the positions before it.** -/
theorem positions_concat (p : α → Bool) (xs : List α) (a : α) :
    positions p (xs ++ [a]) = positions p xs ++ if p a then [xs.length] else [] := by
  rw [positions_eq_findIdxs, positions_eq_findIdxs, List.findIdxs_append, Nat.zero_add,
    List.findIdxs_singleton]

theorem positions_map (p : β → Bool) (f : α → β) (xs : List α) :
    positions p (xs.map f) = positions (fun a => p (f a)) xs := by
  rw [positions_eq_findIdxs, positions_eq_findIdxs, List.findIdxs_map]
  rfl

theorem positions_congr {p q : α → Bool} {xs : List α} (h : ∀ a ∈ xs, p a = q a) :
    positions p xs = positions q xs := by
  refine List.filterMap_congr fun x hx => ?_
  rw [h x.1 (List.fst_mem_of_mem_zipIdx hx)]

theorem positions_eq_nil {p : α → Bool} {xs : List α} (h : ∀ a ∈ xs, p a = false) :
    positions p xs = [] := by
  rw [positions_eq_findIdxs]
  exact List.findIdxs_eq_nil_iff.mpr h

/-- The same, for a test of the element read by position. -/
theorem mem_positions_getD {p : α → Bool} {k : Nat} {xs : List α} (d : α) :
    k ∈ positions p xs ↔ k < xs.length ∧ p (xs.getD k d) = true := by
  rw [positions_eq_findIdxs, List.mem_findIdxs_iff_exists_getElem_pos, ← exists_prop]
  exact exists_congr fun hk => by rw [List.getD_eq_getElem _ _ hk]

theorem lt_of_mem_positions {p : α → Bool} {xs : List α} {k : Nat}
    (h : k ∈ positions p xs) : k < xs.length := by
  obtain ⟨a, ha, -⟩ := mem_positions.mp h
  exact (List.getElem?_eq_some_iff.mp ha).1

/-- Positions are listed in ascending order. -/
theorem positions_pairwise (p : α → Bool) (xs : List α) : (positions p xs).Pairwise (· < ·) := by
  rw [positions_eq_findIdxs]
  exact List.pairwise_findIdxs

/-- **Searching a list is taking the first position.** -/
theorem findIdx?_eq_head? (p : α → Bool) (xs : List α) :
    xs.findIdx? p = (positions p xs).head? := by
  rw [positions_eq_findIdxs]
  induction xs with
  | nil => rfl
  | cons a rest ih =>
    rw [List.findIdx?_cons, List.findIdxs_cons, ih, ← List.head?_map,
      ← List.findIdxs_start (s := 1)]
    split
    · rfl
    · rfl

/-- A position of a list and the element there. -/
theorem getD_of_mem_zipIdx {xs : List α} {x : α × Nat} (h : x ∈ xs.zipIdx) (d : α) :
    xs.getD x.2 d = x.1 := by
  rw [List.getD_eq_getElem?_getD, List.mem_zipIdx_iff_getElem?.mp h]
  rfl

/-- **Testing twice is testing, then filtering the positions.** -/
theorem positions_and (p q : α → Bool) (d : α) (xs : List α) :
    positions (fun a => p a && q a) xs
      = (positions p xs).filter (fun k => q (xs.getD k d)) := by
  unfold positions
  rw [List.filter_filterMap]
  refine List.filterMap_congr fun x hx => ?_
  show (if (p x.1 && q x.1) = true then some x.2 else none) = _
  cases p x.1 with
  | false => rfl
  | true => rw [if_pos rfl, Option.filter_some, getD_of_mem_zipIdx hx, Bool.true_and]

/-- **The elements at the positions** are those that pass. -/
theorem map_positions (p : α → Bool) (d : α) (xs : List α) :
    (positions p xs).map (xs.getD · d) = xs.filter p := by
  rw [positions_eq_findIdxs]
  refine List.ext_getElem ?_ fun i _ hi => ?_
  · rw [List.length_map, List.length_findIdxs, List.countP_eq_length_filter]
  · rw [List.getElem_map, List.getElem_filter_eq_getElem_getElem_findIdxs hi]
    exact List.getD_eq_getElem _ _ _

/-! ## The views of a table -/

namespace SymbolTable

variable {t : SymbolTable}

theorem mem_methodsOf {m : MethodId} {c : ClassId} :
    m ∈ t.methodsOf c ↔ m < t.methods.length ∧ (t.methodAt m).owner = c :=
  (mem_positions_getD default).trans (and_congr_right fun _ => beq_iff_eq)

theorem mem_varsIn {v : VarId} {s : ScopeId} :
    v ∈ t.varsIn s ↔ v < t.vars.length ∧ (t.varAt v).scope = s :=
  (mem_positions_getD default).trans (and_congr_right fun _ => beq_iff_eq)

theorem mem_fieldsOf {v : VarId} {c : ClassId} :
    v ∈ t.fieldsOf c ↔ v < t.vars.length
      ∧ (t.varAt v).scope = (t.classAt c).scope ∧ (t.varAt v).kind = .field :=
  (mem_positions_getD default).trans <| and_congr_right fun _ =>
    Bool.and_eq_true_iff.trans (and_congr beq_iff_eq beq_iff_eq)

theorem mem_paramsOf {v : VarId} {m : MethodId} :
    v ∈ t.paramsOf m ↔ v < t.vars.length
      ∧ (t.varAt v).scope = (t.methodAt m).scope ∧ (t.varAt v).kind.isParam = true :=
  (mem_positions_getD default).trans <| and_congr_right fun _ =>
    Bool.and_eq_true_iff.trans (and_congr_left' beq_iff_eq)

theorem mem_childrenOf {s around : ScopeId} :
    s ∈ t.childrenOf around ↔ s < t.scopes.length ∧ (t.scopeAt s).parent = some around :=
  (mem_positions_getD default).trans (and_congr_right fun _ => beq_iff_eq)

end SymbolTable

end Heritage
