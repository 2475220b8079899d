import Heritage.Proofs.Owners
import Heritage.Proofs.Representation
import Mathlib.Order.Defs.Unbundled

/-!
# What can be stored where

A value can be stored where its own type is expected, and an object also where
one of an ancestor of its class is. The table looks for the ancestor in the
linearization of the class, which is a list that was stored when the class was
resolved; a class whose ancestry is broken has only itself in it. So the list
decides what derives from what exactly for the classes that are not broken, and
since all ancestors of such a class are not broken either and none of them is
below it, to be storable is a partial order.
-/

namespace Heritage

namespace SymbolTable

variable {t : SymbolTable}

section Finished

variable (h : t.Fresh)
include h

/-- The classes in the linearization of a class, be it broken or not. -/
theorem Fresh.mem_linearization_iff {c a : ClassId} (hc : c < t.classes.length) :
    a ∈ t.resolve.table.linearization c ↔ t.resolve.table.AtOrAbove c a := by
  unfold AtOrAbove
  by_cases hb : t.resolve.table.Broken c
  · rw [h.linearization_of_broken hb, List.mem_singleton]
    simp [hb]
  · rw [h.mem_linearization hc hb]
    simp [hb]

/-- **Between different types only objects can be stored**, as objects of the
ancestors of their class. -/
theorem Fresh.isCompatible_iff {τ σ : Ty} :
    t.resolve.table.isCompatible τ σ = true
      ↔ τ = σ ∨ ∃ c a, τ = .cls c ∧ σ = .cls a ∧ ¬ t.resolve.table.Broken c
        ∧ t.resolve.table.Ancestor c a := by
  unfold isCompatible
  rw [Bool.or_eq_true, beq_iff_eq]
  match τ, σ with
  | .cls c, .cls a =>
    by_cases hc : c < t.classes.length
    · show _ ∨ (t.resolve.table.linearization c).contains a = true ↔ _
      rw [List.contains_iff_mem, h.mem_linearization_iff hc]
      constructor
      · rintro (heq | rfl | hup)
        · exact Or.inl heq
        · exact Or.inl rfl
        · exact Or.inr ⟨c, a, rfl, rfl, hup⟩
      · rintro (heq | ⟨_, _, hc', ha', hup⟩)
        · exact Or.inl heq
        · obtain rfl := Ty.cls.inj hc'
          obtain rfl := Ty.cls.inj ha'
          exact Or.inr (Or.inr hup)
    · have hnone : ¬ t.resolve.table.Ancestor c a :=
        fun ha => hc (t.resolve_length ▸ lt_of_ancestor ha)
      have hempty : t.resolve.table.linearization c = [] := by
        rw [linearization, classAt_of_le (t.resolve_length ▸ Nat.le_of_not_lt hc)]
        rfl
      simp [hempty, hnone]
  | .int, σ => simp
  | .void, σ => simp
  | .cls c, .int => simp
  | .cls c, .void => simp

theorem Fresh.isCompatible_trans {τ σ ρ : Ty} (hτ : t.resolve.table.isCompatible τ σ = true)
    (hσ : t.resolve.table.isCompatible σ ρ = true) :
    t.resolve.table.isCompatible τ ρ = true := by
  rw [h.isCompatible_iff] at *
  rcases hτ with rfl | ⟨c, a, rfl, rfl, hb, hca⟩
  · exact hσ
  · rcases hσ with rfl | ⟨a', b, ha', rfl, -, hab⟩
    · exact Or.inr ⟨c, a, rfl, rfl, hb, hca⟩
    · obtain rfl := Ty.cls.inj ha'
      exact Or.inr ⟨c, b, rfl, rfl, hb, hca.trans hab⟩

theorem Fresh.isCompatible_antisymm {τ σ : Ty} (hτ : t.resolve.table.isCompatible τ σ = true)
    (hσ : t.resolve.table.isCompatible σ τ = true) : τ = σ := by
  rw [h.isCompatible_iff] at *
  rcases hτ with rfl | ⟨c, a, rfl, rfl, hb, hca⟩
  · rfl
  · rcases hσ with heq | ⟨a', c', ha', hc', -, hac⟩
    · exact heq.symm
    · -- Each is above the other, so both lie on a cycle and the first is broken.
      obtain rfl := Ty.cls.inj ha'
      obtain rfl := Ty.cls.inj hc'
      exact absurd (hca.trans hac) (h.acyclic hb)

/-- **To be storable is a partial order** on types. -/
theorem Fresh.isPartialOrder_isCompatible :
    IsPartialOrder Ty fun τ σ => t.resolve.table.isCompatible τ σ = true where
  refl _ := h.isCompatible_iff.mpr (Or.inl rfl)
  trans _ _ _ := h.isCompatible_trans
  antisymm _ _ := h.isCompatible_antisymm

end Finished

end SymbolTable

open SymbolTable

/-- **What can be stored where follows inheritance.** In the resolved table of a program
it is a partial order on types; an object can be stored as one of a class if this is its own
class or, unless its class is broken, an ancestor of it. So an object of a broken class can
only be stored as what it is, and integers and `void` only as themselves and nothing else as
them. -/
theorem storable_follows_inheritance (p : Program) :
    let t := (collect p).table.resolve.table
    (IsPartialOrder Ty fun τ σ => t.isCompatible τ σ = true)
      ∧ (∀ c a, t.isCompatible (.cls c) (.cls a) = true ↔ c = a ∨ ¬ t.Broken c ∧ t.Ancestor c a)
      ∧ (∀ c τ, t.Broken c → (t.isCompatible (.cls c) τ = true ↔ τ = .cls c))
      ∧ ∀ prim ∈ [Ty.int, Ty.void], ∀ τ, (t.isCompatible prim τ = true ↔ τ = prim)
        ∧ (t.isCompatible τ prim = true ↔ τ = prim) := by
  intro t
  have h := collect_fresh p
  have hiff : ∀ {τ σ}, t.isCompatible τ σ = true
      ↔ τ = σ ∨ ∃ c a, τ = .cls c ∧ σ = .cls a ∧ ¬ t.Broken c ∧ t.Ancestor c a :=
    h.isCompatible_iff
  refine ⟨h.isPartialOrder_isCompatible, fun c a => ?_, fun c τ hb => ?_, ?_⟩
  · rw [hiff]
    simp
  · rw [hiff, eq_comm]
    refine or_iff_left ?_
    rintro ⟨c', a, hc, -, hnot, -⟩
    exact hnot (Ty.cls.inj hc ▸ hb)
  · simp [hiff, eq_comm]

end Heritage
