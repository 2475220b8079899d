import Heritage.Inheritance.Linearize
import Heritage.Proofs.Ancestry
import Heritage.Proofs.ParentsFirst

/-!
# Linearizations satisfy their equation

Classes are linearized one after the other, each from what its parents have at
that time. Since parents come first and no linearization is changed once it is
there, each class ends up with the merge of what its parents end up with. For
classes without a cycle above them this equation determines the linearization.
-/

namespace Heritage

namespace SymbolTable

variable {t u : SymbolTable}

/-- The ancestry of a class is not known. -/
def Broken (t : SymbolTable) (c : ClassId) : Prop :=
  (t.classAt c).state.isBroken = true

theorem modifyClass_classAt_self {c : ClassId} (hc : c < t.classes.length)
    (f : ClassSymbol → ClassSymbol) : (t.modifyClass c f).classAt c = f (t.classAt c) := by
  unfold modifyClass classAt
  rw [List.getD_eq_getElem?_getD, List.getElem?_modify, List.getD_eq_getElem?_getD,
    List.getElem?_eq_getElem hc]
  simp

theorem modifyClass_classAt_ne {c d : ClassId} (h : d ≠ c) (f : ClassSymbol → ClassSymbol) :
    (t.modifyClass c f).classAt d = t.classAt d := by
  unfold modifyClass classAt
  rw [List.getD_eq_getElem?_getD, List.getElem?_modify, List.getD_eq_getElem?_getD]
  simp only [if_neg h.symm, Option.map_eq_map, Option.map_id']

theorem modifyClass_length (t : SymbolTable) (c : ClassId) (f : ClassSymbol → ClassSymbol) :
    (t.modifyClass c f).classes.length = t.classes.length :=
  List.length_modify _ _ _

/-! ## One class -/

/-- A class as it is once it is linearized, in a table that has the
linearizations of its parents. -/
def linearized (t u : SymbolTable) (c : ClassId) : ClassSymbol :=
  if (t.classAt c).state.isBroken then { t.classAt c with linearization := [c] }
  else
    { t.classAt c with
      linearization := (c :: (t.classAt c).resolvedParents.flatMap u.linearization).eraseDups
      state := .resolved }

theorem linearized_of_broken {c : ClassId} (h : t.Broken c) :
    t.linearized u c = { t.classAt c with linearization := [c] } :=
  if_pos h

theorem linearized_of_not_broken {c : ClassId} (h : ¬ t.Broken c) :
    t.linearized u c
      = { t.classAt c with
          linearization := (c :: (t.classAt c).resolvedParents.flatMap u.linearization).eraseDups
          state := .resolved } :=
  if_neg h

/-- Linearizing a class that is not linearized yet. -/
theorem linearizeClass_eq {c : ClassId} (h : u.linearization c = []) :
    u.linearizeClass c = u.modifyClass c fun _ => u.linearized u c := by
  have hmodify : ∀ f : ClassSymbol → ClassSymbol, u.modifyClass c f
      = u.modifyClass c fun _ => f (u.classAt c) := by
    intro f
    unfold modifyClass classAt
    congr 1
    refine List.ext_getElem? (fun d => ?_)
    rw [List.getElem?_modify, List.getElem?_modify]
    by_cases hd : c = d
    · subst hd
      rw [List.getD_eq_getElem?_getD]
      cases u.classes[c]? with
      | none => rfl
      | some k => simp
    · simp [hd]
  unfold linearizeClass linearized linearizationFromParents
  rw [h]
  split
  · rename_i hne
    cases hne
  · split
    · exact hmodify _
    · exact hmodify _

/-- **The state of linearizing a table**: the classes that are done have their
linearizations, with those of their parents; the others are as they were. -/
structure Linearizing (t u : SymbolTable) (done : List ClassId) : Prop where
  /-- No class is added. -/
  length_eq : u.classes.length = t.classes.length
  /-- What is done is finished. -/
  finished : ∀ c ∈ done, u.classAt c = t.linearized u c
  /-- The parents of what is done are done. -/
  parents_done : ∀ c ∈ done, ¬ t.Broken c → ∀ a, t.Parent c a → a ∈ done
  /-- What is not done is untouched. -/
  untouched : ∀ c, c ∉ done → u.classAt c = t.classAt c

theorem linearizing_start (t : SymbolTable) : Linearizing t t [] where
  length_eq := rfl
  finished _ hc := (List.not_mem_nil hc).elim
  parents_done _ hc := (List.not_mem_nil hc).elim
  untouched _ _ := rfl

/-- What is finished does not depend on classes that are not done. -/
theorem linearized_congr {u' : SymbolTable} {done : List ClassId} {d : ClassId}
    (hparents : ¬ t.Broken d → ∀ a, t.Parent d a → a ∈ done)
    (h : ∀ a ∈ done, u'.classAt a = u.classAt a) : t.linearized u' d = t.linearized u d := by
  unfold linearized
  split
  · rfl
  · rename_i hbroken
    have hflat : (t.classAt d).resolvedParents.flatMap u'.linearization
        = (t.classAt d).resolvedParents.flatMap u.linearization :=
      List.flatMap_congr (fun a ha =>
        congrArg ClassSymbol.linearization (h a (hparents hbroken a ha)))
    rw [hflat]

/-- Linearizing a class that is not done yet, and whose parents are. -/
theorem Linearizing.linearizeClass {done : List ClassId} {c : ClassId}
    (h : Linearizing t u done) (hc : c < t.classes.length) (hnew : c ∉ done)
    (hempty : t.linearization c = [])
    (hparents : ¬ t.Broken c → ∀ a, t.Parent c a → a ∈ done) :
    Linearizing t (u.linearizeClass c) (done ++ [c]) := by
  have hat := h.untouched c hnew
  have hlen : c < u.classes.length := h.length_eq.symm ▸ hc
  have hlin : u.linearization c = [] := by
    unfold linearization at hempty ⊢
    rw [hat, hempty]
  rw [linearizeClass_eq hlin]
  have hother : ∀ a ∈ done, (u.modifyClass c fun _ => u.linearized u c).classAt a = u.classAt a :=
    fun a ha => modifyClass_classAt_ne (ne_of_mem_of_not_mem ha hnew) _
  have hpd : ∀ d ∈ done ++ [c], ¬ t.Broken d → ∀ a, t.Parent d a → a ∈ done := by
    intro d hd hb a ha
    rcases List.mem_append.mp hd with hd | hd
    · exact h.parents_done d hd hb a ha
    · obtain rfl := List.mem_singleton.mp hd
      exact hparents hb a ha
  refine ⟨(modifyClass_length _ _ _).trans h.length_eq, fun d hd => ?_,
    fun d hd hb a ha => List.mem_append_left _ (hpd d hd hb a ha), fun d hd => ?_⟩
  · rw [linearized_congr (hpd d hd) hother]
    rcases List.mem_append.mp hd with hd | hd
    · rw [hother d hd, h.finished d hd]
    · obtain rfl := List.mem_singleton.mp hd
      rw [modifyClass_classAt_self hlen]
      unfold linearized
      rw [hat]
  · rw [List.mem_append, List.mem_singleton, not_or] at hd
    rw [modifyClass_classAt_ne hd.2, h.untouched d hd.1]

/-! ## All classes -/

/-- A table in which everything is ready to be linearized: nothing is yet, and
no class that is not broken lies on a cycle. -/
structure Linearizable (t : SymbolTable) : Prop where
  /-- The resolved parents are classes. -/
  inside : t.ParentsInside
  /-- Nothing is linearized. -/
  empty : ∀ c, t.linearization c = []
  /-- Cycles are known. -/
  acyclic : ∀ c, ¬ t.Broken c → ¬ t.Ancestor c c

/-- The parents that are looked at before a class. -/
def orderParents (t : SymbolTable) (c : ClassId) : List ClassId :=
  if (t.classAt c).state.isBroken then [] else (t.classAt c).resolvedParents

theorem parent_of_mem_orderParents {c a : ClassId} (h : a ∈ t.orderParents c) :
    t.Parent c a := by
  unfold orderParents at h
  split at h
  · exact (List.not_mem_nil h).elim
  · exact h

theorem not_broken_of_mem_orderParents {c a : ClassId} (h : a ∈ t.orderParents c) :
    ¬ t.Broken c := by
  intro hb
  unfold orderParents at h
  rw [if_pos (show (t.classAt c).state.isBroken = true from hb)] at h
  exact List.not_mem_nil h

theorem mem_orderParents {c a : ClassId} (hb : ¬ t.Broken c) (h : t.Parent c a) :
    a ∈ t.orderParents c := by
  unfold orderParents
  rwa [if_neg (show ¬ (t.classAt c).state.isBroken = true from hb)]

/-- **Every class is resolved once.** -/
theorem ParentsInside.resolutionOrder_perm (h : t.ParentsInside) :
    t.resolutionOrder.Perm t.classIds :=
  ParentsFirst.order_perm
    (fun c _ a (ha : a ∈ t.orderParents c) => h c a (parent_of_mem_orderParents ha))

/-- **A class that is not broken is resolved after its parents**, if no such class lies
on a cycle. -/
theorem ParentsInside.resolutionOrder_behind (h : t.ParentsInside)
    (acyclic : ∀ c, ¬ t.Broken c → ¬ t.Ancestor c c) {before behind : List ClassId}
    {c a : ClassId} (hsplit : t.resolutionOrder = before ++ c :: behind) (hb : ¬ t.Broken c)
    (ha : t.Parent c a) : a ∈ before := by
  rcases ParentsFirst.order_behind_parents
    (fun c _ a (ha : a ∈ t.orderParents c) => h c a (parent_of_mem_orderParents ha)) hsplit
    (mem_orderParents hb ha) with hin | hcycle
  · exact hin
  · exact absurd (Relation.TransGen.mono (fun _ _ => parent_of_mem_orderParents) _ _ hcycle)
      (acyclic c hb)

section Linearizable

variable (h : Linearizable t)
include h

/-- **Every class is linearized**, from the linearizations of its parents. -/
theorem Linearizable.linearize : Linearizing t t.linearize t.resolutionOrder := by
  have hperm := h.inside.resolutionOrder_perm
  unfold SymbolTable.linearize
  -- The classes done so far are the ones the order begins with.
  suffices ∀ (todo done : List ClassId) (u : SymbolTable), t.resolutionOrder = done ++ todo →
      Linearizing t u done → Linearizing t (todo.foldl linearizeClass u) (done ++ todo) from
    this t.resolutionOrder [] t rfl (linearizing_start t)
  intro todo
  induction todo with
  | nil =>
    intro done u _ hu
    rwa [List.append_nil]
  | cons c rest ih =>
    intro done u hsplit hu
    have hmem : c ∈ t.resolutionOrder := hsplit ▸ List.mem_append_right _ List.mem_cons_self
    have hnodup : (done ++ c :: rest).Nodup := by
      rw [← hsplit]
      exact hperm.nodup_iff.mpr List.nodup_range
    have hnew : c ∉ done := fun hd =>
      (List.nodup_append.mp hnodup).2.2 c hd c List.mem_cons_self rfl
    have hc : c < t.classes.length := List.mem_range.mp (hperm.mem_iff.mp hmem)
    have next := hu.linearizeClass hc hnew (h.empty c)
      (fun hb a ha => h.inside.resolutionOrder_behind h.acyclic hsplit hb ha)
    have := ih (done ++ [c]) _ (by rw [hsplit, List.append_assoc]; rfl) next
    rwa [List.append_assoc] at this

/-- **A class of a linearized table.** -/
theorem Linearizable.classAt_eq {c : ClassId} (hc : c < t.classes.length) :
    t.linearize.classAt c = t.linearized t.linearize c :=
  h.linearize.finished c (h.inside.resolutionOrder_perm.mem_iff.mpr (List.mem_range.mpr hc))

/-- **Induction from parents to children**: what holds of a class if it holds of
its parents, or if the class is broken, holds of every class. -/
theorem Linearizable.induction {P : ClassId → Prop}
    (step : ∀ c < t.classes.length, (¬ t.Broken c → ∀ a, t.Parent c a → P a) → P c)
    {c : ClassId} (hc : c < t.classes.length) : P c := by
  have hperm := h.inside.resolutionOrder_perm
  suffices ∀ (todo done : List ClassId), t.resolutionOrder = done ++ todo →
      (∀ d ∈ done, P d) → ∀ d ∈ done ++ todo, P d from
    this t.resolutionOrder [] rfl (fun d hd => (List.not_mem_nil hd).elim) c
      (hperm.mem_iff.mpr (List.mem_range.mpr hc))
  intro todo
  induction todo with
  | nil =>
    intro done _ hdone
    rwa [List.append_nil]
  | cons c rest ih =>
    intro done hsplit hdone
    have hmem : c ∈ t.resolutionOrder := hsplit ▸ List.mem_append_right _ List.mem_cons_self
    have hP : P c := step c (List.mem_range.mp (hperm.mem_iff.mp hmem))
      (fun hb a ha => hdone a (h.inside.resolutionOrder_behind h.acyclic hsplit hb ha))
    have := ih (done ++ [c]) (by rw [hsplit, List.append_assoc]; rfl) (fun d hd => ?_)
    · rwa [List.append_assoc] at this
    · rcases List.mem_append.mp hd with hd | hd
      · exact hdone d hd
      · exact List.mem_singleton.mp hd ▸ hP

end Linearizable

end SymbolTable

end Heritage
