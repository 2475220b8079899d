import Heritage.Proofs.Ancestry
import Heritage.Proofs.Recursion
import Mathlib.Data.List.Lex
import Mathlib.Data.List.Sort

/-!
# Ancestors, cycles and components

The ancestry of a table answers three questions about one relation, that of
being reached by one or more steps to a parent: which classes are ancestors of a
class, whether a class derives from another, and which classes lie on cycles
together. Two classes lie on a cycle together if each is an ancestor of the
other, and since this makes the ancestors of one those of the other, the groups
do not overlap.

The same questions can be put to three searches of the graph of parents, each
for one of them: a walk through everything that a class leads to, a test whether
one class leads to another, and a division of all classes into strongly
connected components. A search counts a class as reached from itself without a
step, so each answer treats the class that it starts from by a rule of its own.
Whatever the searches are and in whichever order they list what they find
(`Search`), by these rules they answer as the ancestry does.
-/

namespace Heritage

open SymbolTable

namespace Ancestry

variable {t : SymbolTable}

/-! ## Groups -/

theorem pairwise_ancestors (t : SymbolTable) (c : ClassId) :
    ((ofTable t).ancestors c).Pairwise (· < ·) := by
  unfold ancestors ofTable ofParents
  rw [List.getD_eq_getElem?_getD, List.getElem?_map]
  cases (closure (t.classes.map (·.resolvedParents)))[c]? with
  | none => exact List.Pairwise.nil
  | some row => exact List.pairwise_lt_range.filter _

theorem classCount_ofTable (t : SymbolTable) : (ofTable t).classCount = t.classes.length := by
  unfold classCount ofTable ofParents
  rw [List.length_map]
  exact (letThrough_length _ _).trans (List.length_map _)

theorem pairwise_cycleOf (g : Ancestry) (c : ClassId) : (g.cycleOf c).Pairwise (· < ·) :=
  List.pairwise_lt_range.filter _

/-- A group starts with its own first member. -/
def leads (g : Ancestry) (c : ClassId) : Bool :=
  (g.cycleOf c).head? == some c

section Inside

variable (h : t.ParentsInside)
include h

/-- **The classes on a common cycle with a class** are those that each of the
two is an ancestor of the other. -/
theorem mem_cycleOf {c d : ClassId} :
    d ∈ (ofTable t).cycleOf c ↔ t.Ancestor c d ∧ t.Ancestor d c := by
  unfold cycleOf areEntangled
  rw [List.mem_filter, List.mem_range, classCount_ofTable, Bool.and_eq_true,
    List.contains_iff_mem, List.contains_iff_mem, mem_ancestors h, mem_ancestors h]
  exact and_iff_right_of_imp fun hd => h.ancestor_lt hd.1

/-- Classes on a cycle together are on a cycle with the same classes. -/
theorem cycleOf_eq_of_mem {c d : ClassId} (hd : d ∈ (ofTable t).cycleOf c) :
    (ofTable t).cycleOf d = (ofTable t).cycleOf c := by
  obtain ⟨hcd, hdc⟩ := (mem_cycleOf h).mp hd
  refine (pairwise_cycleOf _ d).eq_of_mem_iff (pairwise_cycleOf _ c) fun a => ?_
  rw [mem_cycleOf h, mem_cycleOf h]
  exact ⟨fun ha => ⟨hcd.trans ha.1, ha.2.trans hdc⟩, fun ha => ⟨hdc.trans ha.1, ha.2.trans hcd⟩⟩

/-- A class that lies on a cycle is in a group that starts with its own first
member. -/
theorem exists_leads {c : ClassId} (hc : t.Ancestor c c) :
    ∃ d, (ofTable t).leads d = true ∧ (ofTable t).cycleOf d = (ofTable t).cycleOf c := by
  have hself : c ∈ (ofTable t).cycleOf c := (mem_cycleOf h).mpr ⟨hc, hc⟩
  cases hgroup : (ofTable t).cycleOf c with
  | nil => exact absurd (hgroup ▸ hself) List.not_mem_nil
  | cons d rest =>
    have hd := cycleOf_eq_of_mem h (hgroup ▸ List.mem_cons_self)
    refine ⟨d, ?_, hd.trans hgroup⟩
    unfold leads
    rw [hd, hgroup]
    exact beq_self_eq_true _

/-- **The groups are those of the classes on cycles.** -/
theorem mem_cycles {k : List ClassId} :
    k ∈ (ofTable t).cycles ↔ ∃ c, t.Ancestor c c ∧ k = (ofTable t).cycleOf c := by
  show k ∈ ((List.range _).filter (ofTable t).leads).map (ofTable t).cycleOf ↔ _
  rw [List.mem_map]
  constructor
  · rintro ⟨c, hc, rfl⟩
    have hhead := beq_iff_eq.mp (List.mem_filter.mp hc).2
    exact ⟨c, ((mem_cycleOf h).mp (List.mem_of_mem_head? hhead)).1, rfl⟩
  · rintro ⟨c, hc, rfl⟩
    obtain ⟨d, hleads, hd⟩ := exists_leads h hc
    have hmem : d ∈ (ofTable t).cycleOf d := List.mem_of_mem_head? (beq_iff_eq.mp hleads)
    refine ⟨d, List.mem_filter.mpr ⟨List.mem_range.mpr ?_, hleads⟩, hd⟩
    rw [classCount_ofTable]
    exact lt_of_ancestor ((mem_cycleOf h).mp hmem).1

theorem mem_flatten_cycles {c : ClassId} :
    c ∈ (ofTable t).cycles.flatten ↔ t.Ancestor c c := by
  rw [List.mem_flatten]
  constructor
  · rintro ⟨k, hk, hck⟩
    obtain ⟨d, -, rfl⟩ := (mem_cycles h).mp hk
    obtain ⟨hdc, hcd⟩ := (mem_cycleOf h).mp hck
    exact hcd.trans hdc
  · intro hc
    exact ⟨_, (mem_cycles h).mpr ⟨c, hc, rfl⟩, (mem_cycleOf h).mpr ⟨hc, hc⟩⟩

/-- **Two classes are in one group exactly if each is an ancestor of the
other.** -/
theorem together_in_cycles {c d : ClassId} :
    (∃ k ∈ (ofTable t).cycles, c ∈ k ∧ d ∈ k) ↔ t.Ancestor c d ∧ t.Ancestor d c := by
  constructor
  · rintro ⟨k, hk, hck, hdk⟩
    obtain ⟨a, -, rfl⟩ := (mem_cycles h).mp hk
    rw [← cycleOf_eq_of_mem h hck] at hdk
    exact (mem_cycleOf h).mp hdk
  · rintro ⟨hcd, hdc⟩
    have hc := hcd.trans hdc
    exact ⟨_, (mem_cycles h).mpr ⟨c, hc, rfl⟩, (mem_cycleOf h).mpr ⟨hc, hc⟩,
      (mem_cycleOf h).mpr ⟨hcd, hdc⟩⟩

end Inside

theorem pairwise_of_mem_cycles (g : Ancestry) : ∀ k ∈ g.cycles, k.Pairwise (· < ·) := by
  intro k hk
  obtain ⟨c, -, rfl⟩ := List.mem_map.mp hk
  exact pairwise_cycleOf g c

/-- **The groups go by their first members.** -/
theorem pairwise_head_cycles (g : Ancestry) :
    g.cycles.Pairwise fun k l => ∃ c ∈ k.head?, ∃ d ∈ l.head?, c < d := by
  have hsorted : ((List.range g.classCount).filter g.leads).Pairwise (· < ·) :=
    List.pairwise_lt_range.filter _
  refine List.pairwise_map.mpr (hsorted.imp_of_mem fun {c d} hc hd hlt => ?_)
  exact ⟨c, beq_iff_eq.mp (List.mem_filter.mp hc).2, d, beq_iff_eq.mp (List.mem_filter.mp hd).2,
    hlt⟩

/-- The groups go by the order of lists. -/
theorem pairwise_cycles (g : Ancestry) : g.cycles.Pairwise (· < ·) := by
  refine (pairwise_head_cycles g).imp fun {k l} hkl => ?_
  obtain ⟨c, hc, d, hd, hlt⟩ := hkl
  obtain ⟨ks, rfl⟩ := List.head?_eq_some_iff.mp hc
  obtain ⟨ls, rfl⟩ := List.head?_eq_some_iff.mp hd
  exact List.cons_lt_cons_iff.mpr (Or.inl hlt)

/-- No class is in two groups. -/
theorem nodup_flatten_cycles (h : t.ParentsInside) : (ofTable t).cycles.flatten.Nodup := by
  refine List.nodup_flatten.mpr
    ⟨fun k hk => (pairwise_of_mem_cycles _ k hk).imp fun hlt => Nat.ne_of_lt hlt, ?_⟩
  refine (pairwise_cycles (ofTable t)).imp_of_mem fun {k l} hk hl hlt a hak hal => ?_
  -- A common member makes the two groups the same, and none comes before itself.
  obtain ⟨c, -, rfl⟩ := (mem_cycles h).mp hk
  obtain ⟨d, -, rfl⟩ := (mem_cycles h).mp hl
  rw [← cycleOf_eq_of_mem h hak, ← cycleOf_eq_of_mem h hal] at hlt
  exact lt_irrefl _ hlt

end Ancestry

/-! ## Searching the graph -/

/-- **What searches of the graph of parents find**, each of them counting a class
as reached from itself. -/
structure Search (t : SymbolTable) where
  /-- What is met on a walk from a class. -/
  met : ClassId → List ClassId
  /-- Whether a path leads from one class to another. -/
  leads : ClassId → ClassId → Bool
  /-- The strongly connected components. -/
  components : List (List ClassId)
  /-- A walk meets nothing twice. -/
  met_nodup : ∀ c < t.classes.length, (met c).Nodup
  /-- A walk meets what can be reached. -/
  mem_met : ∀ c < t.classes.length, ∀ a, a ∈ met c ↔ Relation.ReflTransGen t.Parent c a
  /-- A path leads to what can be reached. -/
  leads_iff : ∀ c < t.classes.length, ∀ a,
    leads c a = true ↔ Relation.ReflTransGen t.Parent c a
  /-- No class is in two components. -/
  components_nodup : components.flatten.Nodup
  /-- Every component has a class. -/
  components_ne_nil : ∀ k ∈ components, k ≠ []
  /-- Every class is in a component. -/
  mem_components : ∀ c, c ∈ components.flatten ↔ c < t.classes.length
  /-- A component is what can be reached from each of its classes and leads back. -/
  mem_component : ∀ k ∈ components, ∀ c ∈ k, ∀ d,
    d ∈ k ↔ Relation.ReflTransGen t.Parent c d ∧ Relation.ReflTransGen t.Parent d c

namespace Search

variable {t : SymbolTable} (s : Search t)

/-- The ancestors of a class: what is met from it, but the class itself only if
a path leads back to it from one of its parents. -/
def ancestors (c : ClassId) : List ClassId :=
  ((s.met c).filter (· != c)
    ++ if (t.classAt c).resolvedParents.any (s.leads · c) then [c] else []).mergeSort

/-- Whether a class derives from another, to which a path leads. -/
def isSubclassOf (c a : ClassId) : Bool :=
  c != a && s.leads c a

/-- Whether a component is a cycle: it has a second class, or its only one is a
parent of itself. -/
def isCycle (t : SymbolTable) (k : List ClassId) : Bool :=
  decide (1 < k.length) || k.head?.any fun c => (t.classAt c).resolvedParents.contains c

/-- The components that are cycles, in order. -/
def cycles : List (List ClassId) :=
  ((s.components.filter (isCycle t)).map fun k => k.mergeSort).mergeSort

/-- What is sorted is the one ascending list of its members. -/
theorem mergeSort_eq {α : Type} [LinearOrder α] {l l' : List α} (hl : l.Nodup)
    (hl' : l'.Pairwise (· < ·)) (h : ∀ a, a ∈ l ↔ a ∈ l') : l.mergeSort = l' := by
  have hperm : l.mergeSort.Perm l' :=
    (List.mergeSort_perm l _).trans
      ((List.perm_ext_iff_of_nodup hl (hl'.imp fun hlt => ne_of_lt hlt)).mpr h)
  exact hperm.eq_of_pairwise' (r := (· ≤ ·)) (List.pairwise_mergeSort' _ l)
    (hl'.imp fun hlt => le_of_lt hlt)

theorem reaches_iff {c a : ClassId} :
    Relation.ReflTransGen t.Parent c a ↔ a = c ∨ t.Ancestor c a :=
  Relation.reflTransGen_iff_eq_or_transGen

section Inside

variable (h : t.ParentsInside)
include h

/-- **What is met, by the rule for the class itself, are its ancestors.** -/
theorem ancestors_eq {c : ClassId} (hc : c < t.classes.length) :
    s.ancestors c = (Ancestry.ofTable t).ancestors c := by
  have hback : (t.classAt c).resolvedParents.any (s.leads · c) = true ↔ t.Ancestor c c := by
    rw [List.any_eq_true, Ancestor, Relation.TransGen.head'_iff]
    exact exists_congr fun p => and_congr_right fun hp => s.leads_iff p (h c p hp) c
  refine mergeSort_eq ?_ (Ancestry.pairwise_ancestors t c) fun a => ?_
  · refine ((s.met_nodup c hc).filter _).append ?_ ?_
    · split
      · exact List.nodup_singleton c
      · exact List.nodup_nil
    · intro a ha ha'
      have hne := bne_iff_ne.mp (List.mem_filter.mp ha).2
      split at ha'
      · exact hne (List.mem_singleton.mp ha')
      · exact List.not_mem_nil ha'
  · rw [List.mem_append, List.mem_filter, bne_iff_ne, s.mem_met c hc, reaches_iff,
      Ancestry.mem_ancestors h]
    by_cases hac : a = c
    · subst hac
      by_cases hcyclic : t.Ancestor a a
      · simp [hback.mpr hcyclic, hcyclic]
      · simp [mt hback.mp hcyclic, hcyclic]
    · split <;> simp [hac]

theorem isSubclassOf_eq {c : ClassId} (hc : c < t.classes.length) (a : ClassId) :
    s.isSubclassOf c a = (Ancestry.ofTable t).isSubclassOf c a := by
  rw [Bool.eq_iff_iff, Ancestry.isSubclassOf_iff h]
  unfold isSubclassOf
  rw [Bool.and_eq_true, bne_iff_ne, s.leads_iff c hc, reaches_iff]
  exact and_congr_right fun hne => or_iff_right fun heq => hne heq.symm

omit h in
/-- **A component is a cycle exactly if its classes lie on cycles.** -/
theorem isCycle_iff {k : List ClassId} (hk : k ∈ s.components) {c : ClassId} (hc : c ∈ k) :
    isCycle t k = true ↔ t.Ancestor c c := by
  unfold isCycle
  rw [Bool.or_eq_true, decide_eq_true_iff]
  match k with
  | [] => cases hc
  | [d] =>
    obtain rfl := List.mem_singleton.mp hc
    simp only [List.length_singleton, Nat.lt_irrefl, false_or, List.head?_cons, Option.any_some,
      List.contains_iff_mem]
    refine ⟨fun hloop => .single hloop, fun hcyclic => ?_⟩
    -- A path back to the only class of a component does not leave the component.
    obtain ⟨p, hp, hback⟩ := Relation.TransGen.head'_iff.mp hcyclic
    have hpc := (s.mem_component [c] hk c hc p).mpr ⟨.single hp, hback⟩
    exact List.mem_singleton.mp hpc ▸ hp
  | d :: e :: rest =>
    refine iff_of_true (Or.inl (by simp)) ?_
    have hnodup := (List.nodup_flatten.mp s.components_nodup).1 _ hk
    have hne : d ≠ e := fun heq => (List.nodup_cons.mp hnodup).1 (heq ▸ List.mem_cons_self)
    obtain ⟨b, hb, hbc⟩ : ∃ b ∈ d :: e :: rest, b ≠ c := by
      by_cases hdc : d = c
      · exact ⟨e, by simp, fun hec => hne (hdc.trans hec.symm)⟩
      · exact ⟨d, List.mem_cons_self, hdc⟩
    obtain ⟨hthere, hback⟩ := (s.mem_component _ hk c hc b).mp hb
    exact ((reaches_iff.mp hthere).resolve_left hbc).trans
      ((reaches_iff.mp hback).resolve_left hbc.symm)

/-- **The components that are cycles are the groups.** -/
theorem cycles_eq : s.cycles = (Ancestry.ofTable t).cycles := by
  have hsort : ∀ k ∈ s.components, ∀ c ∈ k, t.Ancestor c c →
      k.mergeSort = (Ancestry.ofTable t).cycleOf c := by
    intro k hk c hc hcyclic
    have hnodup := (List.nodup_flatten.mp s.components_nodup).1 k hk
    refine mergeSort_eq hnodup (Ancestry.pairwise_cycleOf _ c) fun d => ?_
    rw [s.mem_component k hk c hc, Ancestry.mem_cycleOf h, reaches_iff, reaches_iff]
    by_cases hdc : d = c
    · subst hdc
      simp [hcyclic]
    · simp [hdc, Ne.symm hdc]
  have hapart := (List.nodup_flatten.mp s.components_nodup).2
  refine mergeSort_eq ?_ (Ancestry.pairwise_cycles _) fun l => ?_
  · refine List.pairwise_map.mpr ((hapart.filter _).imp_of_mem fun {k l} hk _ hkl heq => ?_)
    obtain ⟨c, hc⟩ := List.exists_mem_of_ne_nil k
      (s.components_ne_nil k (List.mem_filter.mp hk).1)
    exact hkl hc (List.mem_mergeSort.mp (heq ▸ List.mem_mergeSort.mpr hc))
  · rw [List.mem_map, Ancestry.mem_cycles h]
    constructor
    · rintro ⟨k, hk, rfl⟩
      obtain ⟨hk, hcycle⟩ := List.mem_filter.mp hk
      obtain ⟨c, hc⟩ := List.exists_mem_of_ne_nil k (s.components_ne_nil k hk)
      have hcyclic := (s.isCycle_iff hk hc).mp hcycle
      exact ⟨c, hcyclic, hsort k hk c hc hcyclic⟩
    · rintro ⟨c, hcyclic, rfl⟩
      obtain ⟨k, hk, hc⟩ := List.mem_flatten.mp ((s.mem_components c).mpr (lt_of_ancestor hcyclic))
      exact ⟨k, List.mem_filter.mpr ⟨hk, (s.isCycle_iff hk hc).mpr hcyclic⟩,
        hsort k hk c hc hcyclic⟩

end Inside

end Search

/-- **The ancestry of a table is the transitive closure of its parents**, in whatever
cycles they go. The ancestors of a class are listed in ascending order; a class derives from
another that is one of its ancestors; and the classes that are their own ancestors are listed
once each, in ascending groups that go by their first members, two in one group exactly if
each is an ancestor of the other. Searches of the graph answer the same. -/
theorem ancestry_closes_parents (t : SymbolTable) (inside : t.ParentsInside) :
    let g := Ancestry.ofTable t
    (∀ c, (g.ancestors c).Pairwise (· < ·) ∧ ∀ a, a ∈ g.ancestors c ↔ t.Ancestor c a)
      ∧ (∀ c a, g.isSubclassOf c a = true ↔ c ≠ a ∧ a ∈ g.ancestors c)
      ∧ g.cycles.flatten.Nodup
      ∧ (∀ c, c ∈ g.cycles.flatten ↔ c ∈ g.ancestors c)
      ∧ (∀ c d, (∃ k ∈ g.cycles, c ∈ k ∧ d ∈ k) ↔ d ∈ g.ancestors c ∧ c ∈ g.ancestors d)
      ∧ (∀ k ∈ g.cycles, k.Pairwise (· < ·))
      ∧ g.cycles.Pairwise (fun k l => ∃ c ∈ k.head?, ∃ d ∈ l.head?, c < d)
      ∧ ∀ s : Search t, s.cycles = g.cycles
        ∧ ∀ c < t.classes.length, s.ancestors c = g.ancestors c
          ∧ s.isSubclassOf c = g.isSubclassOf c := by
  intro g
  have hmem : ∀ {c a}, a ∈ g.ancestors c ↔ t.Ancestor c a := Ancestry.mem_ancestors inside
  refine ⟨fun c => ⟨Ancestry.pairwise_ancestors t c, fun a => hmem⟩, fun c a => ?_,
    Ancestry.nodup_flatten_cycles inside, fun c => ?_, fun c d => ?_,
    Ancestry.pairwise_of_mem_cycles g, Ancestry.pairwise_head_cycles g,
    fun s => ⟨s.cycles_eq inside, fun c hc =>
      ⟨s.ancestors_eq inside hc, funext (s.isSubclassOf_eq inside hc)⟩⟩⟩
  · rw [hmem]
    exact Ancestry.isSubclassOf_iff inside
  · rw [hmem]
    exact Ancestry.mem_flatten_cycles inside
  · rw [hmem, hmem]
    exact Ancestry.together_in_cycles inside

/-- Two classes that are parents of each other, one of them twice, a class that is its own
parent and has one of the two above it, and one below all of them. -/
def knots : SymbolTable :=
  SymbolTable.ofParents [[1], [0, 0], [2, 0], [2]]

theorem knots_inside : knots.ParentsInside := by
  have hall : ∀ c < 4, ∀ a ∈ (knots.classAt c).resolvedParents, a < 4 := by decide
  intro c a hp
  exact hall c (lt_of_parent hp) a hp

theorem knots_reaches {c a : ClassId} :
    Relation.ReflTransGen knots.Parent c a ↔ a = c ∨ a ∈ (Ancestry.ofTable knots).ancestors c := by
  rw [Ancestry.mem_ancestors knots_inside]
  exact Search.reaches_iff

theorem knots_reaches_lt {c a : ClassId} (h : Relation.ReflTransGen knots.Parent c a)
    (hc : c < 4) : a < 4 := by
  rcases Search.reaches_iff.mp h with rfl | ha
  · exact hc
  · exact knots_inside.ancestor_lt ha

/-- Searches of these classes that list what they find in the order of their steps. -/
def knotsSearch : Search knots where
  met c := [[0, 1], [1, 0], [2, 0, 1], [3, 2, 0, 1]].getD c []
  leads c a := a == c || ((Ancestry.ofTable knots).ancestors c).contains a
  components := [[1, 0], [2], [3]]
  met_nodup := by decide
  mem_met := by
    have hmet : ∀ c < 4, ∀ a ∈ [[0, 1], [1, 0], [2, 0, 1], [3, 2, 0, 1]].getD c [], a < 4 := by
      decide
    have hall : ∀ c < 4, ∀ a < 4, a ∈ [[0, 1], [1, 0], [2, 0, 1], [3, 2, 0, 1]].getD c []
        ↔ a = c ∨ a ∈ (Ancestry.ofTable knots).ancestors c := by decide
    intro c hc a
    by_cases ha : a < 4
    · rw [knots_reaches]
      exact hall c hc a ha
    · exact iff_of_false (fun hm => ha (hmet c hc a hm)) (fun hr => ha (knots_reaches_lt hr hc))
  leads_iff c _ a := by
    rw [knots_reaches, Bool.or_eq_true, beq_iff_eq, List.contains_iff_mem]
  components_nodup := by decide
  components_ne_nil := by decide
  mem_components c := by
    show c ∈ [1, 0, 2, 3] ↔ c < 4
    rw [← List.mem_range]
    exact List.Perm.mem_iff (by decide)
  mem_component := by
    have hin : ∀ k ∈ [[1, 0], [2], [3]], ∀ c ∈ k, c < 4 := by decide
    have hall : ∀ k ∈ [[1, 0], [2], [3]], ∀ c ∈ k, ∀ d < 4,
        d ∈ k ↔ (d = c ∨ d ∈ (Ancestry.ofTable knots).ancestors c)
          ∧ (c = d ∨ c ∈ (Ancestry.ofTable knots).ancestors d) := by decide
    intro k hk c hc d
    by_cases hd : d < 4
    · rw [knots_reaches, knots_reaches]
      exact hall k hk c hc d hd
    · exact iff_of_false (fun hm => hd (hin k hk d hm))
        (fun hr => hd (knots_reaches_lt hr.1 (hin k hk c hc)))

/-- **The class below them all has the other three as ancestors, and two of them are one
group**, whichever is met or listed first. -/
theorem ancestry_closes_parents_knots :
    let g := Ancestry.ofTable knots
    knots.ParentsInside ∧ g.ancestors 3 = [0, 1, 2] ∧ knots.Ancestor 3 1
      ∧ ¬ knots.Ancestor 3 3 ∧ g.cycles = [[0, 1], [2]]
      ∧ knotsSearch.ancestors 3 = [0, 1, 2] ∧ knotsSearch.cycles = [[0, 1], [2]] := by
  intro g
  have hancestors : g.ancestors 3 = [0, 1, 2] := by decide
  have hcycles : g.cycles = [[0, 1], [2]] := by decide
  obtain ⟨hclosure, -, -, -, -, -, -, hsearch⟩ := ancestry_closes_parents knots knots_inside
  obtain ⟨hgroups, hmet⟩ := hsearch knotsSearch
  refine ⟨knots_inside, hancestors, ((hclosure 3).2 1).mp ?_, fun h => ?_, hcycles,
    (hmet 3 (by decide)).1.trans hancestors, hgroups.trans hcycles⟩
  · exact hancestors ▸ (by decide : 1 ∈ [0, 1, 2])
  · exact absurd (hancestors ▸ ((hclosure 3).2 3).mpr h) (by decide : 3 ∉ [0, 1, 2])

end Heritage
