import Heritage.Proofs.Taint

/-!
# What a resolved table says

A resolved table is described by facts about the table itself and the one it was
resolved from: which classes are parents, which classes are broken, what the
linearizations are made of, and that the members are those that flattening gives
in the finished table. The order in which the steps were taken is no longer
visible in them.
-/

namespace Heritage

/-- A class without its members. -/
def ClassSymbol.bare (k : ClassSymbol) : ClassSymbol :=
  { k with members := {} }

namespace SymbolTable

/-! ## The steps -/

/-- A table with its types and parents looked up. -/
def parented (t : SymbolTable) : SymbolTable :=
  t.resolveTypes.resolveParents

/-- The ancestry of a table. -/
def ancestry (t : SymbolTable) : Ancestry :=
  Ancestry.ofTable t.parented

/-- A table in which the classes on a cycle are marked. -/
def cycled (t : SymbolTable) : SymbolTable :=
  t.parented.markCycles t.ancestry

/-- A table in which all broken classes are marked. -/
def tainted (t : SymbolTable) : SymbolTable :=
  (t.cycled.markUnresolved t.ancestry).1

theorem resolve_table (t : SymbolTable) :
    t.resolve.table = t.tainted.linearize.flatten t.ancestry := by
  unfold resolve
  rfl

theorem parented_declared (t : SymbolTable) : t.parented.declared = t.declared :=
  (resolveParents_declared _).trans (resolveTypes_declared t)

theorem cycled_declared (t : SymbolTable) : t.cycled.declared = t.declared :=
  (markCycles_declared _ _).trans t.parented_declared

/-- A table whose classes are as they were declared. -/
def Fresh (t : SymbolTable) : Prop :=
  ∀ c, (t.classAt c).declared = t.classAt c

variable {t u : SymbolTable}

/-! ## Parents -/

theorem parented_classAt (t : SymbolTable) (c : ClassId) :
    t.parented.classAt c
      = { t.classAt c with
          resolvedParents := t.knownParents (t.classAt c)
          state := if (t.missingParents (t.classAt c)).isEmpty then (t.classAt c).state
            else .missingParent } :=
  getD_map_of_default _ _ _ rfl

/-- A written parent of a class is no class. -/
def Missing (t : SymbolTable) (c : ClassId) : Prop :=
  ∃ p ∈ (t.classAt c).parents, t.lookupClass p.text = none

theorem isEmpty_missingParents_iff {c : ClassId} :
    (t.missingParents (t.classAt c)).isEmpty = true ↔ ¬ t.Missing c := by
  unfold missingParents Missing
  rw [List.isEmpty_iff, List.filter_eq_nil_iff]
  simp only [Option.isNone_iff_eq_none, not_exists, not_and]

/-- **The parents of a class are the classes that its words denote.** -/
theorem parented_parent_iff {c a : ClassId} :
    t.parented.Parent c a ↔ ∃ p ∈ (t.classAt c).parents, t.lookupClass p.text = some a := by
  unfold Parent
  rw [parented_classAt]
  unfold knownParents
  rw [List.mem_eraseDups, List.mem_filterMap]

theorem lookupClass_lt {name : String} {c : ClassId} (h : t.lookupClass name = some c) :
    c < t.classes.length := by
  rw [lookupClass, findIdx?_eq_head?] at h
  exact lt_of_mem_positions (List.mem_of_mem_head? h)

theorem parented_length (t : SymbolTable) : t.parented.classes.length = t.classes.length :=
  List.length_map _

/-- A parent is a class of the table. -/
theorem parented_inside (t : SymbolTable) : t.parented.ParentsInside := by
  intro c a h
  obtain ⟨p, -, hp⟩ := parented_parent_iff.mp h
  rw [parented_length]
  exact lookupClass_lt hp

/-! ## Broken classes -/

/-- The loop that marks classes with a broken ancestor, as one step. -/
theorem cycled_markUnresolved (t : SymbolTable) :
    t.cycled.markUnresolved t.ancestry
      = (t.cycled.markTainted t.ancestry, t.cycled.taintIssues t.ancestry) :=
  markUnresolved_eq (Ancestry.mem_ancestors_trans t.parented_inside)

theorem tainted_eq_markTainted (t : SymbolTable) :
    t.tainted = t.cycled.markTainted t.ancestry :=
  congrArg Prod.fst t.cycled_markUnresolved

/-- What resolution reports, part by part. -/
theorem resolve_issues (t : SymbolTable) :
    t.resolve.issues = t.typeIssues ++ t.resolveTypes.parentIssues
      ++ t.parented.cycleIssues t.ancestry ++ t.cycled.taintIssues t.ancestry
      ++ t.resolve.table.ambiguities t.ancestry := by
  have hfound : (t.cycled.markUnresolved t.ancestry).2 = t.cycled.taintIssues t.ancestry :=
    congrArg Prod.snd t.cycled_markUnresolved
  rw [resolve_table, ← hfound]
  unfold resolve
  rfl

theorem cycled_length (t : SymbolTable) : t.cycled.classes.length = t.classes.length :=
  (List.length_mapIdx ..).trans t.parented_length

theorem tainted_length (t : SymbolTable) : t.tainted.classes.length = t.classes.length := by
  rw [tainted_eq_markTainted]
  exact (List.length_mapIdx ..).trans t.cycled_length

/-- A cyclic class is marked, and any other is left as it is. -/
theorem cycled_classAt {c : ClassId} (hc : c < t.classes.length) :
    t.cycled.classAt c
      = if t.ancestry.isCyclic c then { t.parented.classAt c with state := .cyclic }
        else t.parented.classAt c :=
  classAt_of_mapIdx (t := t.parented)
    (f := fun c s => if t.ancestry.isCyclic c then { s with state := .cyclic } else s) rfl
    (t.parented_length.symm ▸ hc)

/-- A class below a broken one is marked, and any other is left as it is. -/
theorem tainted_classAt {c : ClassId} (hc : c < t.classes.length) :
    t.tainted.classAt c
      = if t.cycled.isTainted t.ancestry c then { t.cycled.classAt c with state := .unresolved }
        else t.cycled.classAt c := by
  rw [tainted_eq_markTainted]
  exact classAt_of_mapIdx (t := t.cycled)
    (f := fun c s =>
      if t.cycled.isTainted t.ancestry c then { s with state := .unresolved } else s) rfl
    (t.cycled_length.symm ▸ hc)

theorem cycled_parents (t : SymbolTable) (c : ClassId) :
    (t.cycled.classAt c).resolvedParents = (t.parented.classAt c).resolvedParents := by
  by_cases hc : c < t.classes.length
  · rw [cycled_classAt hc]
    split
    · rfl
    · rfl
  · rw [classAt_of_le (t.cycled_length ▸ Nat.le_of_not_lt hc),
      classAt_of_le (t.parented_length ▸ Nat.le_of_not_lt hc)]

theorem tainted_parents (t : SymbolTable) (c : ClassId) :
    (t.tainted.classAt c).resolvedParents = (t.parented.classAt c).resolvedParents := by
  rw [← cycled_parents]
  by_cases hc : c < t.classes.length
  · rw [tainted_classAt hc]
    split
    · rfl
    · rfl
  · rw [classAt_of_le (t.tainted_length ▸ Nat.le_of_not_lt hc),
      classAt_of_le (t.cycled_length ▸ Nat.le_of_not_lt hc)]

/-- Tables with the same resolved parents have the same ancestors. -/
theorem parent_congr
    (h : ∀ c, (u.classAt c).resolvedParents = (t.classAt c).resolvedParents) :
    u.Parent = t.Parent := by
  funext c a
  unfold Parent
  rw [h c]

theorem ancestor_congr
    (h : ∀ c, (u.classAt c).resolvedParents = (t.classAt c).resolvedParents) :
    u.Ancestor = t.Ancestor := by
  unfold Ancestor
  rw [parent_congr h]

/-- A class that is broken by itself: a written parent is no class, or it lies on
a cycle. -/
def Defective (t : SymbolTable) (c : ClassId) : Prop :=
  t.Missing c ∨ t.parented.Ancestor c c

theorem not_missing_of_le {c : ClassId} (h : t.classes.length ≤ c) : ¬ t.Missing c := by
  rintro ⟨p, hp, -⟩
  rw [classAt_of_le h] at hp
  exact List.not_mem_nil hp

theorem lt_of_defective {c : ClassId} (h : t.Defective c) : c < t.classes.length := by
  rcases h with h | h
  · exact Nat.lt_of_not_le (fun hc => not_missing_of_le hc h)
  · exact t.parented_length ▸ lt_of_ancestor h

theorem isCyclic_ancestry_iff {c : ClassId} :
    t.ancestry.isCyclic c = true ↔ t.parented.Ancestor c c :=
  Ancestry.isCyclic_iff t.parented_inside

theorem Fresh.parented_broken_iff (h : t.Fresh) {c : ClassId} :
    t.parented.Broken c ↔ t.Missing c := by
  have hstate : (t.classAt c).state = .pending := by rw [← h c]; rfl
  unfold Broken
  rw [parented_classAt, hstate]
  by_cases hm : t.Missing c
  · rw [if_neg (fun he => isEmpty_missingParents_iff.mp he hm)]
    exact ⟨fun _ => hm, fun _ => rfl⟩
  · rw [if_pos (isEmpty_missingParents_iff.mpr hm)]
    exact ⟨fun hb => (Bool.false_ne_true hb).elim, fun hm' => (hm hm').elim⟩

theorem Fresh.cycled_broken_iff (h : t.Fresh) {c : ClassId} :
    t.cycled.Broken c ↔ t.Defective c := by
  by_cases hc : c < t.classes.length
  · unfold Broken Defective
    rw [cycled_classAt hc]
    by_cases hcyc : t.parented.Ancestor c c
    · rw [if_pos (isCyclic_ancestry_iff.mpr hcyc)]
      exact ⟨fun _ => Or.inr hcyc, fun _ => rfl⟩
    · rw [if_neg (fun hi => hcyc (isCyclic_ancestry_iff.mp hi))]
      exact h.parented_broken_iff.trans (or_iff_left hcyc).symm
  · exact ⟨fun hb => absurd (t.cycled_length ▸ lt_of_broken hb) hc,
      fun hd => absurd (lt_of_defective hd) hc⟩

/-- **A class is marked as unresolved exactly if it has a defective ancestor** and is not defective
itself. -/
theorem Fresh.isTainted_iff (h : t.Fresh) {c : ClassId} :
    t.cycled.isTainted t.ancestry c = true
      ↔ ¬ t.Defective c ∧ ∃ a, t.parented.Ancestor c a ∧ t.Defective a := by
  rw [SymbolTable.isTainted_iff, h.cycled_broken_iff]
  exact and_congr_right fun _ => exists_congr fun a =>
    and_congr (Ancestry.mem_ancestors t.parented_inside) h.cycled_broken_iff

/-- **A class is broken** if it or one of its ancestors is so by itself. -/
theorem Fresh.tainted_broken_iff (h : t.Fresh) {c : ClassId} :
    t.tainted.Broken c ↔ t.Defective c ∨ ∃ a, t.parented.Ancestor c a ∧ t.Defective a := by
  by_cases hc : c < t.classes.length
  · unfold Broken
    rw [tainted_classAt hc]
    by_cases htaint : t.cycled.isTainted t.ancestry c = true
    · rw [if_pos htaint]
      exact ⟨fun _ => Or.inr (h.isTainted_iff.mp htaint).2, fun _ => rfl⟩
    · rw [if_neg htaint]
      refine h.cycled_broken_iff.trans ⟨Or.inl, fun hd => ?_⟩
      rw [h.isTainted_iff, not_and_or, not_not] at htaint
      exact htaint.elim id (fun hn => hd.elim id (fun ha => (hn ha).elim))
  · refine ⟨fun hb => absurd (t.tainted_length ▸ lt_of_broken hb) hc, fun hd => ?_⟩
    rcases hd with hd | ⟨a, ha, -⟩
    · exact absurd (lt_of_defective hd) hc
    · exact absurd (t.parented_length ▸ lt_of_ancestor ha) hc

theorem tainted_linearization (h : t.Fresh) (c : ClassId) : t.tainted.linearization c = [] := by
  have hat : (t.parented.classAt c).linearization = [] := by
    rw [parented_classAt, ← h c]
    rfl
  unfold linearization
  by_cases hc : c < t.classes.length
  · rw [tainted_classAt hc, cycled_classAt hc]
    split
    · split
      · exact hat
      · exact hat
    · split
      · exact hat
      · exact hat
  · rw [classAt_of_le (t.tainted_length ▸ Nat.le_of_not_lt hc)]
    rfl

/-- Once the broken classes are marked, everything can be linearized. -/
theorem Fresh.linearizable (h : t.Fresh) : Linearizable t.tainted where
  inside c a hp := by
    rw [parent_congr t.tainted_parents] at hp
    rw [t.tainted_length, ← t.parented_length]
    exact t.parented_inside c a hp
  empty := tainted_linearization h
  acyclic c hb hc := by
    rw [ancestor_congr t.tainted_parents] at hc
    exact hb (h.tainted_broken_iff.mpr (Or.inl (Or.inr hc)))

/-! ## Members do not depend on members -/

/-- A table without the members of its classes. -/
def bare (t : SymbolTable) : SymbolTable :=
  { t with classes := t.classes.map ClassSymbol.bare }

theorem bare_classAt (t : SymbolTable) (c : ClassId) : t.bare.classAt c = (t.classAt c).bare :=
  getD_map_of_default ClassSymbol.bare t.classes c rfl

theorem bare_linearization (t : SymbolTable) : t.bare.linearization = t.linearization := by
  funext c
  unfold linearization
  rw [bare_classAt]
  rfl

/-- **What flattening gives a class does not depend on what any class has.** -/
theorem bare_membersOf (t : SymbolTable) (g : Ancestry) (c : ClassId) :
    t.bare.membersOf g c = t.membersOf g c := by
  have hfields : t.bare.fieldsOf = t.fieldsOf := by
    funext d
    unfold fieldsOf
    rw [bare_classAt]
    rfl
  have hfield : t.bare.declaredField = t.declaredField := by
    funext d name
    unfold declaredField
    rw [bare_classAt]
    rfl
  have hmethodNames : t.bare.methodNames = t.methodNames := rfl
  have hfieldNames : t.bare.fieldNames = t.fieldNames := by
    funext l
    unfold fieldNames
    rw [hfields]
    rfl
  have hmethod : t.bare.flatMethod? = t.flatMethod? := by
    funext g d name
    unfold flatMethod? methodCandidates
    rw [bare_linearization]
    rfl
  have hflatField : t.bare.flatField? = t.flatField? := by
    funext g d name
    unfold flatField? fieldCandidates
    rw [bare_linearization, hfield]
  unfold membersOf ownMembers flatMembers
  rw [bare_classAt, bare_linearization, hmethodNames, hfieldNames, hmethod, hflatField, hfields]
  rfl

theorem flatten_classAt {g : Ancestry} {c : ClassId} (hc : c < u.classes.length) :
    (u.flatten g).classAt c = { u.classAt c with members := u.membersOf g c } :=
  classAt_of_mapIdx (t := u) (f := fun c s => { s with members := u.membersOf g c }) rfl hc

/-- Flattening changes nothing of a class but its members. -/
theorem flatten_bare (u : SymbolTable) (g : Ancestry) : (u.flatten g).bare = u.bare := by
  have hclasses : (u.flatten g).classes.map ClassSymbol.bare = u.classes.map ClassSymbol.bare := by
    refine List.ext_getElem? fun c => ?_
    unfold flatten
    rw [List.getElem?_map, List.getElem?_mapIdx, Option.map_map, List.getElem?_map]
    rfl
  exact congrArg (fun cs => ({ u with classes := cs } : SymbolTable)) hclasses

theorem flatten_linearization (u : SymbolTable) (g : Ancestry) :
    (u.flatten g).linearization = u.linearization := by
  rw [← bare_linearization, flatten_bare, bare_linearization]

/-- **What flattening gives a class can be read off the flattened table.** -/
theorem flatten_membersOf (u : SymbolTable) (g g' : Ancestry) (c : ClassId) :
    (u.flatten g).membersOf g' c = u.membersOf g' c := by
  rw [← bare_membersOf, flatten_bare, bare_membersOf]

/-! ## The finished table -/

/-- Linearization leaves nothing but the members to be filled in. -/
theorem linearize_bare (t : SymbolTable) : t.tainted.linearize.bare = t.resolve.table.bare := by
  rw [resolve_table, flatten_bare]

theorem resolve_linearization (t : SymbolTable) :
    t.resolve.table.linearization = t.tainted.linearize.linearization := by
  rw [resolve_table, flatten_linearization]

theorem resolve_length (t : SymbolTable) : t.resolve.table.classes.length = t.classes.length :=
  classes_length_of_declared (resolve_declared t)

section Finished

variable (h : t.Fresh)
include h

theorem Fresh.linearize_length : t.tainted.linearize.classes.length = t.classes.length :=
  h.linearizable.linearize.length_eq.trans t.tainted_length

/-- **A class of a resolved table.** -/
theorem Fresh.resolve_classAt {c : ClassId} (hc : c < t.classes.length) :
    t.resolve.table.classAt c
      = { t.tainted.linearized t.resolve.table c with
          members := t.resolve.table.membersOf t.ancestry c } := by
  have hlin : t.tainted.linearized t.resolve.table c
      = t.tainted.linearized t.tainted.linearize c := by
    unfold linearized
    rw [resolve_linearization]
  rw [hlin, ← h.linearizable.classAt_eq (t.tainted_length.symm ▸ hc), resolve_table,
    flatten_membersOf]
  exact flatten_classAt (h.linearize_length.symm ▸ hc)

theorem Fresh.resolve_parents (c : ClassId) :
    (t.resolve.table.classAt c).resolvedParents = (t.parented.classAt c).resolvedParents := by
  by_cases hc : c < t.classes.length
  · rw [h.resolve_classAt hc, ← t.tainted_parents c]
    unfold linearized
    split
    · rfl
    · rfl
  · rw [classAt_of_le (t.resolve_length ▸ Nat.le_of_not_lt hc),
      classAt_of_le (t.parented_length ▸ Nat.le_of_not_lt hc)]

/-- **The parents of a class** are the classes that it was written with. -/
theorem Fresh.resolve_parent_iff {c a : ClassId} :
    t.resolve.table.Parent c a
      ↔ ∃ p ∈ (t.classAt c).parents, t.lookupClass p.text = some a := by
  rw [parent_congr h.resolve_parents, parented_parent_iff]

theorem Fresh.resolve_inside : t.resolve.table.ParentsInside := by
  intro c a hp
  rw [parent_congr h.resolve_parents] at hp
  rw [t.resolve_length, ← t.parented_length]
  exact t.parented_inside c a hp

theorem Fresh.isSubclassOf_iff {c a : ClassId} :
    t.ancestry.isSubclassOf c a = true ↔ c ≠ a ∧ t.resolve.table.Ancestor c a := by
  rw [ancestor_congr h.resolve_parents]
  exact Ancestry.isSubclassOf_iff t.parented_inside

theorem Fresh.resolve_broken_tainted {c : ClassId} :
    t.resolve.table.Broken c ↔ t.tainted.Broken c := by
  by_cases hc : c < t.classes.length
  · unfold Broken
    rw [h.resolve_classAt hc]
    unfold linearized
    split
    · exact Iff.rfl
    · rename_i hb
      exact ⟨fun hr => (Bool.false_ne_true hr).elim, fun ht => (hb ht).elim⟩
  · exact ⟨fun hb => absurd (t.resolve_length ▸ lt_of_broken hb) hc,
      fun hb => absurd (t.tainted_length ▸ lt_of_broken hb) hc⟩

/-- **The broken classes** are those on a cycle, those with a parent that is no
class, and those below such a class. -/
theorem Fresh.resolve_broken_iff {c : ClassId} :
    t.resolve.table.Broken c
      ↔ (t.Missing c ∨ t.resolve.table.Ancestor c c)
        ∨ ∃ a, t.resolve.table.Ancestor c a ∧ (t.Missing a ∨ t.resolve.table.Ancestor a a) := by
  rw [h.resolve_broken_tainted, h.tainted_broken_iff, ancestor_congr h.resolve_parents]
  rfl

/-- A class ends up with the members that are found for it in the table at the end. -/
theorem Fresh.resolve_members {c : ClassId} (hc : c < t.classes.length) :
    (t.resolve.table.classAt c).members = t.resolve.table.membersOf t.ancestry c := by
  rw [h.resolve_classAt hc]

theorem Fresh.linearization_of_broken {c : ClassId} (hb : t.resolve.table.Broken c) :
    t.resolve.table.linearization c = [c] := by
  have hc : c < t.classes.length := t.resolve_length ▸ lt_of_broken hb
  unfold linearization
  rw [h.resolve_classAt hc, linearized_of_broken (h.resolve_broken_tainted.mp hb)]

/-- **The linearization of a class is made of those of its parents.** -/
theorem Fresh.linearization_eq {c : ClassId} (hc : c < t.classes.length)
    (hb : ¬ t.resolve.table.Broken c) :
    t.resolve.table.linearization c
      = (c :: (t.resolve.table.classAt c).resolvedParents.flatMap
          t.resolve.table.linearization).eraseDups := by
  rw [h.resolve_parents, ← t.tainted_parents c]
  conv_lhs => unfold linearization
  rw [h.resolve_classAt hc,
    linearized_of_not_broken (fun ht => hb (h.resolve_broken_tainted.mpr ht))]

theorem Fresh.not_broken_of_parent {c a : ClassId} (hb : ¬ t.resolve.table.Broken c)
    (hp : t.resolve.table.Parent c a) : ¬ t.resolve.table.Broken a := by
  rw [h.resolve_broken_iff] at hb ⊢
  rintro (hd | ⟨b, hab, hd⟩)
  · exact hb (Or.inr ⟨a, .single hp, hd⟩)
  · exact hb (Or.inr ⟨b, .head hp hab, hd⟩)

theorem Fresh.not_broken_of_ancestor {c a : ClassId} (hb : ¬ t.resolve.table.Broken c)
    (ha : t.resolve.table.Ancestor c a) : ¬ t.resolve.table.Broken a := by
  induction ha with
  | single hp => exact h.not_broken_of_parent hb hp
  | tail _ hp ih => exact h.not_broken_of_parent ih hp

/-- A class that is not broken is not its own ancestor. -/
theorem Fresh.acyclic {c : ClassId} (hb : ¬ t.resolve.table.Broken c) :
    ¬ t.resolve.table.Ancestor c c :=
  fun hc => hb (h.resolve_broken_iff.mpr (Or.inl (Or.inr hc)))

/-- **Induction from parents to children** in a resolved table. -/
theorem Fresh.induction {P : ClassId → Prop}
    (step : ∀ c < t.classes.length,
      (¬ t.resolve.table.Broken c → ∀ a, t.resolve.table.Parent c a → P a) → P c)
    {c : ClassId} (hc : c < t.classes.length) : P c := by
  refine h.linearizable.induction (fun d hd hpar => ?_) (t.tainted_length.symm ▸ hc)
  refine step d (t.tainted_length ▸ hd) (fun hb a ha => ?_)
  refine hpar (fun ht => hb (h.resolve_broken_tainted.mpr ht)) a ?_
  rw [parent_congr t.tainted_parents, ← parent_congr h.resolve_parents]
  exact ha

/-- **The linearization of a class holds the class and its ancestors.** -/
theorem Fresh.mem_linearization {c a : ClassId} (hc : c < t.classes.length)
    (hb : ¬ t.resolve.table.Broken c) :
    a ∈ t.resolve.table.linearization c ↔ a = c ∨ t.resolve.table.Ancestor c a := by
  revert a hb
  refine h.induction (P := fun c => ∀ {a}, ¬ t.resolve.table.Broken c →
    (a ∈ t.resolve.table.linearization c ↔ a = c ∨ t.resolve.table.Ancestor c a))
    (fun c hc ih a hb => ?_) hc
  rw [h.linearization_eq hc hb, List.mem_eraseDups, List.mem_cons, List.mem_flatMap]
  refine or_congr_right ⟨?_, fun ha => ?_⟩
  · rintro ⟨p, hp, ha⟩
    rcases (ih hb p hp (h.not_broken_of_parent hb hp)).mp ha with rfl | ha
    · exact .single hp
    · exact .head hp ha
  · obtain ⟨p, hp, hpa⟩ := Relation.TransGen.head'_iff.mp ha
    refine ⟨p, hp, (ih hb p hp (h.not_broken_of_parent hb hp)).mpr ?_⟩
    rcases Relation.reflTransGen_iff_eq_or_transGen.mp hpa with rfl | hpa
    · exact Or.inl rfl
    · exact Or.inr hpa

end Finished

end SymbolTable

end Heritage
