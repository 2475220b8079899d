import Heritage.Proofs.Requests

/-!
# A name denotes the most derived declaration

The members of a class are put together along its linearization, and the first
declaration met there need not be the one that counts: where two parents share a
base, the base may stand before the parent that overrides it. So what counts is
said without the linearization. Of the classes at or above a class that declare
a name, those that another one derives from are out of the question; only
between the others does the linearization decide.

Members are given to one class after the other. What a class gets does not
depend on what any class has got before, so the order in which they have their
turns does not matter (`Fresh.foldl_flattenClass`).
-/

namespace Heritage

namespace SymbolTable

variable {t u : SymbolTable}

/-! ## Which declarations count -/

/-- A class declares a method under a name. -/
def OwnMethod (t : SymbolTable) (name : String) (c : ClassId) (m : MethodId) : Prop :=
  m ∈ t.methodsOf c ∧ (t.methodAt m).name = name

/-- A class declares a field under a name. -/
def OwnField (t : SymbolTable) (name : String) (c : ClassId) (v : VarId) : Prop :=
  v ∈ t.fieldsOf c ∧ (t.varAt v).name = name

/-- A class declares something, and is a given one or an ancestor of it. -/
def Declaring {α : Type} (t : SymbolTable) (own : ClassId → α → Prop) (c a : ClassId) : Prop :=
  (a = c ∨ t.Ancestor c a) ∧ ∃ x, own a x

/-- **The most derived classes that declare something**: no other one derives
from them. -/
def Foremost {α : Type} (t : SymbolTable) (own : ClassId → α → Prop) (c a : ClassId) : Prop :=
  t.Declaring own c a ∧ ∀ b, t.Declaring own c b → b ≠ a → ¬ t.Ancestor b a

/-- **The declaration of the first of them in the linearization.** -/
def FirstForemost {α : Type} (t : SymbolTable) (own : ClassId → α → Prop) (c : ClassId) (x : α) :
    Prop :=
  ∃ before a behind, t.linearization c = before ++ a :: behind ∧ t.Foremost own c a ∧ own a x
    ∧ ∀ b ∈ before, ¬ t.Foremost own c b

/-- Two methods take and return the same types. -/
def SameTypes (t : SymbolTable) (m n : MethodId) : Prop :=
  t.paramTypes m = t.paramTypes n ∧ (t.methodAt m).returnType = (t.methodAt n).returnType

/-- The most derived declarations of a method take and return the same types. -/
def Agree (t : SymbolTable) (c : ClassId) (name : String) : Prop :=
  ∀ a b m n, t.Foremost (t.OwnMethod name) c a → t.Foremost (t.OwnMethod name) c b →
    t.OwnMethod name a m → t.OwnMethod name b n → t.SameTypes m n

/-- **What a method name denotes in a class.** -/
structure DenotesMethod (t : SymbolTable) (c : ClassId) (name : String) : Prop where
  /-- Nothing, if it is declared nowhere. -/
  absent : (∀ a, ¬ t.Declaring (t.OwnMethod name) c a) →
    t.findMethod c name = none ∧ name ∉ (t.classAt c).members.ambiguous
  /-- The class's own method, if it has one. -/
  own : ∀ m, t.OwnMethod name c m →
    t.findMethod c name = some m ∧ name ∉ (t.classAt c).members.ambiguous
  /-- If it is declared anywhere, some declaration is a most derived one. -/
  foremost : ∀ a, t.Declaring (t.OwnMethod name) c a → ∃ b, t.Foremost (t.OwnMethod name) c b
  /-- If the most derived ones agree, the first of them. -/
  agreed : (∀ m, ¬ t.OwnMethod name c m) → (∃ a, t.Declaring (t.OwnMethod name) c a) →
    t.Agree c name → ∃ m, t.FirstForemost (t.OwnMethod name) c m
      ∧ t.findMethod c name = some m ∧ name ∉ (t.classAt c).members.ambiguous
  /-- If they do not, nothing, and it is ambiguous. -/
  differing : (∀ m, ¬ t.OwnMethod name c m) → ¬ t.Agree c name →
    t.findMethod c name = none ∧ name ∈ (t.classAt c).members.ambiguous

/-- **What a field name denotes in a class.** -/
structure DenotesField (t : SymbolTable) (c : ClassId) (name : String) : Prop where
  /-- Something, exactly if it is declared anywhere. -/
  found : (t.findField c name).isSome ↔ ∃ a, t.Declaring (t.OwnField name) c a
  /-- The class's own field, if it has one. -/
  own : ∀ v, t.OwnField name c v → t.findField c name = some v
  /-- Else the first of the most derived ones. -/
  inherited : (∀ v, ¬ t.OwnField name c v) →
    ∀ v, t.findField c name = some v ↔ t.FirstForemost (t.OwnField name) c v

/-! ## The most derived declarations of a resolved table -/

theorem mostDerived_congr {c a : ClassId} {P Q : ClassId → Prop}
    (hiff : ∀ b, t.Ancestor c b → (P b ↔ Q b)) : t.MostDerived c P a ↔ t.MostDerived c Q a := by
  constructor
  · rintro ⟨ha, hP, hmost⟩
    exact ⟨ha, (hiff a ha).mp hP, fun b hb hQ => hmost b hb ((hiff b hb).mpr hQ)⟩
  · rintro ⟨ha, hQ, hmost⟩
    exact ⟨ha, (hiff a ha).mpr hQ, fun b hb hP => hmost b hb ((hiff b hb).mp hP)⟩

section Finished

variable (h : t.Fresh) {c : ClassId} (hc : c < t.classes.length)
  (hb : ¬ t.resolve.table.Broken c) {α : Type} {own : ClassId → α → Prop}
include h hb

/-- A class that declares something is the most derived one itself. -/
theorem Fresh.foremost_self {x : α} (hx : own c x) : t.resolve.table.Foremost own c c := by
  refine ⟨⟨Or.inl rfl, x, hx⟩, ?_⟩
  rintro b ⟨rfl | hcb, -⟩ hne hbc
  · exact hne rfl
  · exact h.acyclic hb (hcb.trans hbc)

/-- **The most derived classes that declare what a class does not** are among its
ancestors. -/
theorem Fresh.foremost_iff (hno : ∀ x, ¬ own c x) {a : ClassId} :
    t.resolve.table.Foremost own c a
      ↔ t.resolve.table.MostDerived c (fun a => ∃ x, own a x) a := by
  constructor
  · rintro ⟨⟨rfl | hca, hx⟩, hmost⟩
    · exact absurd hx (not_exists.mpr hno)
    · refine ⟨hca, hx, fun b hcb hdb hba => ?_⟩
      by_cases hne : b = a
      · exact h.acyclic (h.not_broken_of_ancestor hb hca) (hne ▸ hba)
      · exact hmost b ⟨Or.inr hcb, hdb⟩ hne hba
  · intro hmost
    refine ⟨⟨Or.inr hmost.ancestor, hmost.holds⟩, ?_⟩
    rintro b ⟨rfl | hcb, hdb⟩ - hba
    · exact absurd hdb (not_exists.mpr hno)
    · exact hmost.overridden b hcb hdb hba

include hc in
/-- **Some declaration is always a most derived one.** -/
theorem Fresh.exists_foremost {a : ClassId} (ha : t.resolve.table.Declaring own c a) :
    ∃ b, t.resolve.table.Foremost own c b := by
  by_cases hself : ∃ x, own c x
  · obtain ⟨x, hx⟩ := hself
    exact ⟨c, h.foremost_self hb hx⟩
  · obtain ⟨rfl | hca, hda⟩ := ha
    · exact absurd hda hself
    · obtain ⟨b, hmost⟩ := h.exists_mostDerived hc hb (fun a => ∃ x, own a x) hca hda
      exact ⟨b, (h.foremost_iff hb (not_exists.mp hself)).mpr hmost⟩

variable {declared : ClassId → Option α}
  (hown : ∀ a < t.classes.length, ∀ x, declared a = some x ↔ own a x)
include hown

omit hb in
/-- The most derived ancestors that declare something, by looking it up. -/
theorem Fresh.mostDerived_declared {a : ClassId} :
    t.resolve.table.MostDerived c (fun a => ∃ x, own a x) a
      ↔ t.resolve.table.MostDerived c (fun a => declared a ≠ none) a := by
  refine mostDerived_congr fun b hcb => ?_
  rw [Option.ne_none_iff_exists']
  exact exists_congr fun x =>
    (hown b (t.resolve_length ▸ h.resolve_inside.ancestor_lt hcb) x).symm

theorem Fresh.foremost_iff_declared (hno : ∀ x, ¬ own c x) {a : ClassId} :
    t.resolve.table.Foremost own c a
      ↔ t.resolve.table.MostDerived c (fun a => declared a ≠ none) a := by
  rw [h.foremost_iff hb hno, h.mostDerived_declared hown]

include hc

/-- **The candidates for a name** are the most derived declarations. -/
theorem Fresh.mem_candidates_iff (hno : ∀ x, ¬ own c x) {y : ClassId × α} :
    y ∈ t.ancestry.mostDerived (declaringAncestors (t.resolve.table.linearization c) declared)
      ↔ t.resolve.table.Foremost own c y.1 ∧ own y.1 y.2 := by
  rw [h.mem_mostDerived hc hb, h.foremost_iff_declared hb hown hno]
  exact and_congr_right fun hmost =>
    hown y.1 (t.resolve_length ▸ h.resolve_inside.ancestor_lt hmost.ancestor) y.2

/-- **The first candidate** is the first of the most derived declarations. -/
theorem Fresh.firstForemost_iff (hno : ∀ x, ¬ own c x) {x : α} :
    t.resolve.table.FirstForemost own c x
      ↔ (t.ancestry.mostDerived (declaringAncestors (t.resolve.table.linearization c)
          declared)).head?.map (·.2) = some x := by
  rw [h.head?_mostDerived_iff hc hb]
  unfold FirstForemost
  simp only [h.foremost_iff_declared hb hown hno]
  refine exists₃_congr fun before a behind => and_congr_right fun _ =>
    and_congr_right fun hmost => and_congr_left fun _ => ?_
  exact (hown a (t.resolve_length ▸ h.resolve_inside.ancestor_lt hmost.ancestor) x).symm

theorem Fresh.exists_firstForemost (hno : ∀ x, ¬ own c x) {a : ClassId}
    (ha : t.resolve.table.Declaring own c a) : ∃ x, t.resolve.table.FirstForemost own c x := by
  obtain ⟨b, hforemost⟩ := h.exists_foremost hc hb ha
  obtain ⟨x, hx⟩ := hforemost.1.2
  have hmem := (h.mem_candidates_iff hc hb hown hno (y := (b, x))).mpr ⟨hforemost, hx⟩
  obtain ⟨first, hfirst⟩ := Option.ne_none_iff_exists'.mp
    fun hnone => List.ne_nil_of_mem hmem (List.head?_eq_none_iff.mp hnone)
  exact ⟨first.2, (h.firstForemost_iff hc hb hown hno).mpr
    (congrArg (Option.map Prod.snd) hfirst)⟩

end Finished

/-! ## Methods -/

section Methods

variable (h : t.Fresh) (hf : Formed t) {c : ClassId} (hc : c < t.classes.length)
  (hb : ¬ t.resolve.table.Broken c) {name : String}
include h hf

omit h in
theorem Formed.resolve_ownMethod (name : String) (a : ClassId) (_ : a < t.classes.length)
    (m : MethodId) :
    t.resolve.table.declaredMethod a name = some m ↔ t.resolve.table.OwnMethod name a m :=
  (hf.of_declared (resolve_declared t)).declaredMethod_iff

omit h in
theorem Formed.resolve_declaredMethod_eq_none (hc : c < t.classes.length)
    (hno : ∀ m, ¬ t.resolve.table.OwnMethod name c m) :
    t.resolve.table.declaredMethod c name = none :=
  Option.eq_none_iff_forall_ne_some.mpr fun m hm =>
    hno m ((hf.resolve_ownMethod name c hc m).mp hm)

include hc hb

omit hf in
/-- A name that denotes a method is not ambiguous. -/
theorem Fresh.not_ambiguous_of_findMethod {m : MethodId}
    (hm : t.resolve.table.findMethod c name = some m) :
    name ∉ (t.resolve.table.classAt c).members.ambiguous := by
  intro hambiguous
  obtain ⟨hnone, -⟩ := (h.isAmbiguous_iff hc hb).mp (List.contains_iff_mem.mpr hambiguous)
  rw [h.findMethod_eq hc hb, hnone] at hm
  cases hm

/-- A name that is declared nowhere denotes nothing. -/
theorem Fresh.findMethod_absent
    (hnowhere : ∀ a, ¬ t.resolve.table.Declaring (t.resolve.table.OwnMethod name) c a) :
    t.resolve.table.findMethod c name = none
      ∧ name ∉ (t.resolve.table.classAt c).members.ambiguous := by
  have hnone : ∀ a, a = c ∨ t.resolve.table.Ancestor c a →
      t.resolve.table.declaredMethod a name = none := by
    intro a ha
    have hlt : a < t.classes.length := h.atOrAbove_lt hc (ha.imp id fun hca => ⟨hb, hca⟩)
    exact hf.resolve_declaredMethod_eq_none hlt fun m hm => hnowhere a ⟨ha, m, hm⟩
  constructor
  · rw [h.findMethod_eq hc hb]
    refine h.flatMethod?_eq_none hc hb fun hname => ?_
    obtain ⟨a, ha, hdeclared⟩ := mem_methodNames.mp hname
    exact hdeclared (hnone a ((h.mem_linearization hc hb).mp ha))
  · intro hambiguous
    obtain ⟨-, a, ha, hdeclared⟩ :=
      (h.isAmbiguous_iff hc hb).mp (List.contains_iff_mem.mpr hambiguous)
    exact hdeclared (hnone a (Or.inr ha))

variable (hno : ∀ m, ¬ t.resolve.table.OwnMethod name c m)
include hno

/-- **A name on which the most derived declarations agree** denotes the first of
them. -/
theorem Fresh.findMethod_agreed (hagree : t.resolve.table.Agree c name) {m : MethodId}
    (hfirst : t.resolve.table.FirstForemost (t.resolve.table.OwnMethod name) c m) :
    t.resolve.table.findMethod c name = some m := by
  have hown := hf.resolve_ownMethod name
  rw [h.findMethod_eq hc hb]
  unfold flatMethod?
  rw [hf.resolve_declaredMethod_eq_none hc hno]
  refine agreedMethod?_eq_some_iff.mpr
    ⟨(h.firstForemost_iff hc hb hown hno).mp hfirst, fun x hx y hy => ?_⟩
  obtain ⟨hfx, hox⟩ := (h.mem_candidates_iff hc hb hown hno).mp hx
  obtain ⟨hfy, hoy⟩ := (h.mem_candidates_iff hc hb hown hno).mp hy
  exact sameSignature_iff.mpr (hagree x.1 y.1 x.2 y.2 hfx hfy hox hoy).symm

/-- **A name on which they differ** is ambiguous. -/
theorem Fresh.findMethod_differing (hdiffer : ¬ t.resolve.table.Agree c name) :
    t.resolve.table.findMethod c name = none
      ∧ name ∈ (t.resolve.table.classAt c).members.ambiguous := by
  have hown := hf.resolve_ownMethod name
  unfold Agree at hdiffer
  push Not at hdiffer
  obtain ⟨a, b, m, n, ha, hb', hm, hn, htypes⟩ := hdiffer
  have hma := (h.foremost_iff_declared hb hown hno).mp ha
  have hmb := (h.foremost_iff_declared hb hown hno).mp hb'
  have hambiguous : (t.resolve.table.classAt c).members.isAmbiguous name = true := by
    refine (h.isAmbiguous_iff_differ hc hb).mpr
      ⟨hf.resolve_declaredMethod_eq_none hc hno, a, m, b, n, hma, ?_, hmb, ?_,
        fun hsame => htypes (sameSignature_iff.mp hsame).symm⟩
    · exact (hown a (t.resolve_length ▸ h.resolve_inside.ancestor_lt hma.ancestor) m).mpr hm
    · exact (hown b (t.resolve_length ▸ h.resolve_inside.ancestor_lt hmb.ancestor) n).mpr hn
  refine ⟨?_, List.contains_iff_mem.mp hambiguous⟩
  rw [h.findMethod_eq hc hb]
  exact ((h.isAmbiguous_iff hc hb).mp hambiguous).1

omit hno in
/-- **What a method name denotes in a class of a resolved table.** -/
theorem Fresh.denotesMethod : t.resolve.table.DenotesMethod c name where
  absent := h.findMethod_absent hf hc hb
  own := by
    intro m hm
    have hfind := h.findMethod_own hc hb ((hf.resolve_ownMethod name c hc m).mpr hm)
    exact ⟨hfind, h.not_ambiguous_of_findMethod hc hb hfind⟩
  foremost := fun _ ha => h.exists_foremost hc hb ha
  agreed := by
    rintro hno ⟨a, ha⟩ hagree
    obtain ⟨m, hfirst⟩ := h.exists_firstForemost hc hb (hf.resolve_ownMethod name) hno ha
    have hfind := h.findMethod_agreed hf hc hb hno hagree hfirst
    exact ⟨m, hfirst, hfind, h.not_ambiguous_of_findMethod hc hb hfind⟩
  differing := fun hno => h.findMethod_differing hf hc hb hno

end Methods

/-! ## Fields -/

section Fields

variable (h : t.Fresh) (hf : Formed t) {c : ClassId} (hc : c < t.classes.length)
  (hb : ¬ t.resolve.table.Broken c) {name : String}
include hf

theorem Formed.resolve_ownField (name : String) (a : ClassId) (ha : a < t.classes.length)
    (v : VarId) :
    t.resolve.table.declaredField a name = some v ↔ t.resolve.table.OwnField name a v :=
  (hf.of_declared (resolve_declared t)).declaredField_iff (t.resolve_length.symm ▸ ha)

include h hc hb

theorem Fresh.findField_own {v : VarId} (hv : t.resolve.table.OwnField name c v) :
    t.resolve.table.findField c name = some v :=
  (h.findField_iff hf hc hb).mpr (Or.inl ((hf.resolve_ownField name c hc v).mpr hv))

/-- **A field that a class inherits** is the first of the most derived ones. -/
theorem Fresh.findField_inherited (hno : ∀ v, ¬ t.resolve.table.OwnField name c v) {v : VarId} :
    t.resolve.table.findField c name = some v
      ↔ t.resolve.table.FirstForemost (t.resolve.table.OwnField name) c v := by
  have hnone : t.resolve.table.declaredField c name = none :=
    Option.eq_none_iff_forall_ne_some.mpr fun w hw =>
      hno w ((hf.resolve_ownField name c hc w).mp hw)
  rw [h.firstForemost_iff hc hb (hf.resolve_ownField name) hno, h.findField_eq hf hc hb]
  unfold flatField?
  rw [hnone]
  rfl

/-- **What a field name denotes in a class of a resolved table.** -/
theorem Fresh.denotesField : t.resolve.table.DenotesField c name where
  found := by
    constructor
    · intro hsome
      obtain ⟨v, hv⟩ := Option.isSome_iff_exists.mp hsome
      obtain ⟨a, ha, hdeclared⟩ := h.findField_declared hf hv
      exact ⟨a, ha.imp id And.right, v,
        (hf.resolve_ownField name a (h.atOrAbove_lt hc ha) v).mp hdeclared⟩
    · rintro ⟨a, ha⟩
      by_cases hself : ∃ v, t.resolve.table.OwnField name c v
      · obtain ⟨v, hv⟩ := hself
        exact Option.isSome_iff_exists.mpr ⟨v, h.findField_own hf hc hb hv⟩
      · obtain ⟨v, hfirst⟩ := h.exists_firstForemost hc hb (hf.resolve_ownField name)
          (not_exists.mp hself) ha
        exact Option.isSome_iff_exists.mpr
          ⟨v, (h.findField_inherited hf hc hb (not_exists.mp hself)).mpr hfirst⟩
  own := fun _ => h.findField_own hf hc hb
  inherited := fun hno _ => h.findField_inherited hf hc hb hno

end Fields

/-! ## One class after the other -/

/-- Give a class its members. -/
def flattenClass (g : Ancestry) (t : SymbolTable) (c : ClassId) : SymbolTable :=
  t.modifyClass c fun k => { k with members := t.membersOf g c }

/-- **The state of flattening a table**: the classes that had their turn have their
members. -/
structure Flattening (g : Ancestry) (t u : SymbolTable) (done : List ClassId) : Prop where
  /-- Nothing else is changed. -/
  bare : u.bare = t.bare
  /-- What is done is finished. -/
  finished : ∀ c ∈ done, c < t.classes.length → (u.classAt c).members = t.membersOf g c

theorem length_of_bare (h : u.bare = t.bare) : u.classes.length = t.classes.length := by
  have hlength := congrArg (fun s : SymbolTable => s.classes.length) h
  unfold bare at hlength
  simpa using hlength

theorem flattenClass_bare (g : Ancestry) (c : ClassId) : (t.flattenClass g c).bare = t.bare := by
  have hclasses : (t.flattenClass g c).classes.map ClassSymbol.bare
      = t.classes.map ClassSymbol.bare := by
    refine List.ext_getElem? fun d => ?_
    unfold flattenClass modifyClass
    rw [List.getElem?_map, List.getElem?_modify, Option.map_eq_map, Option.map_map,
      List.getElem?_map]
    refine Option.map_congr fun k _ => ?_
    show (if c = d then { k with members := t.membersOf g c } else k).bare = k.bare
    split
    · rfl
    · rfl
  exact congrArg (fun cs => ({ t with classes := cs } : SymbolTable)) hclasses

/-- Flattening a class finishes it and leaves the others alone. -/
theorem Flattening.flattenClass {g : Ancestry} {done : List ClassId} (h : Flattening g t u done)
    (c : ClassId) : Flattening g t (u.flattenClass g c) (done ++ [c]) where
  bare := (flattenClass_bare g c).trans h.bare
  finished := by
    intro d hd hlt
    have hlength := length_of_bare h.bare
    by_cases hdc : d = c
    · subst hdc
      unfold SymbolTable.flattenClass
      rw [modifyClass_classAt_self (hlength.symm ▸ hlt)]
      show u.membersOf g d = t.membersOf g d
      rw [← bare_membersOf, h.bare, bare_membersOf]
    · unfold SymbolTable.flattenClass
      rw [modifyClass_classAt_ne hdc]
      exact h.finished d ((List.mem_append.mp hd).resolve_right (hdc ∘ List.mem_singleton.mp)) hlt

/-- **Flattening classes one after the other finishes all of them.** -/
theorem Flattening.foldl {g : Ancestry} (order : List ClassId) {done : List ClassId}
    (h : Flattening g t u done) :
    Flattening g t (order.foldl (SymbolTable.flattenClass g) u) (done ++ order) := by
  induction order generalizing u done with
  | nil =>
    rw [List.append_nil]
    exact h
  | cons c rest ih =>
    rw [List.foldl_cons, List.append_cons]
    exact ih (h.flattenClass c)

/-- Tables that may only differ in the members of their classes, and do not. -/
theorem eq_of_bare (hbare : u.bare = t.bare)
    (hmembers : ∀ c < t.classes.length, (u.classAt c).members = (t.classAt c).members) :
    u = t := by
  have hclass : ∀ c < t.classes.length, u.classAt c = t.classAt c := by
    intro c hc
    have hstatic : (u.classAt c).bare = (t.classAt c).bare := by
      rw [← bare_classAt, hbare, bare_classAt]
    calc u.classAt c = { (u.classAt c).bare with members := (u.classAt c).members } := rfl
      _ = { (t.classAt c).bare with members := (t.classAt c).members } := by
        rw [hstatic, hmembers c hc]
  have hclasses := classes_eq_of_classAt (length_of_bare hbare) hclass
  calc u = { u.bare with classes := u.classes } := rfl
    _ = { t.bare with classes := t.classes } := by rw [hbare, hclasses]

section Finished

variable (h : t.Fresh)
include h

theorem Fresh.ofTable_resolve : Ancestry.ofTable t.resolve.table = t.ancestry := by
  have hparents : t.resolve.table.classes.map (·.resolvedParents)
      = t.parented.classes.map (·.resolvedParents) := by
    rw [← map_classAt t.resolve.table, ← map_classAt t.parented, List.map_map, List.map_map,
      classIds_of_declared ((resolve_declared t).trans t.parented_declared.symm)]
    exact List.map_congr_left fun c _ => h.resolve_parents c
  unfold ancestry Ancestry.ofTable
  rw [hparents]

/-- A table in which every class has had its turn is the resolved one. -/
theorem Fresh.eq_of_flattening {done : List ClassId}
    (hend : Flattening t.ancestry t.resolve.table u done)
    (hall : ∀ c < t.classes.length, c ∈ done) : u = t.resolve.table := by
  refine eq_of_bare hend.bare fun c hc => ?_
  rw [hend.finished c (hall c (t.resolve_length ▸ hc)) hc,
    h.resolve_members (t.resolve_length ▸ hc)]

/-- **Whatever the order in which classes have their turns**, and whatever members
they have before it, they end up with the same ones. -/
theorem Fresh.foldl_flattenClass {order : List ClassId} (hbare : u.bare = t.resolve.table.bare)
    (hall : ∀ c < t.classes.length, c ∈ order) :
    order.foldl (flattenClass (Ancestry.ofTable t.resolve.table)) u = t.resolve.table := by
  have hstart : Flattening t.ancestry t.resolve.table u [] := ⟨hbare, fun _ hc => nomatch hc⟩
  rw [h.ofTable_resolve]
  exact h.eq_of_flattening (hstart.foldl order) hall

end Finished

end SymbolTable

open SymbolTable

/-- **The members of every class of a program.** In a class that is not broken, a
name denotes what is declared under it by the most derived of the classes at or
above it that declare it; a broken class has what it declares. Neither depends on
the order in which the classes have their turns. -/
theorem members_most_derived (p : Program) :
    let t := (collect p).table.resolve.table
    (∀ c < t.classes.length, ¬ t.Broken c → ∀ name,
        t.DenotesMethod c name ∧ t.DenotesField c name)
      ∧ (∀ c, t.Broken c →
        (∀ name m, t.findMethod c name = some m ↔ t.OwnMethod name c m)
          ∧ (∀ name v, t.findField c name = some v ↔ t.OwnField name c v)
          ∧ (t.classAt c).members.ambiguous = [])
      ∧ ∀ (u : SymbolTable) (order : List ClassId), u.bare = t.bare →
        (∀ c < t.classes.length, c ∈ order) →
        order.foldl (flattenClass (Ancestry.ofTable t)) u = t := by
  intro t
  have h := collect_fresh p
  have hf := collect_formed p
  have hlength : t.classes.length = (collect p).table.classes.length := resolve_length _
  refine ⟨fun c hc hb name => ?_, fun c hb => ?_, fun u order hbare hall => ?_⟩
  · have hc := hlength ▸ hc
    exact ⟨h.denotesMethod hf hc hb, h.denotesField hf hc hb⟩
  · have hc : c < (collect p).table.classes.length := hlength ▸ lt_of_broken hb
    refine ⟨fun name m => ?_, fun name v => ?_, h.ambiguous_of_broken hb⟩
    · rw [h.findMethod_of_broken hb]
      exact hf.resolve_ownMethod name c hc m
    · rw [h.findField_of_broken hf hb]
      exact hf.resolve_ownField name c hc v
  · exact h.foldl_flattenClass hbare fun c hc => hall c (hlength.symm ▸ hc)

/-- A class with a method `m`, or without. -/
def diamondClass (name : String) (parents : List String) (declares : Bool) : ClassDecl where
  name := ⟨name, {}⟩
  parents := parents.map (⟨·, {}⟩)
  members :=
    if declares then
      [.method ⟨⟨"m", {}⟩, [⟨⟨"self", {}⟩, none, {}⟩], none, [], {}, {}⟩]
    else []
  span := {}

/-- Two parents of one base, of which the second overrides what the base declares. -/
def diamond : Program where
  classes := [diamondClass "Base" [] true, diamondClass "Left" ["Base"] false,
    diamondClass "Right" ["Base"] true, diamondClass "Both" ["Left", "Right"] false]
  span := {}

/-- **The base stands before the class that overrides it**, and what the name denotes
is the method of that class all the same. -/
theorem members_most_derived_diamond :
    let t := (collect diamond).table.resolve.table
    t.linearization 3 = [3, 1, 0, 2] ∧ (t.methodAt 1).owner = 2 ∧ ¬ t.Broken 3
      ∧ t.DenotesMethod 3 "m" ∧ t.findMethod 3 "m" = some 1 := by
  intro t
  have hb : ¬ t.Broken 3 := by
    unfold Broken
    decide +kernel
  have hm := ((members_most_derived diamond).1 3 (by decide +kernel) hb "m").1
  exact ⟨by decide +kernel, by decide +kernel, hb, hm, by decide +kernel⟩

end Heritage
