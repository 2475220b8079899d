import Heritage.Proofs.Formed
import Heritage.Proofs.Resolution

/-!
# What a name denotes in a class

In a class that is not broken, a name denotes the class's own declaration if
there is one. Otherwise the ancestors that declare it compete, and those that
another of them derives from drop out; some always remain. Of the fields that
remain the first in the linearization is denoted; of the methods too, if all of
them take and return the same types, and else the name is ambiguous.
-/

namespace Heritage

namespace SymbolTable

variable {t : SymbolTable}

/-! ## Lists of bindings -/

/-- Looking a name up among the bindings made for some names. -/
theorem lookup_filterMap {α : Type} (names : List String) (f : String → Option α)
    (name : String) :
    (names.filterMap fun n => (f n).map (n, ·)).lookup name
      = if name ∈ names then f name else none := by
  induction names with
  | nil => rfl
  | cons n rest ih =>
    rw [List.filterMap_cons]
    by_cases hn : name = n
    · subst hn
      rw [if_pos List.mem_cons_self]
      cases hf : f name with
      | none =>
        dsimp only [Option.map_none]
        rw [ih, hf]
        split
        · rfl
        · rfl
      | some a => simp
    · have hmem : name ∈ n :: rest ↔ name ∈ rest := by simp [hn]
      rw [if_congr hmem rfl rfl, ← ih]
      cases f n with
      | none => rfl
      | some a =>
        dsimp only [Option.map_some]
        rw [List.lookup_cons, beq_eq_false_iff_ne.mpr hn]

/-- Looking a name up among symbols bound to their names is searching them. -/
theorem lookup_map_name (ids : List Nat) (nameOf : Nat → String) (name : String) :
    (ids.map fun i => (nameOf i, i)).lookup name
      = (ids.filter fun i => nameOf i == name).head? := by
  induction ids with
  | nil => rfl
  | cons i rest ih =>
    rw [List.map_cons, List.lookup_cons, List.filter_cons]
    by_cases h : nameOf i = name
    · rw [beq_iff_eq.mpr h, beq_iff_eq.mpr h.symm]
      rfl
    · rw [beq_eq_false_iff_ne.mpr h, beq_eq_false_iff_ne.mpr (Ne.symm h)]
      exact ih

/-- The first binding that passes is that of the first element that does. -/
theorem head?_filter_bindings {α : Type} {l : List ClassId} (declared : ClassId → Option α)
    {p : ClassId × α → Bool} {Q : ClassId → Prop} {m : α}
    (pass : ∀ a ∈ l, ∀ x, declared a = some x → (p (a, x) = true ↔ Q a))
    (known : ∀ a, Q a → declared a ≠ none) :
    ((l.filterMap fun a => (declared a).map (a, ·)).filter p).head?.map (·.2) = some m
      ↔ ∃ before a behind, l = before ++ a :: behind ∧ Q a ∧ declared a = some m
        ∧ ∀ b ∈ before, ¬ Q b := by
  induction l with
  | nil => simp
  | cons a rest ih =>
    have ih := ih (fun b hb => pass b (List.mem_cons_of_mem a hb))
    -- If the first element passes it is the one; if it does not, it can be skipped.
    have skip : ¬ Q a → ((∃ before b behind, a :: rest = before ++ b :: behind ∧ Q b
          ∧ declared b = some m ∧ ∀ d ∈ before, ¬ Q d)
        ↔ ∃ before b behind, rest = before ++ b :: behind ∧ Q b ∧ declared b = some m
          ∧ ∀ d ∈ before, ¬ Q d) := by
      intro hQ
      constructor
      · rintro ⟨before, b, behind, hl, hb, hm, hno⟩
        cases before with
        | nil =>
          obtain ⟨rfl, -⟩ := List.cons.inj hl
          exact absurd hb hQ
        | cons d before =>
          exact ⟨before, b, behind, (List.cons.inj hl).2, hb, hm,
            fun e he => hno e (List.mem_cons_of_mem d he)⟩
      · rintro ⟨before, b, behind, rfl, hb, hm, hno⟩
        refine ⟨a :: before, b, behind, rfl, hb, hm, fun d hd => ?_⟩
        rcases List.mem_cons.mp hd with rfl | hd
        · exact hQ
        · exact hno d hd
    rw [List.filterMap_cons]
    cases hx : declared a with
    | none =>
      rw [skip (fun hQ => known a hQ hx), ← ih]
      rfl
    | some x =>
      have hp := pass a List.mem_cons_self x hx
      dsimp only [Option.map_some]
      rw [List.filter_cons]
      by_cases hQ : Q a
      · rw [if_pos (hp.mpr hQ)]
        constructor
        · intro hm
          exact ⟨[], a, rest, rfl, hQ, hx.trans hm, fun b hb => (List.not_mem_nil hb).elim⟩
        · rintro ⟨before, b, behind, hl, hb, hm, hno⟩
          cases before with
          | nil =>
            obtain ⟨rfl, -⟩ := List.cons.inj hl
            exact hx.symm.trans hm
          | cons d before =>
            obtain ⟨rfl, -⟩ := List.cons.inj hl
            exact absurd hQ (hno a List.mem_cons_self)
      · rw [if_neg (fun h => hQ (hp.mp h)), skip hQ, ← ih]

/-! ## Own declarations -/

/-- The method that a class declares, among its methods. -/
theorem declaredMethod_eq (t : SymbolTable) (c : ClassId) (name : String) :
    t.declaredMethod c name
      = ((t.methodsOf c).filter fun m => (t.methodAt m).name == name).head? := by
  rw [declaredMethod, findIdx?_eq_head?, positions_and _ _ default]
  rfl

/-- The field that a class declares, among its fields. -/
theorem declaredField_eq (h : Formed t) {c : ClassId} (hc : c < t.classes.length)
    (name : String) :
    t.declaredField c name
      = ((t.fieldsOf c).filter fun v => (t.varAt v).name == name).head? := by
  have hfield : ∀ v ∈ t.vars, (v.scope == (t.classAt c).scope && v.name == name)
      = ((v.scope == (t.classAt c).scope && v.kind == .field) && v.name == name) := by
    intro v hv
    by_cases hs : v.scope = (t.classAt c).scope
    · rw [h.kind_eq_field hv hc hs, beq_self_eq_true, Bool.and_true]
    · rw [beq_eq_false_iff_ne.mpr hs]
      rfl
  rw [declaredField, lookupIn, findIdx?_eq_head?, positions_congr hfield,
    positions_and _ _ default]
  rfl

theorem mem_methodNames {l : List ClassId} {name : String} :
    name ∈ t.methodNames l ↔ ∃ a ∈ l, t.declaredMethod a name ≠ none := by
  unfold methodNames
  rw [List.mem_eraseDups, List.mem_flatMap]
  refine exists_congr fun a => and_congr_right fun _ => ?_
  rw [declaredMethod_eq, Ne, List.head?_eq_none_iff, List.filter_eq_nil_iff, List.mem_map]
  simp only [beq_iff_eq, not_forall, not_not]
  exact ⟨fun ⟨m, hm, hn⟩ => ⟨m, hm, hn⟩, fun ⟨m, hm, hn⟩ => ⟨m, hm, hn⟩⟩

theorem mem_fieldNames (h : Formed t) {l : List ClassId} (hl : ∀ a ∈ l, a < t.classes.length)
    {name : String} :
    name ∈ t.fieldNames l ↔ ∃ a ∈ l, t.declaredField a name ≠ none := by
  unfold fieldNames
  rw [List.mem_eraseDups, List.mem_flatMap]
  refine exists_congr fun a => and_congr_right fun ha => ?_
  rw [declaredField_eq h (hl a ha), Ne, List.head?_eq_none_iff, List.filter_eq_nil_iff,
    List.mem_map]
  simp only [beq_iff_eq, not_forall, not_not]
  exact ⟨fun ⟨m, hm, hn⟩ => ⟨m, hm, hn⟩, fun ⟨m, hm, hn⟩ => ⟨m, hm, hn⟩⟩

/-! ## Well-formedness survives resolution -/

theorem Formed.of_declared {u : SymbolTable} (h : Formed t) (hu : u.declared = t.declared) :
    Formed u := by
  have hscopes := scopes_of_declared hu
  have hclasses : u.classes.map ClassSymbol.declared = t.classes.map ClassSymbol.declared :=
    congrArg SymbolTable.classes hu
  have hmethods : u.methods.map MethodSymbol.declared = t.methods.map MethodSymbol.declared :=
    congrArg SymbolTable.methods hu
  have hvars : u.vars.map VarSymbol.declared = t.vars.map VarSymbol.declared :=
    congrArg SymbolTable.vars hu
  -- What was declared at a position of the one table was declared there in the other.
  have hmethod : ∀ m ∈ u.methods, ∃ m' ∈ t.methods, m'.declared = m.declared := by
    intro m hm
    have := List.mem_map_of_mem (f := MethodSymbol.declared) hm
    rw [hmethods] at this
    exact List.mem_map.mp this
  have hvar : ∀ v ∈ u.vars, ∃ v' ∈ t.vars, v'.declared = v.declared := by
    intro v hv
    have := List.mem_map_of_mem (f := VarSymbol.declared) hv
    rw [hvars] at this
    exact List.mem_map.mp this
  have hclassScope : ∀ c, (u.classAt c).scope = (t.classAt c).scope :=
    fun c => (ClassSymbol.of_declared_eq (classAt_of_declared hu c)).2.2.1
  have project : ∀ {α β γ : Type} (f : α → β) (g : β → γ) {xs ys : List α},
      xs.map f = ys.map f → xs.map (g ∘ f) = ys.map (g ∘ f) := by
    intro α β γ f g xs ys hxy
    rw [← List.map_map, hxy, List.map_map]
  refine ⟨hscopes ▸ h.root, hscopes ▸ h.parent_lt, ?_, ?_, ?_, ?_, ?_, ?_, ?_, ?_, ?_⟩
  · intro c k hk
    have hat : t.classes[c]?.map ClassSymbol.declared = some k.declared := by
      rw [← List.getElem?_map, ← hclasses, List.getElem?_map, hk]
      rfl
    obtain ⟨k', hk', hd⟩ := Option.map_eq_some_iff.mp hat
    rw [hscopes, ← h.class_scope hk']
    rw [(ClassSymbol.of_declared_eq hd).2.2.1]
  · intro m hm
    obtain ⟨m', hm', hd⟩ := hmethod m hm
    rw [classes_length_of_declared hu]
    rw [← (MethodSymbol.of_declared_eq hd).1]
    exact h.method_owner m' hm'
  · intro m hm
    obtain ⟨m', hm', hd⟩ := hmethod m hm
    obtain ⟨howner, -, -, hscope, -⟩ := MethodSymbol.of_declared_eq hd
    rw [hscopes, hclassScope, ← howner, ← hscope]
    exact h.method_scope m' hm'
  · exact (project _ MethodSymbol.scope hmethods ▸ h.method_scopes :
      (u.methods.map (MethodSymbol.scope ∘ MethodSymbol.declared)).Nodup)
  · intro v hv
    obtain ⟨v', hv', hd⟩ := hvar v hv
    obtain ⟨-, -, hscope, hkind, -⟩ := VarSymbol.of_declared_eq hd
    rw [hscopes, ← hscope, ← hkind]
    exact h.var_scope v' hv'
  · exact (project _ ClassSymbol.name hclasses ▸ h.class_names :
      (u.classes.map (ClassSymbol.name ∘ ClassSymbol.declared)).Nodup)
  · exact (project _ (fun v : VarSymbol => (v.scope, v.name)) hvars ▸ h.var_names :
      (u.vars.map ((fun v : VarSymbol => (v.scope, v.name)) ∘ VarSymbol.declared)).Nodup)
  · exact (project _ (fun m : MethodSymbol => (m.owner, m.name)) hmethods ▸ h.method_names :
      (u.methods.map ((fun m : MethodSymbol => (m.owner, m.name)) ∘ MethodSymbol.declared)).Nodup)
  · intro m hm v hv hs
    obtain ⟨m', hm', hmd⟩ := hmethod m hm
    obtain ⟨v', hv', hvd⟩ := hvar v hv
    obtain ⟨howner, hmname, -⟩ := MethodSymbol.of_declared_eq hmd
    obtain ⟨hvname, -, hscope, -⟩ := VarSymbol.of_declared_eq hvd
    rw [← hvname, ← hmname]
    refine h.member_names m' hm' v' hv' ?_
    rw [hscope, howner, hs, hclassScope]

/-! ## The most derived declarations -/

/-- **An ancestor that declares something, and that no other such ancestor
derives from.** -/
structure MostDerived (t : SymbolTable) (c : ClassId) (declares : ClassId → Prop) (a : ClassId) :
    Prop where
  /-- It is an ancestor. -/
  ancestor : t.Ancestor c a
  /-- It declares it. -/
  holds : declares a
  /-- No other one derives from it. -/
  overridden : ∀ b, t.Ancestor c b → declares b → ¬ t.Ancestor b a

/-- A list that a transitive relation without cycles relates has an element that
nothing in the list is related to. -/
theorem exists_minimal {α : Type} {r : α → α → Prop} {l : List α} (hne : l ≠ [])
    (trans : ∀ x ∈ l, ∀ y ∈ l, ∀ z ∈ l, r x y → r y z → r x z) (irrefl : ∀ x ∈ l, ¬ r x x) :
    ∃ x ∈ l, ∀ y ∈ l, ¬ r y x := by
  induction l with
  | nil => exact absurd rfl hne
  | cons a rest ih =>
    by_cases hrest : rest = []
    · subst hrest
      refine ⟨a, List.mem_cons_self, fun y hy => ?_⟩
      rw [List.mem_singleton.mp hy]
      exact irrefl a List.mem_cons_self
    · have up : ∀ {x}, x ∈ rest → x ∈ a :: rest := List.mem_cons_of_mem a
      obtain ⟨x, hx, hmin⟩ := ih hrest
        (fun x hx y hy z hz => trans x (up hx) y (up hy) z (up hz)) (fun x hx => irrefl x (up hx))
      by_cases hax : r a x
      · refine ⟨a, List.mem_cons_self, fun y hy hya => ?_⟩
        rcases List.mem_cons.mp hy with rfl | hy
        · exact irrefl y List.mem_cons_self hya
        · exact hmin y hy (trans y (up hy) a List.mem_cons_self x (up hx) hya hax)
      · refine ⟨x, up hx, fun y hy => ?_⟩
        rcases List.mem_cons.mp hy with rfl | hy
        · exact hax
        · exact hmin y hy

section Finished

variable (h : t.Fresh)
include h

/-- The linearization of a class without the class. -/
theorem Fresh.linearization_tail {c : ClassId} (hc : c < t.classes.length)
    (hb : ¬ t.resolve.table.Broken c) :
    t.resolve.table.linearization c = c :: (t.resolve.table.linearization c).drop 1
      ∧ ∀ a, a ∈ (t.resolve.table.linearization c).drop 1 ↔ t.resolve.table.Ancestor c a := by
  have heq := h.linearization_eq hc hb
  rw [List.eraseDups_cons] at heq
  refine ⟨by rw [heq, List.drop_one, List.tail_cons], fun a => ?_⟩
  have hmem := h.mem_linearization (a := a) hc hb
  have hdrop : a ∈ (t.resolve.table.linearization c).drop 1
      ↔ a ∈ t.resolve.table.linearization c ∧ a ≠ c := by
    rw [heq, List.drop_one, List.tail_cons, List.mem_eraseDups, List.mem_filter, List.mem_cons,
      List.mem_eraseDups, List.mem_filter]
    simp only [Bool.not_eq_true', beq_eq_false_iff_ne]
    constructor
    · rintro ⟨ha, hne⟩
      exact ⟨Or.inr ⟨ha, hne⟩, hne⟩
    · rintro ⟨rfl | ha, hne⟩
      · exact absurd rfl hne
      · exact ha
  rw [hdrop, hmem]
  constructor
  · rintro ⟨rfl | ha, hne⟩
    · exact absurd rfl hne
    · exact ha
  · intro ha
    refine ⟨Or.inr ha, ?_⟩
    rintro rfl
    exact h.acyclic hb ha

theorem Fresh.mem_declaringAncestors {α : Type} {c : ClassId} (hc : c < t.classes.length)
    (hb : ¬ t.resolve.table.Broken c) {declared : ClassId → Option α} {x : ClassId × α} :
    x ∈ declaringAncestors (t.resolve.table.linearization c) declared
      ↔ t.resolve.table.Ancestor c x.1 ∧ declared x.1 = some x.2 := by
  unfold declaringAncestors
  rw [List.mem_filterMap]
  constructor
  · rintro ⟨a, ha, hx⟩
    obtain ⟨m, hm, rfl⟩ := Option.map_eq_some_iff.mp hx
    exact ⟨((h.linearization_tail hc hb).2 a).mp ha, hm⟩
  · rintro ⟨ha, hm⟩
    exact ⟨x.1, ((h.linearization_tail hc hb).2 x.1).mpr ha, by rw [hm]; rfl⟩

/-- **The competitors that remain** are the declarations of the most derived
ancestors that declare. -/
theorem Fresh.mem_mostDerived {α : Type} {c : ClassId} (hc : c < t.classes.length)
    (hb : ¬ t.resolve.table.Broken c) {declared : ClassId → Option α} {x : ClassId × α} :
    x ∈ t.ancestry.mostDerived (declaringAncestors (t.resolve.table.linearization c) declared)
      ↔ t.resolve.table.MostDerived c (fun a => declared a ≠ none) x.1
        ∧ declared x.1 = some x.2 := by
  unfold Ancestry.mostDerived
  rw [List.mem_filter, h.mem_declaringAncestors hc hb, Bool.not_eq_true', List.any_eq_false]
  constructor
  · rintro ⟨⟨ha, hm⟩, hno⟩
    refine ⟨⟨ha, by rw [hm]; exact Option.some_ne_none _, fun b hcb hdb hba => ?_⟩, hm⟩
    obtain ⟨m, hm'⟩ := Option.ne_none_iff_exists'.mp hdb
    refine hno (b, m) ((h.mem_declaringAncestors hc hb).mpr ⟨hcb, hm'⟩)
      (h.isSubclassOf_iff.mpr ⟨?_, hba⟩)
    rintro rfl
    exact h.acyclic (h.not_broken_of_ancestor hb hcb) hba
  · rintro ⟨hd, hm⟩
    refine ⟨⟨hd.ancestor, hm⟩, fun y hy hsub => ?_⟩
    obtain ⟨hcy, hym⟩ := (h.mem_declaringAncestors hc hb).mp hy
    exact hd.overridden y.1 hcy (by rw [hym]; exact Option.some_ne_none _)
      (h.isSubclassOf_iff.mp hsub).2

/-- **Some declaration always remains.** -/
theorem Fresh.exists_mostDerived {c a : ClassId} (hc : c < t.classes.length)
    (hb : ¬ t.resolve.table.Broken c) (declares : ClassId → Prop)
    (ha : t.resolve.table.Ancestor c a) (hd : declares a) :
    ∃ a, t.resolve.table.MostDerived c declares a := by
  classical
  have hmem : ∀ x, x ∈ ((t.resolve.table.linearization c).drop 1).filter (declares ·)
      ↔ t.resolve.table.Ancestor c x ∧ declares x := by
    intro x
    rw [List.mem_filter, (h.linearization_tail hc hb).2, decide_eq_true_iff]
  obtain ⟨x, hx, hmin⟩ := exists_minimal (r := t.resolve.table.Ancestor)
    (List.ne_nil_of_mem ((hmem a).mpr ⟨ha, hd⟩))
    (fun _ _ _ _ _ _ hxy hyz => hxy.trans hyz)
    (fun x hx => h.acyclic (h.not_broken_of_ancestor hb ((hmem x).mp hx).1))
  obtain ⟨hcx, hdx⟩ := (hmem x).mp hx
  exact ⟨x, hcx, hdx, fun b hcb hdb => hmin b ((hmem b).mpr ⟨hcb, hdb⟩)⟩

/-! ## Methods -/

theorem Fresh.members_of_broken {c : ClassId} (hb : t.resolve.table.Broken c) :
    (t.resolve.table.classAt c).members = t.resolve.table.ownMembers c :=
  (h.resolve_members (t.resolve_length ▸ lt_of_broken hb)).trans (if_pos hb)

theorem Fresh.members_of_not_broken {c : ClassId} (hc : c < t.classes.length)
    (hb : ¬ t.resolve.table.Broken c) :
    (t.resolve.table.classAt c).members = t.resolve.table.flatMembers t.ancestry c :=
  (h.resolve_members hc).trans (if_neg hb)

theorem Fresh.self_mem_linearization {c : ClassId} (hc : c < t.classes.length)
    (hb : ¬ t.resolve.table.Broken c) : c ∈ t.resolve.table.linearization c :=
  (h.mem_linearization hc hb).mpr (Or.inl rfl)

/-- A name that no class of the linearization declares denotes no method. -/
theorem Fresh.flatMethod?_eq_none {c : ClassId} (hc : c < t.classes.length)
    (hb : ¬ t.resolve.table.Broken c) {name : String}
    (hno : name ∉ t.resolve.table.methodNames (t.resolve.table.linearization c)) :
    t.resolve.table.flatMethod? t.ancestry c name = none := by
  have hnone : ∀ a ∈ t.resolve.table.linearization c,
      t.resolve.table.declaredMethod a name = none := by
    intro a ha
    by_contra hd
    exact hno (mem_methodNames.mpr ⟨a, ha, hd⟩)
  have hcand : t.resolve.table.methodCandidates t.ancestry c name = [] := by
    refine List.eq_nil_iff_forall_not_mem.mpr (fun x hx => ?_)
    obtain ⟨hd, hm⟩ := (h.mem_mostDerived hc hb).mp hx
    have := hnone x.1 ((h.mem_linearization hc hb).mpr (Or.inr hd.ancestor))
    rw [this] at hm
    cases hm
  unfold flatMethod?
  rw [hnone c (h.self_mem_linearization hc hb), hcand]
  rfl

/-- **The method that a name denotes in a class.** -/
theorem Fresh.findMethod_eq {c : ClassId} (hc : c < t.classes.length)
    (hb : ¬ t.resolve.table.Broken c) (name : String) :
    t.resolve.table.findMethod c name = t.resolve.table.flatMethod? t.ancestry c name := by
  unfold findMethod
  rw [h.members_of_not_broken hc hb]
  unfold flatMembers Members.method?
  rw [lookup_filterMap]
  split
  · rfl
  · rename_i hno
    exact (h.flatMethod?_eq_none hc hb hno).symm

/-- In a broken class a name denotes what the class declares. -/
theorem Fresh.findMethod_of_broken {c : ClassId} (hb : t.resolve.table.Broken c)
    (name : String) :
    t.resolve.table.findMethod c name = t.resolve.table.declaredMethod c name := by
  unfold findMethod
  rw [h.members_of_broken hb, declaredMethod_eq]
  exact lookup_map_name _ _ name

/-- **A name is ambiguous** if ancestors declare it and it denotes nothing. -/
theorem Fresh.isAmbiguous_iff {c : ClassId} (hc : c < t.classes.length)
    (hb : ¬ t.resolve.table.Broken c) {name : String} :
    (t.resolve.table.classAt c).members.isAmbiguous name = true
      ↔ t.resolve.table.flatMethod? t.ancestry c name = none
        ∧ ∃ a, t.resolve.table.Ancestor c a ∧ t.resolve.table.declaredMethod a name ≠ none := by
  rw [h.members_of_not_broken hc hb]
  unfold flatMembers Members.isAmbiguous
  rw [List.contains_iff_mem, List.mem_filter, mem_methodNames, Option.isNone_iff_eq_none, and_comm]
  refine and_congr_right fun hnone => ⟨?_, ?_⟩
  · rintro ⟨a, ha, hd⟩
    rcases (h.mem_linearization hc hb).mp ha with rfl | ha
    · unfold flatMethod? at hnone
      split at hnone
      · cases hnone
      · rename_i hown
        exact absurd hown hd
    · exact ⟨a, ha, hd⟩
  · rintro ⟨a, ha, hd⟩
    exact ⟨a, (h.mem_linearization hc hb).mpr (Or.inr ha), hd⟩

theorem Fresh.ambiguous_of_broken {c : ClassId} (hb : t.resolve.table.Broken c) :
    (t.resolve.table.classAt c).members.ambiguous = [] := by
  rw [h.members_of_broken hb]
  rfl

end Finished

theorem sameSignature_iff {a b : MethodId} :
    t.sameSignature a b = true
      ↔ (t.methodAt a).returnType = (t.methodAt b).returnType
        ∧ t.paramTypes a = t.paramTypes b := by
  unfold sameSignature
  rw [Bool.and_eq_true, beq_iff_eq, beq_iff_eq]

/-- **The candidates agree** if each has the types of each other. -/
theorem agreedMethod?_eq_some_iff {cs : List (ClassId × MethodId)} {m : MethodId} :
    t.agreedMethod? cs = some m
      ↔ (cs.head?.map Prod.snd = some m)
        ∧ ∀ x ∈ cs, ∀ y ∈ cs, t.sameSignature x.2 y.2 = true := by
  cases cs with
  | nil => simp [agreedMethod?]
  | cons first rest =>
    unfold agreedMethod?
    dsimp only
    have hall : ((first :: rest).all fun other => t.sameSignature first.2 other.2) = true
        ↔ ∀ x ∈ first :: rest, ∀ y ∈ first :: rest, t.sameSignature x.2 y.2 = true := by
      rw [List.all_eq_true]
      refine ⟨fun hsame x hx y hy => ?_, fun hsame y hy => hsame first List.mem_cons_self y hy⟩
      have h1 := sameSignature_iff.mp (hsame x hx)
      have h2 := sameSignature_iff.mp (hsame y hy)
      exact sameSignature_iff.mpr ⟨h1.1.symm.trans h2.1, h1.2.symm.trans h2.2⟩
    by_cases hsame : ((first :: rest).all fun other => t.sameSignature first.2 other.2) = true
    · rw [if_pos hsame]
      exact ⟨fun hm => ⟨hm, hall.mp hsame⟩, fun hm => hm.1⟩
    · rw [if_neg hsame]
      exact ⟨fun hm => (Option.some_ne_none m hm.symm).elim, fun hm => (hsame (hall.mpr hm.2)).elim⟩

section Finished

variable (h : t.Fresh)
include h

/-- **A name is ambiguous in a class that does not declare it** exactly if two of
the most derived ancestors that declare it differ in the types. -/
theorem Fresh.isAmbiguous_iff_differ {c : ClassId} (hc : c < t.classes.length)
    (hb : ¬ t.resolve.table.Broken c) {name : String} :
    (t.resolve.table.classAt c).members.isAmbiguous name = true
      ↔ t.resolve.table.declaredMethod c name = none
        ∧ ∃ a m b n,
          t.resolve.table.MostDerived c (fun a => t.resolve.table.declaredMethod a name ≠ none) a
          ∧ t.resolve.table.declaredMethod a name = some m
          ∧ t.resolve.table.MostDerived c (fun a => t.resolve.table.declaredMethod a name ≠ none) b
          ∧ t.resolve.table.declaredMethod b name = some n
          ∧ t.resolve.table.sameSignature m n ≠ true := by
  rw [h.isAmbiguous_iff hc hb]
  unfold flatMethod?
  cases hown : t.resolve.table.declaredMethod c name with
  | some m => simp
  | none =>
    simp only [true_and]
    constructor
    · rintro ⟨hnone, a, ha, hd⟩
      obtain ⟨x, hx⟩ := h.exists_mostDerived hc hb
        (fun a => t.resolve.table.declaredMethod a name ≠ none) ha hd
      obtain ⟨m, hm⟩ := Option.ne_none_iff_exists'.mp hx.holds
      have hmem : (x, m) ∈ t.resolve.table.methodCandidates t.ancestry c name :=
        (h.mem_mostDerived hc hb).mpr ⟨hx, hm⟩
      by_contra hno
      -- If no two differed, the first candidate would be agreed on.
      obtain ⟨y, hy⟩ :
          ∃ y, (t.resolve.table.methodCandidates t.ancestry c name).head? = some y := by
        cases hcs : t.resolve.table.methodCandidates t.ancestry c name with
        | nil =>
          rw [hcs] at hmem
          cases hmem
        | cons y _ => exact ⟨y, rfl⟩
      have hagreed : t.resolve.table.agreedMethod?
          (t.resolve.table.methodCandidates t.ancestry c name) = some y.2 := by
        refine agreedMethod?_eq_some_iff.mpr ⟨by rw [hy]; rfl, fun p hp q hq => ?_⟩
        obtain ⟨hpd, hpm⟩ := (h.mem_mostDerived hc hb).mp hp
        obtain ⟨hqd, hqm⟩ := (h.mem_mostDerived hc hb).mp hq
        by_contra hdiffer
        exact hno ⟨p.1, p.2, q.1, q.2, hpd, hpm, hqd, hqm, hdiffer⟩
      rw [hnone] at hagreed
      cases hagreed
    · rintro ⟨a, m, b, n, ha, hm, hb', hn, hdiffer⟩
      refine ⟨?_, a, ha.ancestor, ha.holds⟩
      by_contra hsome
      obtain ⟨k, hk⟩ := Option.ne_none_iff_exists'.mp hsome
      have hall := (agreedMethod?_eq_some_iff.mp hk).2
      exact hdiffer (hall (a, m) ((h.mem_mostDerived hc hb).mpr ⟨ha, hm⟩) (b, n)
        ((h.mem_mostDerived hc hb).mpr ⟨hb', hn⟩))

/-- **What a method name denotes in a class that does not declare it** is the
declaration of one of the most derived ancestors that do. -/
theorem Fresh.findMethod_inherited {c : ClassId} (hc : c < t.classes.length)
    (hb : ¬ t.resolve.table.Broken c) {name : String} {m : MethodId}
    (hown : t.resolve.table.declaredMethod c name = none)
    (hm : t.resolve.table.findMethod c name = some m) :
    ∃ a, t.resolve.table.MostDerived c (fun a => t.resolve.table.declaredMethod a name ≠ none) a
      ∧ t.resolve.table.declaredMethod a name = some m := by
  rw [h.findMethod_eq hc hb] at hm
  unfold flatMethod? at hm
  rw [hown] at hm
  obtain ⟨x, hx, rfl⟩ := Option.map_eq_some_iff.mp (agreedMethod?_eq_some_iff.mp hm).1
  exact ⟨x.1, (h.mem_mostDerived hc hb).mp (List.mem_of_mem_head? hx)⟩

theorem Fresh.findMethod_own {c : ClassId} (hc : c < t.classes.length)
    (hb : ¬ t.resolve.table.Broken c) {name : String} {m : MethodId}
    (hown : t.resolve.table.declaredMethod c name = some m) :
    t.resolve.table.findMethod c name = some m := by
  rw [h.findMethod_eq hc hb]
  unfold flatMethod?
  rw [hown]

/-! ## Fields -/

theorem Fresh.flatField?_eq_none {c : ClassId} (hf : Formed t) (hc : c < t.classes.length)
    (hb : ¬ t.resolve.table.Broken c) {name : String}
    (hno : name ∉ t.resolve.table.fieldNames (t.resolve.table.linearization c)) :
    t.resolve.table.flatField? t.ancestry c name = none := by
  have hinside : ∀ a ∈ t.resolve.table.linearization c, a < t.resolve.table.classes.length := by
    intro a ha
    rcases (h.mem_linearization hc hb).mp ha with rfl | ha
    · rwa [t.resolve_length]
    · exact h.resolve_inside.ancestor_lt ha
  have hnone : ∀ a ∈ t.resolve.table.linearization c,
      t.resolve.table.declaredField a name = none := by
    intro a ha
    by_contra hd
    exact hno ((mem_fieldNames (hf.of_declared (resolve_declared t)) hinside).mpr ⟨a, ha, hd⟩)
  have hcand : t.resolve.table.fieldCandidates t.ancestry c name = [] := by
    refine List.eq_nil_iff_forall_not_mem.mpr (fun x hx => ?_)
    obtain ⟨hd, hm⟩ := (h.mem_mostDerived hc hb).mp hx
    have := hnone x.1 ((h.mem_linearization hc hb).mpr (Or.inr hd.ancestor))
    rw [this] at hm
    cases hm
  unfold flatField?
  rw [hnone c (h.self_mem_linearization hc hb), hcand]
  rfl

/-- **The field that a name denotes in a class.** -/
theorem Fresh.findField_eq (hf : Formed t) {c : ClassId} (hc : c < t.classes.length)
    (hb : ¬ t.resolve.table.Broken c) (name : String) :
    t.resolve.table.findField c name = t.resolve.table.flatField? t.ancestry c name := by
  unfold findField
  rw [h.members_of_not_broken hc hb]
  unfold flatMembers Members.field?
  rw [lookup_filterMap]
  split
  · rfl
  · rename_i hno
    exact (h.flatField?_eq_none hf hc hb hno).symm

theorem Fresh.findField_of_broken (hf : Formed t) {c : ClassId}
    (hb : t.resolve.table.Broken c) (name : String) :
    t.resolve.table.findField c name = t.resolve.table.declaredField c name := by
  unfold findField
  rw [h.members_of_broken hb,
    declaredField_eq (hf.of_declared (resolve_declared t)) (lt_of_broken hb)]
  exact lookup_map_name _ _ name

/-- **The first of the candidates** is the declaration of the first class of the
linearization that is among the most derived ones. -/
theorem Fresh.head?_mostDerived_iff {α : Type} {c : ClassId} (hc : c < t.classes.length)
    (hb : ¬ t.resolve.table.Broken c) {declared : ClassId → Option α} {m : α} :
    (t.ancestry.mostDerived
        (declaringAncestors (t.resolve.table.linearization c) declared)).head?.map (·.2) = some m
      ↔ ∃ before a behind, t.resolve.table.linearization c = before ++ a :: behind
        ∧ t.resolve.table.MostDerived c (fun a => declared a ≠ none) a ∧ declared a = some m
        ∧ ∀ b ∈ before, ¬ t.resolve.table.MostDerived c (fun a => declared a ≠ none) b := by
  obtain ⟨hcons, htail⟩ := h.linearization_tail hc hb
  have hself : ¬ t.resolve.table.MostDerived c (fun a => declared a ≠ none) c :=
    fun hd => h.acyclic hb hd.ancestor
  have hfirst := head?_filter_bindings declared (l := (t.resolve.table.linearization c).drop 1)
    (m := m)
    (p := fun x => !(declaringAncestors (t.resolve.table.linearization c) declared).any
      fun y => t.ancestry.isSubclassOf y.1 x.1)
    (Q := t.resolve.table.MostDerived c fun a => declared a ≠ none)
    (fun a ha x hx => ?_) (fun a hd => hd.holds)
  · refine Iff.trans hfirst ⟨?_, ?_⟩
    · rintro ⟨before, a, behind, hl, hd, hm, hno⟩
      refine ⟨c :: before, a, behind, by rw [hcons, hl]; rfl, hd, hm, fun b hb' => ?_⟩
      rcases List.mem_cons.mp hb' with rfl | hb'
      · exact hself
      · exact hno b hb'
    · rintro ⟨before, a, behind, hl, hd, hm, hno⟩
      rw [hcons] at hl
      cases before with
      | nil =>
        obtain ⟨rfl, -⟩ := List.cons.inj hl
        exact absurd hd hself
      | cons d rest =>
        exact ⟨rest, a, behind, (List.cons.inj hl).2, hd, hm,
          fun b hb' => hno b (List.mem_cons_of_mem d hb')⟩
  · have hiff := @Fresh.mem_mostDerived t h α c hc hb declared (a, x)
    unfold Ancestry.mostDerived at hiff
    rw [List.mem_filter, h.mem_declaringAncestors hc hb] at hiff
    exact ⟨fun hp => (hiff.mp ⟨⟨(htail a).mp ha, hx⟩, hp⟩).1, fun hd => (hiff.mpr ⟨hd, hx⟩).2⟩

/-- **What a field name denotes**: the class's own field, or else that of the
first class of the linearization among the most derived ones. -/
theorem Fresh.findField_iff (hf : Formed t) {c : ClassId} (hc : c < t.classes.length)
    (hb : ¬ t.resolve.table.Broken c) {name : String} {v : VarId} :
    t.resolve.table.findField c name = some v
      ↔ t.resolve.table.declaredField c name = some v
        ∨ t.resolve.table.declaredField c name = none
          ∧ ∃ before a behind, t.resolve.table.linearization c = before ++ a :: behind
            ∧ t.resolve.table.MostDerived c
              (fun a => t.resolve.table.declaredField a name ≠ none) a
            ∧ t.resolve.table.declaredField a name = some v
            ∧ ∀ b ∈ before, ¬ t.resolve.table.MostDerived c
              (fun a => t.resolve.table.declaredField a name ≠ none) b := by
  rw [h.findField_eq hf hc hb]
  unfold flatField?
  cases hown : t.resolve.table.declaredField c name with
  | some w => simp
  | none =>
    simp only [reduceCtorEq, true_and, false_or]
    exact h.head?_mostDerived_iff hc hb

end Finished

end SymbolTable

end Heritage
