import Heritage.Proofs.FirstOccurrences
import Heritage.Proofs.Limits
import Heritage.Proofs.Recursion
import Heritage.Proofs.Standing
import Heritage.Proofs.Turns

/-!
# Ambiguities are reported at their roots

A call of a method whose name is ambiguous is not reported where it is written, and
an ambiguity that a parent has already is not reported again. What is left are the
roots: the classes in which a name becomes ambiguous. That they are the ones reported
rests on the order of the turns, since whether a parent has the ambiguity is read off
its members, and they are there only after its turn. That they suffice rests on
there being a root at or above every class in which the name is ambiguous.
-/

namespace Heritage

namespace SymbolTable

variable {t u : SymbolTable}

/-! ## What is reported -/

/-- **The report of a method name that is ambiguous in a class**, and the classes it
names. -/
structure Blames (t : SymbolTable) (c : ClassId) (name : String) (candidates : List ClassId)
    (i : Issue) : Prop where
  /-- They stand in the order of the linearization. -/
  ordered : candidates.Sublist (t.linearization c)
  /-- They are the most derived ancestors that declare the method. -/
  mem_iff : ∀ a, a ∈ candidates ↔ t.MostDerived c (fun a => ∃ m, t.OwnMethod name a m) a
  /-- Two of them declare it with different types. -/
  differ : ∃ a ∈ candidates, ∃ b ∈ candidates, a ≠ b
    ∧ ∃ m n, t.OwnMethod name a m ∧ t.OwnMethod name b n ∧ ¬ t.SameTypes m n
  /-- The issue names the class, the method and them. -/
  issue : i = .ambiguous (t.classAt c).name name
    (", ".intercalate (candidates.map fun a => (t.classAt a).name ++ "." ++ name))
    (t.classAt c).span

theorem declaringAncestors_sublist {α : Type} (l : List ClassId) (declared : ClassId → Option α) :
    ((declaringAncestors l declared).map (·.1)).Sublist l := by
  unfold declaringAncestors
  refine List.Sublist.trans ?_ (List.drop_sublist 1 l)
  induction l.drop 1 with
  | nil => exact .slnil
  | cons a rest ih =>
    rw [List.filterMap_cons]
    cases declared a with
    | none => exact ih.cons a
    | some m => exact ih.cons_cons a

section Reports

variable (h : t.Fresh) (hf : Formed t) {c : ClassId} {name : String}
include h hf

theorem Fresh.ancestor_ownMethod {a : ClassId} (ha : t.resolve.table.Ancestor c a) (m : MethodId) :
    t.resolve.table.declaredMethod a name = some m ↔ t.resolve.table.OwnMethod name a m :=
  hf.resolve_ownMethod name a (t.resolve_length ▸ h.resolve_inside.ancestor_lt ha) m

/-- **The candidates for a method name** are the most derived ancestors that declare
it. -/
theorem Fresh.mem_methodCandidates (hc : c < t.classes.length) (hb : ¬ t.resolve.table.Broken c)
    {a : ClassId} :
    a ∈ (t.resolve.table.methodCandidates t.ancestry c name).map (·.1)
      ↔ t.resolve.table.MostDerived c (fun a => ∃ m, t.resolve.table.OwnMethod name a m) a := by
  unfold methodCandidates
  rw [h.mostDerived_declared (hf.resolve_ownMethod name), List.mem_map]
  constructor
  · rintro ⟨x, hx, rfl⟩
    rw [h.mem_mostDerived hc hb] at hx
    exact hx.1
  · intro ha
    obtain ⟨m, hm⟩ := Option.ne_none_iff_exists'.mp ha.holds
    refine ⟨(a, m), ?_, rfl⟩
    rw [h.mem_mostDerived hc hb]
    exact ⟨ha, hm⟩

/-- **An ambiguous name has candidates that differ.** -/
theorem Fresh.exists_differ (hname : name ∈ (t.resolve.table.classAt c).members.ambiguous) :
    ∃ a ∈ (t.resolve.table.methodCandidates t.ancestry c name).map (·.1),
      ∃ b ∈ (t.resolve.table.methodCandidates t.ancestry c name).map (·.1), a ≠ b
        ∧ ∃ m n, t.resolve.table.OwnMethod name a m ∧ t.resolve.table.OwnMethod name b n
          ∧ ¬ t.resolve.table.SameTypes m n := by
  obtain ⟨hc, hb⟩ := h.not_broken_of_ambiguous hname
  obtain ⟨-, a, m, b, n, ha, hm, hb', hn, hdiffer⟩ :=
    (h.isAmbiguous_iff_differ hc hb).mp (List.contains_iff_mem.mpr hname)
  have hne : a ≠ b := by
    rintro rfl
    obtain rfl := Option.some.inj (hm.symm.trans hn)
    exact hdiffer (sameSignature_iff.mpr ⟨rfl, rfl⟩)
  rw [h.ancestor_ownMethod hf ha.ancestor] at hm
  rw [h.ancestor_ownMethod hf hb'.ancestor] at hn
  rw [← h.mostDerived_declared (hf.resolve_ownMethod name), ← h.mem_methodCandidates hf hc hb]
    at ha hb'
  exact ⟨a, ha, b, hb', hne, m, n, hm, hn,
    fun hsame => hdiffer (sameSignature_iff.mpr (And.symm hsame))⟩

/-- **The issue of an ambiguous name blames its candidates.** -/
theorem Fresh.blames (hname : name ∈ (t.resolve.table.classAt c).members.ambiguous) :
    t.resolve.table.Blames c name
      ((t.resolve.table.methodCandidates t.ancestry c name).map (·.1))
      (t.resolve.table.ambiguity t.ancestry c name) where
  ordered := (List.filter_sublist.map _).trans (declaringAncestors_sublist _ _)
  mem_iff _ := by
    obtain ⟨hc, hb⟩ := h.not_broken_of_ambiguous hname
    exact h.mem_methodCandidates hf hc hb
  differ := h.exists_differ hf hname
  issue := by
    unfold ambiguity
    rw [List.map_map]
    rfl

end Reports

/-! ## The roots -/

/-- The classes in which a name becomes ambiguous, each with the name. -/
def roots (t : SymbolTable) : List (ClassId × String) :=
  t.resolutionOrder.flatMap fun c =>
    ((t.classAt c).members.ambiguous.filter fun name => !t.inheritsAmbiguity c name).map (c, ·)

theorem ambiguities_eq (t : SymbolTable) (g : Ancestry) :
    t.ambiguities g = t.roots.map fun r => t.ambiguity g r.1 r.2 := by
  unfold ambiguities ambiguitiesOf roots
  rw [List.map_flatMap]
  refine List.flatMap_congr fun c _ => ?_
  rw [List.map_map]
  rfl

theorem nodup_flatMembers_ambiguous (t : SymbolTable) (g : Ancestry) (c : ClassId) :
    (t.flatMembers g c).ambiguous.Nodup :=
  (nodup_eraseDups _).filter _

section Roots

variable (h : t.Fresh)
include h

theorem Fresh.mem_roots {r : ClassId × String} :
    r ∈ t.resolve.table.roots ↔ t.resolve.table.Arises r.1 r.2 := by
  unfold roots
  rw [List.mem_flatMap]
  constructor
  · rintro ⟨c, -, hr⟩
    obtain ⟨name, hname, rfl⟩ := List.mem_map.mp hr
    exact arises_iff.mp hname
  · intro harises
    exact ⟨r.1, h.mem_resolutionOrder.mpr (h.not_broken_of_ambiguous harises.1).1,
      List.mem_map.mpr ⟨r.2, arises_iff.mpr harises, rfl⟩⟩

theorem Fresh.nodup_ambiguous (c : ClassId) :
    (t.resolve.table.classAt c).members.ambiguous.Nodup := by
  by_cases hnil : (t.resolve.table.classAt c).members.ambiguous = []
  · rw [hnil]
    exact List.nodup_nil
  · obtain ⟨name, hname⟩ := List.exists_mem_of_ne_nil _ hnil
    obtain ⟨hc, hb⟩ := h.not_broken_of_ambiguous hname
    rw [h.members_of_not_broken hc hb]
    exact nodup_flatMembers_ambiguous _ _ _

theorem Fresh.nodup_roots : t.resolve.table.roots.Nodup := by
  unfold roots
  rw [List.nodup_flatMap]
  constructor
  · intro c _
    exact ((h.nodup_ambiguous c).filter _).map fun _ _ heq => (Prod.mk.inj heq).2
  · have horder : t.resolve.table.resolutionOrder.Nodup :=
      h.resolve_inside.resolutionOrder_perm.nodup_iff.mpr List.nodup_range
    refine horder.imp fun {c d} hne r hr hr' => ?_
    obtain ⟨_, -, rfl⟩ := List.mem_map.mp hr
    obtain ⟨_, -, heq⟩ := List.mem_map.mp hr'
    exact hne (Prod.mk.inj heq).1.symm

/-- **No ambiguity is reported twice**: an issue names the class and the method. -/
theorem Fresh.nodup_ambiguities (hf : Formed t) :
    (t.resolve.table.ambiguities t.ancestry).Nodup := by
  rw [ambiguities_eq]
  refine h.nodup_roots.map_on fun r hr s hs heq => ?_
  have hlt : ∀ {r}, r ∈ t.resolve.table.roots → r.1 < t.resolve.table.classes.length :=
    fun hr => t.resolve_length.symm ▸ (h.not_broken_of_ambiguous (h.mem_roots.mp hr).1).1
  obtain ⟨hclass, hmethod, -, -⟩ := Issue.ambiguous.inj heq
  exact Prod.ext ((hf.of_declared (resolve_declared t)).class_eq_of_name (hlt hr) (hlt hs) hclass)
    hmethod

end Roots

/-! ## One class after the other -/

/-- The recursion that gives the classes of a table their members. -/
def flattening (t : SymbolTable) (g : Ancestry) :
    ParentsFirst.Recursion (List ClassId × SymbolTable × List Issue) :=
  ParentsFirst.stepping t.orderParents (flattenTurn g)

/-- **The recursion ends**, with the resolved table and the ambiguities reported. -/
theorem Fresh.runs_flattening (h : t.Fresh) (hbare : u.bare = t.resolve.table.bare) :
    ∃ met, (u.flattening t.ancestry).Runs ([], u, []) t.resolve.table.classIds
      (met, t.resolve.table, t.resolve.table.ambiguities t.ancestry) := by
  obtain ⟨met, hruns⟩ := ParentsFirst.order_runs_stepping
    (fun c _ a (ha : a ∈ t.resolve.table.orderParents c) =>
      h.resolve_inside c a (parent_of_mem_orderParents ha)) (flattenTurn t.ancestry)
  refine ⟨met, ?_⟩
  unfold flattening
  rw [orderParents_of_bare hbare, ← h.foldl_flattenTurn hbare]
  exact hruns (u, [])

/-- The ambiguities among what resolution reports. -/
theorem resolve_issues_ambiguous (t : SymbolTable) :
    t.resolve.issues.filter (·.kind == .ambiguousMethodResolution)
      = t.resolve.table.ambiguities t.ancestry := by
  rw [resolve_issues]
  simp only [List.filter_append]
  rw [(typeIssues_kinds t).filter_eq_nil (by decide),
    (parentIssues_kinds t.resolveTypes).filter_eq_nil (by decide),
    (cycleIssues_kinds t.parented t.ancestry).filter_eq_nil (by decide),
    (taintIssues_kinds t.cycled t.ancestry).filter_eq_nil (by decide),
    (ambiguities_kinds t.resolve.table t.ancestry).filter_eq_self]
  simp only [List.nil_append]

theorem ambiguous_of_methodNamed {c : ClassId} {name : String} {span : Span}
    (hcall : t.methodNamed c name span = .ok .ambiguous) :
    name ∈ (t.classAt c).members.ambiguous := by
  unfold methodNamed at hcall
  split at hcall
  · cases hcall
  · split at hcall
    · rename_i hamb
      exact List.contains_iff_mem.mp hamb
    · split at hcall
      · cases hcall
      · cases hcall

section Reported

variable (h : t.Fresh) (hf : Formed t)
include h hf

/-- **One issue for each root**, which blames the candidates. -/
theorem Fresh.blames_roots :
    List.Forall₂ (fun r i => ∃ candidates, t.resolve.table.Blames r.1 r.2 candidates i)
      t.resolve.table.roots (t.resolve.table.ambiguities t.ancestry) := by
  rw [ambiguities_eq, List.forall₂_map_right_iff, List.forall₂_same]
  intro r hr
  rw [h.mem_roots] at hr
  exact ⟨_, h.blames hf hr.1⟩

/-- **A call that finds a name ambiguous** has a root at or above the class it is made
on, and its issue. -/
theorem Fresh.blames_of_methodNamed {c : ClassId} {name : String} {span : Span}
    (hcall : t.resolve.table.methodNamed c name span = .ok .ambiguous) :
    ∃ d, (d = c ∨ t.resolve.table.Ancestor c d) ∧ ∃ candidates,
      ∃ i ∈ t.resolve.table.ambiguities t.ancestry,
        t.resolve.table.Blames d name candidates i := by
  obtain ⟨d, habove, hd⟩ := h.exists_arises (ambiguous_of_methodNamed hcall)
  refine ⟨d, habove, _, _, ?_, h.blames hf hd.1⟩
  rw [ambiguities_eq, List.mem_map]
  exact ⟨(d, name), h.mem_roots.mpr hd, rfl⟩

end Reported

end SymbolTable

/-- A program of which resolution reports something is not compiled. -/
theorem compileWith_error_of_mem {p : Program} {i : Issue}
    (hi : i ∈ (SymbolTable.collect p).table.resolve.issues) (o : Options) :
    ∃ report, compileWith o p = .error report := by
  have hmem : i ∈ (Compilation.run o p).issues := by
    unfold Compilation.issues
    rw [List.mem_append, List.mem_append]
    exact Or.inl (Or.inr hi)
  rw [compileWith_eq, if_neg (List.ne_nil_of_mem hmem)]
  exact ⟨_, rfl⟩

open SymbolTable

/-- **Ambiguities are reported at their roots.** The recursion that gives classes their
members ends, with the resolved table and one report for each name that becomes
ambiguous in a class. The report names the most derived ancestors that declare the
method, of which two differ. Every ambiguous name has a root at or above the class; so
a call that finds it ambiguous is in a program that is not compiled. -/
theorem ambiguities_reported_at_roots (p : Program) :
    let start := (collect p).table.tainted.linearize
    let resolved := (collect p).table.resolve
    let t := resolved.table
    let reported := resolved.issues.filter (·.kind == .ambiguousMethodResolution)
    (∃ met, ∀ s, (start.flattening (Ancestry.ofTable t)).Runs ([], start, []) t.classIds s
        ↔ s = (met, t, reported))
      ∧ (∃ roots : List (ClassId × String), roots.Nodup
        ∧ (∀ c name, (c, name) ∈ roots ↔ t.Arises c name)
        ∧ List.Forall₂ (fun r i => ∃ candidates, t.Blames r.1 r.2 candidates i) roots reported)
      ∧ reported.Nodup
      ∧ (∀ c name, name ∈ (t.classAt c).members.ambiguous →
        ∃ d, (d = c ∨ t.Ancestor c d) ∧ t.Arises d name)
      ∧ ∀ c name span, t.methodNamed c name span = .ok .ambiguous →
        (∃ d, (d = c ∨ t.Ancestor c d)
          ∧ ∃ candidates, ∃ i ∈ reported, t.Blames d name candidates i)
        ∧ ∀ o, ∃ report, compileWith o p = .error report := by
  intro start resolved t reported
  have h := collect_fresh p
  have hf := collect_formed p
  have hreported : reported = t.ambiguities (collect p).table.ancestry :=
    resolve_issues_ambiguous _
  refine ⟨?_, ⟨t.roots, h.nodup_roots, fun _ _ => h.mem_roots, ?_⟩, ?_, ?_, ?_⟩
  · obtain ⟨met, hruns⟩ := h.runs_flattening (linearize_bare _)
    rw [h.ofTable_resolve, hreported]
    exact ⟨met, fun s => hruns.iff_eq⟩
  · rw [hreported]
    exact h.blames_roots hf
  · rw [hreported]
    exact h.nodup_ambiguities hf
  · intro c name hname
    exact h.exists_arises hname
  · intro c name span hcall
    obtain ⟨d, habove, candidates, i, hi, hblames⟩ := h.blames_of_methodNamed hf hcall
    rw [← resolve_issues_ambiguous] at hi
    exact ⟨⟨d, habove, candidates, i, hi, hblames⟩,
      compileWith_error_of_mem (List.mem_of_mem_filter hi)⟩

/-- Two parents that declare a method with different types, and a class further down,
which is declared first. -/
def quarrel : Program where
  classes := [diamondClass "Below" ["Both"] false, diamondClass "Both" ["Left", "Right"] false,
    diamondClass "Left" [] true,
    { diamondClass "Right" [] false with
      members := [.method ⟨⟨"m", {}⟩, [⟨⟨"self", {}⟩, none, {}⟩, ⟨⟨"x", {}⟩, some ⟨"int", {}⟩, {}⟩],
        none, [], {}, {}⟩] }]
  span := {}

/-- **The name is ambiguous in both classes below, and reported once.** -/
theorem ambiguities_reported_at_roots_quarrel :
    let resolved := (collect quarrel).table.resolve
    let t := resolved.table
    (t.classAt 0).members.ambiguous = ["m"] ∧ (t.classAt 1).members.ambiguous = ["m"]
      ∧ resolved.issues.filter (·.kind == .ambiguousMethodResolution)
        = [.ambiguous "Both" "m" "Left.m, Right.m" {}]
      ∧ t.methodNamed 0 "m" {} = .ok .ambiguous
      ∧ (∃ d, (d = 0 ∨ t.Ancestor 0 d) ∧ t.Arises d "m")
      ∧ ∃ report, compileWith {} quarrel = .error report := by
  intro resolved t
  have hbelow : (t.classAt 0).members.ambiguous = ["m"] := by decide +kernel
  have hcall : t.methodNamed 0 "m" {} = .ok .ambiguous := by with_unfolding_all rfl
  obtain ⟨-, -, -, hroot, hcalls⟩ := ambiguities_reported_at_roots quarrel
  exact ⟨hbelow, by decide +kernel, by decide +kernel, hcall,
    hroot 0 "m" (by rw [hbelow]; exact List.mem_cons_self), (hcalls 0 "m" {} hcall).2 {}⟩

end Heritage
