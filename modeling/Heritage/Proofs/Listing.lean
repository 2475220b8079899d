import Heritage.Proofs.FirstOccurrences
import Heritage.Proofs.Flattening
import Heritage.Proofs.Recursion

/-!
# A linearization keeps the first occurrences of a listing

Listing a class and its ancestors depth first, from left to right, lists a class
once for each path that leads to it, and there may be very many. A linearization
is never made from such a listing: it merges linearizations of parents, which are
freed of repetitions already and kept for the next class that asks for them. It
holds the first occurrences of the listing all the same, whichever classes were
linearized before (`Linearizable.runs`).

A class on a cycle has no listing. Such classes, and those below them, are marked
before any class is linearized; that is why the recursion ends.
-/

namespace Heritage

namespace SymbolTable

variable {t u w : SymbolTable} {c : ClassId}

/-- **The listing of a class and its ancestors**, depth first and from left to
right: the class, then the listing of each parent. A class that is reached on
several paths is listed as often. -/
inductive Listing (t : SymbolTable) : ClassId → List ClassId → Prop where
  | node {c : ClassId} (above : ClassId → List ClassId)
      (parents : ∀ a, t.Parent c a → Listing t a (above a)) :
      Listing t c (c :: (t.classAt c).resolvedParents.flatMap above)

/-- A class has one listing. -/
theorem Listing.unique {l l' : List ClassId} (h : t.Listing c l) (h' : t.Listing c l') :
    l' = l := by
  induction h generalizing l' with
  | @node c above _ ih =>
    cases h' with
    | node above' parents' =>
      exact congrArg (c :: ·) (List.flatMap_congr fun a ha => ih a ha (parents' a ha))

/-! ## The recursion -/

/-- **The recursion that linearizes a table.** A class that has a linearization is
passed over; any other one is linearized behind its parents. -/
def linearizing (t : SymbolTable) : ParentsFirst.Recursion SymbolTable where
  parents := t.orderParents
  seen u c := u.linearization c ≠ []
  enter u _ := u
  leave u c := u.modifyClass c fun _ => u.linearized u c

/-- **A table on the way to being linearized**: each class is as it was or as it will
be. -/
structure Underway (t u : SymbolTable) : Prop where
  /-- No class is added. -/
  length_eq : u.classes.length = t.classes.length
  /-- Nothing but classes is changed. -/
  others : { u with classes := t.classes } = t
  /-- Each class is as it was or as it will be. -/
  each : ∀ c, u.classAt c = t.classAt c ∨ u.classAt c = t.linearize.classAt c

theorem underway_start (t : SymbolTable) : Underway t t :=
  ⟨rfl, rfl, fun _ => Or.inl rfl⟩

/-- **Further on the way**, and at its end for some classes. -/
structure Further (t u w : SymbolTable) (cs : List ClassId) : Prop where
  /-- It is on the way. -/
  underway : Underway t w
  /-- What was finished is finished. -/
  kept : ∀ c, u.classAt c = t.linearize.classAt c → w.classAt c = t.linearize.classAt c
  /-- The given classes are finished. -/
  finished : ∀ c ∈ cs, w.classAt c = t.linearize.classAt c

section Linearizable

variable (h : Linearizable t)
include h

/-- A class that is passed over is finished. -/
theorem Linearizable.finished_of_seen (hu : Underway t u) (hseen : u.linearization c ≠ []) :
    u.classAt c = t.linearize.classAt c := by
  refine (hu.each c).resolve_left fun hsame => hseen ?_
  rw [linearization, hsame]
  exact h.empty c

/-- Linearizing a class again gives what linearizing it gave. -/
theorem Linearizable.linearized_underway (hu : Underway t u) (hc : c < t.classes.length) :
    u.linearized u c = t.linearized u c := by
  rcases hu.each c with hsame | hdone
  · unfold linearized
    rw [hsame]
  · rw [h.classAt_eq hc] at hdone
    by_cases hb : t.Broken c
    · rw [linearized_of_broken hb] at hdone
      have hub : u.Broken c := by
        unfold Broken
        rw [hdone]
        exact hb
      rw [linearized_of_broken hb, linearized_of_broken hub, hdone]
    · rw [linearized_of_not_broken hb] at hdone
      have hub : ¬ u.Broken c := by
        unfold Broken
        rw [hdone]
        exact Bool.false_ne_true
      rw [linearized_of_not_broken hb, linearized_of_not_broken hub, hdone]

/-- **A class whose parents are finished is finished by its turn.** -/
theorem Linearizable.leave_further (hc : c < t.classes.length)
    (hw : Further t u w (t.orderParents c)) :
    Further t u ((linearizing t).leave w c) [c] := by
  have hparents : t.linearized w c = t.linearize.classAt c := by
    rw [h.classAt_eq hc]
    exact linearized_congr (fun hb a ha => mem_orderParents hb ha) hw.finished
  have hself : ((linearizing t).leave w c).classAt c = t.linearize.classAt c := by
    show (w.modifyClass c _).classAt c = _
    rw [modifyClass_classAt_self (hw.underway.length_eq.symm ▸ hc),
      h.linearized_underway hw.underway hc, hparents]
  have hother : ∀ d, d ≠ c → ((linearizing t).leave w c).classAt d = w.classAt d :=
    fun d hd => modifyClass_classAt_ne hd _
  refine ⟨⟨?_, hw.underway.others, fun d => ?_⟩, fun d hd => ?_, fun d hd => ?_⟩
  · exact (modifyClass_length _ _ _).trans hw.underway.length_eq
  · by_cases hdc : d = c
    · exact Or.inr (hdc ▸ hself)
    · rw [hother d hdc]
      exact hw.underway.each d
  · by_cases hdc : d = c
    · exact hdc ▸ hself
    · rw [hother d hdc]
      exact hw.kept d hd
  · exact List.mem_singleton.mp hd ▸ hself

omit h in
/-- One class after the other, if each of them can have its turn at any time. -/
theorem runs_all {cs : List ClassId}
    (one : ∀ c ∈ cs, ∀ u, Underway t u → ∃ w, (linearizing t).Runs u [c] w ∧ Further t u w [c])
    (hu : Underway t u) : ∃ w, (linearizing t).Runs u cs w ∧ Further t u w cs := by
  induction cs generalizing u with
  | nil => exact ⟨u, .done, hu, fun _ => id, fun _ hc => nomatch hc⟩
  | cons c rest ih =>
    obtain ⟨v, hruns, hv⟩ := one c List.mem_cons_self u hu
    obtain ⟨w, hrest, hw⟩ := ih (fun d hd => one d (List.mem_cons_of_mem c hd)) hv.underway
    refine ⟨w, hruns.append hrest, hw.underway, fun d hd => hw.kept d (hv.kept d hd),
      fun d hd => ?_⟩
    rcases List.mem_cons.mp hd with rfl | hd
    · exact hw.kept d (hv.finished d List.mem_cons_self)
    · exact hw.finished d hd

/-- **The recursion ends at any class and at any time**, with the linearization that
the class has in the end. -/
theorem Linearizable.runs_single (hc : c < t.classes.length) :
    ∀ u, Underway t u → ∃ w, (linearizing t).Runs u [c] w ∧ Further t u w [c] := by
  refine h.induction (P := fun c => ∀ u, Underway t u →
    ∃ w, (linearizing t).Runs u [c] w ∧ Further t u w [c]) (fun c hc ih u hu => ?_) hc
  by_cases hseen : u.linearization c = []
  · obtain ⟨w, hruns, hw⟩ := runs_all (fun a ha => ih (not_broken_of_mem_orderParents ha) a
      (parent_of_mem_orderParents ha)) hu
    exact ⟨_, .single_turn (not_not.mpr hseen) hruns, h.leave_further hc hw⟩
  · exact ⟨u, .skip hseen .done, hu, fun _ => id,
      fun d hd => List.mem_singleton.mp hd ▸ h.finished_of_seen hu hseen⟩

/-- **Whichever classes are linearized, and in whichever order**, the recursion ends, and
each of them has the linearization that it has in the end. -/
theorem Linearizable.runs {order : List ClassId} (hin : ∀ c ∈ order, c < t.classes.length) :
    ∃ u, (linearizing t).Runs t order u
      ∧ ∀ c ∈ order, u.linearization c = t.linearize.linearization c := by
  obtain ⟨u, hruns, hu⟩ := runs_all (fun c hc => h.runs_single (hin c hc)) (underway_start t)
  exact ⟨u, hruns, fun c hc => congrArg ClassSymbol.linearization (hu.finished c hc)⟩

/-- **Linearizing a table is what the recursion does** for all classes in order. -/
theorem Linearizable.runs_classIds : (linearizing t).Runs t t.classIds t.linearize := by
  obtain ⟨u, hruns, hu⟩ := runs_all
    (fun c hc => h.runs_single (List.mem_range.mp hc)) (underway_start t)
  have hlength := h.linearize.length_eq
  have hclasses : u.classes = t.linearize.classes :=
    classes_eq_of_classAt (hu.underway.length_eq.trans hlength.symm)
      fun c hc => hu.finished c (List.mem_range.mpr (hlength ▸ hc))
  have hothers : { t.linearize with classes := t.classes } = t := by
    obtain ⟨hvars, hmethods⟩ := linearize_symbols t
    show SymbolTable.mk t.classes t.linearize.methods t.linearize.vars t.linearize.scopes = t
    rw [hvars, hmethods, scopes_of_declared (linearize_declared t)]
  have heq : u = t.linearize :=
    calc u = { ({ u with classes := t.classes } : SymbolTable) with classes := u.classes } := rfl
      _ = { ({ t.linearize with classes := t.classes } : SymbolTable) with
            classes := t.linearize.classes } := by
        rw [hu.underway.others, hothers, hclasses]
  exact heq ▸ hruns

end Linearizable

/-! ## Listings -/

section Finished

variable (h : t.Fresh)
include h

/-- **A class that is not broken has a listing**, and its linearization holds the first
occurrences of it. -/
theorem Fresh.exists_listing (hc : c < t.classes.length) (hb : ¬ t.resolve.table.Broken c) :
    ∃ l, t.resolve.table.Listing c l ∧ t.resolve.table.linearization c = l.eraseDups := by
  revert hb
  refine h.induction (P := fun c => ¬ t.resolve.table.Broken c →
    ∃ l, t.resolve.table.Listing c l ∧ t.resolve.table.linearization c = l.eraseDups)
    (fun c hc ih hb => ?_) hc
  have hparent : ∀ a, t.resolve.table.Parent c a →
      ∃ l, t.resolve.table.Listing a l ∧ t.resolve.table.linearization a = l.eraseDups :=
    fun a ha => ih hb a ha (h.not_broken_of_parent hb ha)
  choose! above habove using hparent
  refine ⟨_, .node above fun a ha => (habove a ha).1, ?_⟩
  have hflat : (t.resolve.table.classAt c).resolvedParents.flatMap t.resolve.table.linearization
      = (t.resolve.table.classAt c).resolvedParents.flatMap fun a => (above a).eraseDups :=
    List.flatMap_congr fun a ha => (habove a ha).2
  rw [h.linearization_eq hc hb, hflat, ← List.singleton_append, eraseDups_flatMap,
    List.singleton_append]

end Finished

end SymbolTable

open SymbolTable

/-- **Linearizations of a program.** The recursion that makes them ends, whichever
classes it is started for and in whichever order, and gives each class the same
linearization. For a class that is not broken it holds the first occurrences of its
listing: it starts with the class, holds nothing twice, and holds besides the class
what the class derives from. A broken class has itself. -/
theorem linearization_keeps_first_occurrences (p : Program) :
    let start := (collect p).table.tainted
    let t := (collect p).table.resolve.table
    (linearizing start).Runs start start.classIds start.linearize
      ∧ t.linearization = start.linearize.linearization
      ∧ (∀ order : List ClassId, (∀ c ∈ order, c < t.classes.length) →
        ∃ u, (∀ w, (linearizing start).Runs start order w ↔ w = u)
          ∧ ∀ c ∈ order, u.linearization c = t.linearization c)
      ∧ (∀ c < t.classes.length, ¬ t.Broken c →
        (∃ l, (∀ l', t.Listing c l' ↔ l' = l) ∧ t.linearization c = l.eraseDups)
          ∧ (t.linearization c).head? = some c
          ∧ (t.linearization c).Nodup
          ∧ ∀ a, a ∈ t.linearization c
            ↔ a = c ∨ (Ancestry.ofTable t).isSubclassOf c a = true)
      ∧ ∀ c, t.Broken c → t.linearization c = [c] := by
  intro start t
  have h := collect_fresh p
  have hlength : t.classes.length = (collect p).table.classes.length := resolve_length _
  have hlinearization : t.linearization = start.linearize.linearization :=
    resolve_linearization _
  refine ⟨h.linearizable.runs_classIds, hlinearization, fun order hin => ?_, fun c hc hb => ?_,
    fun c => h.linearization_of_broken⟩
  · have hinside : ∀ c ∈ order, c < start.classes.length :=
      fun c hc => (tainted_length _).symm ▸ hlength ▸ hin c hc
    obtain ⟨u, hruns, hu⟩ := h.linearizable.runs hinside
    exact ⟨u, fun w => hruns.iff_eq, fun c hc => (hu c hc).trans (congrFun hlinearization c).symm⟩
  · have hc := hlength ▸ hc
    obtain ⟨l, hlisting, hl⟩ := h.exists_listing hc hb
    refine ⟨⟨l, fun l' => ⟨hlisting.unique, fun heq => heq ▸ hlisting⟩, hl⟩, ?_, ?_, fun a => ?_⟩
    · rw [(h.linearization_tail hc hb).1, List.head?_cons]
    · rw [hl]
      exact nodup_eraseDups l
    · rw [h.mem_linearization hc hb, h.ofTable_resolve, h.isSubclassOf_iff]
      refine or_congr_right ⟨fun ha => ⟨?_, ha⟩, And.right⟩
      rintro rfl
      exact h.acyclic hb ha

/-- Two parents of one base, declared before both of them, next to a class that is its own
parent and one that has all of them above it. -/
def tangle : Program where
  classes := [diamondClass "Both" ["Left", "Right"] false, diamondClass "Left" ["Base"] false,
    diamondClass "Right" ["Base"] false, diamondClass "Base" [] false,
    diamondClass "Own" ["Own"] false, diamondClass "All" ["Both", "Own"] false]
  span := {}

/-- **The base is listed twice and linearized once**, where it is listed first. -/
theorem linearization_keeps_first_occurrences_tangle :
    let t := (collect tangle).table.resolve.table
    ¬ t.Broken 0 ∧ t.Listing 0 [0, 1, 3, 2, 3] ∧ t.linearization 0 = [0, 1, 3, 2]
      ∧ t.Broken 5 ∧ t.linearization 5 = [5] := by
  intro t
  have hfacts : t.classes.length = 6 ∧ (t.classAt 0).state = .resolved
      ∧ (t.classAt 5).state = .unresolved ∧ (t.classAt 0).resolvedParents = [1, 2]
      ∧ (t.classAt 1).resolvedParents = [3] ∧ (t.classAt 2).resolvedParents = [3]
      ∧ (t.classAt 3).resolvedParents = [] := by decide +kernel
  obtain ⟨hlength, hresolved, hunresolved, hboth, hleft, hright, hbase⟩ := hfacts
  have hb : ¬ t.Broken 0 := by
    unfold Broken
    rw [hresolved]
    exact Bool.false_ne_true
  have hall : t.Broken 5 := by
    unfold Broken
    rw [hunresolved]
    rfl
  have node : ∀ c ps (above : ClassId → List ClassId), (t.classAt c).resolvedParents = ps →
      (∀ a ∈ ps, t.Listing a (above a)) → t.Listing c (c :: ps.flatMap above) := by
    rintro c _ above rfl hparents
    exact .node above hparents
  have hlistBase : t.Listing 3 [3] :=
    node 3 [] (fun _ => []) hbase (fun _ ha => nomatch ha)
  have hlistLeft : t.Listing 1 [1, 3] :=
    node 1 [3] (fun _ => [3]) hleft (List.forall_mem_singleton.mpr hlistBase)
  have hlistRight : t.Listing 2 [2, 3] :=
    node 2 [3] (fun _ => [3]) hright (List.forall_mem_singleton.mpr hlistBase)
  have hlisting : t.Listing 0 [0, 1, 3, 2, 3] :=
    node 0 [1, 2] (fun a => [a, 3]) hboth
      (List.forall_mem_cons.mpr ⟨hlistLeft, List.forall_mem_singleton.mpr hlistRight⟩)
  obtain ⟨-, -, -, hsound, hbroken⟩ := linearization_keeps_first_occurrences tangle
  obtain ⟨⟨l, hl, heq⟩, -⟩ := hsound 0 (hlength ▸ by decide) hb
  exact ⟨hb, hlisting, heq.trans ((hl _).mp hlisting ▸ rfl), hall, hbroken 5 hall⟩

end Heritage
