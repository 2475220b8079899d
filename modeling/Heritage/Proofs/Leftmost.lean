import Heritage.Proofs.Conversions
import Heritage.Proofs.Listing

/-!
# The path to an ancestor is the leftmost one

A class may have an ancestor on several paths, and its objects then have several
parts of that ancestor's struct. The one that is used is found by a search that
looks at the linearizations of parents and nowhere else. It is the first that is
met when the paths are gone through depth first from left to right, as they are
where the linearization of the class comes from: a `Tour` of all paths goes
through them in the lexicographic order of the turns they take
(`Tour.pairwise_turns`), and what the search finds is what is found first on it.
-/

namespace Heritage

namespace SymbolTable

variable {t : SymbolTable} {c a : ClassId}

/-! ## The search as a loop -/

/-- **The search for the path to an ancestor**, and what it comes to: it stops at the
ancestor, or where no parent leads on. -/
inductive Climbs (t : SymbolTable) (a : ClassId) : ClassId → Option (List ClassId) → Prop where
  | arrived : Climbs t a a (some [])
  | stuck {c : ClassId} (apart : c ≠ a) (last : t.parentToward c a = none) : Climbs t a c none
  | step {c p : ClassId} {found : Option (List ClassId)} (apart : c ≠ a)
      (next : t.parentToward c a = some p) (rest : Climbs t a p found) :
      Climbs t a c (found.map (p :: ·))

/-- The search comes to one thing only. -/
theorem Climbs.unique {found other : Option (List ClassId)} (h : t.Climbs a c found)
    (h' : t.Climbs a c other) : other = found := by
  induction h generalizing other with
  | arrived =>
    cases h' with
    | arrived => rfl
    | stuck apart _ => exact absurd rfl apart
    | step apart _ _ => exact absurd rfl apart
  | stuck apart last =>
    cases h' with
    | arrived => exact absurd rfl apart
    | stuck _ _ => rfl
    | step _ next _ => exact nomatch last.symm.trans next
  | step apart next _ ih =>
    cases h' with
    | arrived => exact absurd rfl apart
    | stuck _ last => exact nomatch last.symm.trans next
    | step _ next' rest =>
      obtain rfl := Option.some.inj (next.symm.trans next')
      rw [ih rest]

section Search

variable (h : t.Fresh)
include h

/-- **The path to an ancestor goes through the parent toward it.** -/
theorem Fresh.basePath_eq (hne : c ≠ a) :
    t.resolve.table.basePath c a
      = (t.resolve.table.parentToward c a).bind fun p =>
        (t.resolve.table.basePath p a).map (p :: ·) := by
  unfold basePath
  rw [t.resolve_length, ← h.pathWithin_length_succ c a, pathWithin, if_neg hne]
  cases t.resolve.table.parentToward c a with
  | none => rfl
  | some p => rfl

theorem Fresh.climbs_of_parent
    (hparent : ∀ p, t.resolve.table.parentToward c a = some p →
      t.resolve.table.Climbs a p (t.resolve.table.basePath p a)) :
    t.resolve.table.Climbs a c (t.resolve.table.basePath c a) := by
  by_cases hne : c = a
  · rw [hne, basePath_self]
    exact .arrived
  · rw [h.basePath_eq hne]
    cases hp : t.resolve.table.parentToward c a with
    | none => exact .stuck hne hp
    | some p => exact .step hne hp (hparent p hp)

/-- **The search ends**, wherever it starts. -/
theorem Fresh.climbs (c a : ClassId) :
    t.resolve.table.Climbs a c (t.resolve.table.basePath c a) := by
  have hsound : ∀ c < t.classes.length, ¬ t.resolve.table.Broken c →
      t.resolve.table.Climbs a c (t.resolve.table.basePath c a) := by
    intro c hc
    refine h.induction (P := fun c => ¬ t.resolve.table.Broken c →
      t.resolve.table.Climbs a c (t.resolve.table.basePath c a)) (fun c _ ih hb => ?_) hc
    refine h.climbs_of_parent fun p hp => ?_
    have hparent := parent_of_parentToward hp
    exact ih hb p hparent (h.not_broken_of_parent hb hparent)
  refine h.climbs_of_parent fun p hp => ?_
  by_cases hb : t.resolve.table.Broken p
  · -- A broken parent is taken only if it is the class that is looked for.
    have ha := mem_of_parentToward hp
    rw [h.linearization_of_broken hb, List.mem_singleton] at ha
    rw [ha, basePath_self]
    exact .arrived
  · exact hsound p (t.resolve_length ▸ h.resolve_inside c p (parent_of_parentToward hp)) hb

end Search

/-! ## All paths, depth first from left to right -/

/-- Where a path from a class ends. -/
def endOf : ClassId → List ClassId → ClassId
  | c, [] => c
  | _, p :: rest => endOf p rest

/-- **The turns of a path**: at each step, which of the parents it goes to. -/
def turns (t : SymbolTable) : ClassId → List ClassId → List Nat
  | _, [] => []
  | c, p :: rest => (t.classAt c).resolvedParents.idxOf p :: t.turns p rest

/-- **All paths from a class**, depth first and from left to right: the empty one, then
those through each parent. -/
inductive Tour (t : SymbolTable) : ClassId → List (List ClassId) → Prop where
  | node {c : ClassId} (above : ClassId → List (List ClassId))
      (parents : ∀ p, t.Parent c p → Tour t p (above p)) :
      Tour t c ([] :: (t.classAt c).resolvedParents.flatMap fun p => (above p).map (p :: ·))

theorem Route.endOf_eq {path : List ClassId} (h : t.Route c path a) : endOf c path = a := by
  induction h with
  | here => rfl
  | step _ _ ih => exact ih

theorem exists_route_iff : (∃ path, t.Route c path a) ↔ a = c ∨ t.Ancestor c a := by
  constructor
  · rintro ⟨path, hroute⟩
    induction hroute with
    | here => exact Or.inl rfl
    | step parent _ ih =>
      rcases ih with rfl | ih
      · exact Or.inr (.single parent)
      · exact Or.inr (.head parent ih)
  · rintro (rfl | hanc)
    · exact ⟨[], .here⟩
    · induction hanc using Relation.TransGen.head_induction_on with
      | single hp => exact ⟨_, .step hp .here⟩
      | head hp _ ih =>
        obtain ⟨path, hroute⟩ := ih
        exact ⟨_, .step hp hroute⟩

namespace Tour

variable {tour : List (List ClassId)}

/-- **The classes at the ends of the paths are the listing of the class.** -/
theorem listing (h : t.Tour c tour) : t.Listing c (tour.map (endOf c)) := by
  induction h with
  | @node c above _ ih =>
    have hends : ([] :: (t.classAt c).resolvedParents.flatMap fun p =>
          (above p).map (p :: ·)).map (endOf c)
        = c :: (t.classAt c).resolvedParents.flatMap fun p => (above p).map (endOf p) := by
      rw [List.map_cons, List.map_flatMap]
      refine congrArg (c :: ·) (List.flatMap_congr fun p _ => ?_)
      rw [List.map_map]
      rfl
    rw [hends]
    exact .node _ ih

/-- **A tour goes through all routes** and nothing else. -/
theorem mem_iff (h : t.Tour c tour) {path : List ClassId} :
    path ∈ tour ↔ t.Route c path (endOf c path) := by
  induction h generalizing path with
  | @node c above _ ih =>
    rw [List.mem_cons, List.mem_flatMap]
    constructor
    · rintro (rfl | ⟨p, hp, hmem⟩)
      · exact .here
      · obtain ⟨rest, hrest, rfl⟩ := List.mem_map.mp hmem
        exact .step hp ((ih p hp).mp hrest)
    · intro hroute
      cases path with
      | nil => exact Or.inl rfl
      | cons p rest =>
        cases hroute with
        | step parent hrest =>
          exact Or.inr ⟨p, parent, List.mem_map_of_mem ((ih p parent).mpr hrest)⟩

/-- **A tour goes through the paths in the lexicographic order of their turns.** -/
theorem pairwise_turns (h : t.Tour c tour)
    (nodup : ∀ c, (t.classAt c).resolvedParents.Nodup) :
    tour.Pairwise fun q r => t.turns c q < t.turns c r := by
  induction h with
  | @node c above _ ih =>
    refine List.pairwise_cons.mpr ⟨fun path hpath => ?_, List.pairwise_flatMap.mpr ⟨?_, ?_⟩⟩
    · obtain ⟨p, -, hmem⟩ := List.mem_flatMap.mp hpath
      obtain ⟨rest, -, rfl⟩ := List.mem_map.mp hmem
      exact List.nil_lt_cons _ _
    · intro p hp
      refine List.pairwise_map.mpr ((ih p hp).imp fun hlt => ?_)
      exact List.cons_lt_cons_iff.mpr (Or.inr ⟨rfl, hlt⟩)
    · -- A parent further to the right has a greater position.
      refine List.pairwise_iff_getElem.mpr fun i j hi hj hij q hq r hr => ?_
      obtain ⟨q, -, rfl⟩ := List.mem_map.mp hq
      obtain ⟨r, -, rfl⟩ := List.mem_map.mp hr
      refine List.cons_lt_cons_iff.mpr (Or.inl ?_)
      rwa [(nodup c).idxOf_getElem i hi, (nodup c).idxOf_getElem j hj]

end Tour

/-! ## What is found first -/

theorem find?_bind_eq_findSome? {α β : Type} {q : α → Bool} {f : α → Option β} {l : List α}
    (h : ∀ x ∈ l, q x = (f x).isSome) : (l.find? q).bind f = l.findSome? f := by
  induction l with
  | nil => rfl
  | cons x rest ih =>
    have hx := h x List.mem_cons_self
    rw [List.find?_cons, List.findSome?_cons, hx]
    cases hf : f x with
    | none => exact ih fun y hy => h y (List.mem_cons_of_mem x hy)
    | some b => exact hf

section Finished

variable (h : t.Fresh) (hc : c < t.classes.length) (hb : ¬ t.resolve.table.Broken c)
  {tour : List (List ClassId)}
include h hc hb

/-- **There is a path to what a class derives from**, and to nothing else but itself. -/
theorem Fresh.basePath_isSome_iff :
    (t.resolve.table.basePath c a).isSome ↔ a = c ∨ t.resolve.table.Ancestor c a := by
  constructor
  · intro hsome
    obtain ⟨path, hpath⟩ := Option.isSome_iff_exists.mp hsome
    exact exists_route_iff.mp ⟨path, (pathWithin_route hpath).1⟩
  · intro ha
    obtain ⟨path, hpath, -⟩ := h.converts_of_atOrAbove hc (ha.imp id fun hanc => ⟨hb, hanc⟩)
    exact Option.isSome_iff_exists.mpr ⟨path, hpath⟩

theorem Fresh.exists_tour : ∃ tour, t.resolve.table.Tour c tour := by
  revert hb
  refine h.induction (P := fun c => ¬ t.resolve.table.Broken c →
    ∃ tour, t.resolve.table.Tour c tour) (fun c _ ih hb => ?_) hc
  have hparent : ∀ p, t.resolve.table.Parent c p → ∃ tour, t.resolve.table.Tour p tour :=
    fun p hp => ih hb p hp (h.not_broken_of_parent hb hp)
  choose! above habove using hparent
  exact ⟨_, .node above habove⟩

omit hc in
/-- **The path to an ancestor is the first on the tour that ends there.** -/
theorem Fresh.basePath_eq_find? (htour : t.resolve.table.Tour c tour) (a : ClassId) :
    t.resolve.table.basePath c a = tour.find? fun path => endOf c path == a := by
  induction htour with
  | @node c above _ ih =>
    by_cases hne : c = a
    · subst hne
      have hstart : (endOf c [] == c) = true := beq_iff_eq.mpr rfl
      rw [basePath_self, List.find?_cons, hstart]
    · -- A parent has the ancestor in its linearization if there is a path from it.
      have hfound : ∀ p ∈ (t.resolve.table.classAt c).resolvedParents,
          (t.resolve.table.linearization p).contains a
            = ((t.resolve.table.basePath p a).map (p :: ·)).isSome := by
        intro p hp
        have hpb := h.not_broken_of_parent hb hp
        have hplt : p < t.classes.length := t.resolve_length ▸ h.resolve_inside c p hp
        rw [Option.isSome_map, Bool.eq_iff_iff, List.contains_iff_mem,
          h.mem_linearization hplt hpb, h.basePath_isSome_iff hplt hpb]
      have hstart : (endOf c [] == a) = false := beq_eq_false_iff_ne.mpr hne
      rw [h.basePath_eq hne, parentToward, find?_bind_eq_findSome? hfound, List.find?_cons, hstart]
      dsimp only
      rw [List.find?_flatMap]
      refine findSome?_congr_mem fun p hp => ?_
      rw [List.find?_map, ih p hp (h.not_broken_of_parent hb hp)]
      rfl

omit hc in
/-- **Every other route turns right of the path at some point**, as far as they go
together. -/
theorem Fresh.turns_lt (htour : t.resolve.table.Tour c tour) {path other : List ClassId}
    (hpath : t.resolve.table.basePath c a = some path) (hroute : t.resolve.table.Route c other a)
    (hne : other ≠ path) : t.resolve.table.turns c path < t.resolve.table.turns c other := by
  rw [h.basePath_eq_find? hb htour] at hpath
  obtain ⟨-, before, behind, rfl, hbefore⟩ := List.find?_eq_some_iff_append.mp hpath
  have hend := hroute.endOf_eq
  have hmem : other ∈ before ++ path :: behind := htour.mem_iff.mpr (hend.symm ▸ hroute)
  have hpairs := htour.pairwise_turns fun _ => h.resolvedParents_nodup
  have hright := (List.pairwise_cons.mp (List.pairwise_append.mp hpairs).2.1).1
  rcases List.mem_append.mp hmem with hmem | hmem
  · -- What comes before the path on the tour ends elsewhere.
    have hother := hbefore other hmem
    rw [hend, beq_self_eq_true] at hother
    cases hother
  · exact hright other ((List.mem_cons.mp hmem).resolve_left hne)

end Finished

end SymbolTable

open SymbolTable

/-- **The paths to the ancestors of a class.** The search for one ends wherever it
starts, in broken classes too. From a class that is not broken it finds a path to
the class itself and to what it derives from, and to nothing else. Of all routes
the path is the one to the left of every other; it is the first that ends there when
all are gone through as they are for the listing that the linearization comes from. -/
theorem base_path_leftmost (p : Program) :
    let t := (collect p).table.resolve.table
    (∀ c a found, t.Climbs a c found ↔ found = t.basePath c a)
      ∧ ∀ c < t.classes.length, ¬ t.Broken c →
        (∀ a, (t.basePath c a).isSome ↔ a = c ∨ t.Ancestor c a)
          ∧ (∀ a path, t.basePath c a = some path → t.Route c path a
            ∧ ∀ other, t.Route c other a → other ≠ path → t.turns c path < t.turns c other)
          ∧ ∃ tour, t.Tour c tour
            ∧ t.Listing c (tour.map (endOf c))
            ∧ t.linearization c = (tour.map (endOf c)).eraseDups
            ∧ ∀ a, t.basePath c a = tour.find? fun path => endOf c path == a := by
  intro t
  have h := collect_fresh p
  have hlength : t.classes.length = (collect p).table.classes.length := resolve_length _
  refine ⟨fun c a found => ⟨(h.climbs c a).unique, fun heq => heq ▸ h.climbs c a⟩,
    fun c hc hb => ?_⟩
  have hc := hlength ▸ hc
  obtain ⟨tour, htour⟩ := h.exists_tour hc hb
  obtain ⟨l, hlisting, hl⟩ := h.exists_listing hc hb
  refine ⟨fun a => h.basePath_isSome_iff hc hb, fun a path hpath =>
    ⟨(pathWithin_route hpath).1, fun other => h.turns_lt hb htour hpath⟩,
    tour, htour, htour.listing, ?_, h.basePath_eq_find? hb htour⟩
  rw [hl, hlisting.unique htour.listing]

/-- **The base is reached through the first of two parents**, and from a class on a cycle
the search for it ends without a path. -/
theorem base_path_leftmost_tangle :
    let t := (collect tangle).table.resolve.table
    t.basePath 0 3 = some [1, 3] ∧ t.Route 0 [2, 3] 3 ∧ t.turns 0 [1, 3] < t.turns 0 [2, 3]
      ∧ t.Broken 4 ∧ t.Climbs 3 4 none := by
  intro t
  have hfacts : t.classes.length = 6 ∧ (t.classAt 0).state = .resolved
      ∧ (t.classAt 4).state = .cyclic ∧ 2 ∈ (t.classAt 0).resolvedParents
      ∧ 3 ∈ (t.classAt 2).resolvedParents ∧ t.basePath 0 3 = some [1, 3]
      ∧ t.basePath 4 3 = none := by decide +kernel
  obtain ⟨hlength, hsound, hcyclic, hright, hbase, hpath, hnone⟩ := hfacts
  have hb : ¬ t.Broken 0 := by
    unfold Broken
    rw [hsound]
    exact Bool.false_ne_true
  have hbroken : t.Broken 4 := by
    unfold Broken
    rw [hcyclic]
    rfl
  have hroute : t.Route 0 [2, 3] 3 := .step hright (.step hbase .here)
  obtain ⟨hends, hleft⟩ := base_path_leftmost tangle
  obtain ⟨-, hturns, -⟩ := hleft 0 (hlength ▸ by decide) hb
  exact ⟨hpath, hroute, (hturns 3 [1, 3] hpath).2 [2, 3] hroute (by decide), hbroken,
    (hends 4 3 none).mpr hnone.symm⟩

end Heritage
