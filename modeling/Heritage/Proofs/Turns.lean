import Heritage.Proofs.Flattening
import Heritage.Proofs.Resolvable

/-!
# Members and ambiguities, class by class

The classes of a table are given their members one after the other, and with each
turn the ambiguities that arise in a class are reported. Whether one arises is read
off the members of its parents, in the table as it stands; parents have their turns
first, so what is read there is final.
-/

namespace Heritage

namespace SymbolTable

variable {t u : SymbolTable}

/-- Give a class its members, and report the names that are ambiguous in it and, so
far, in none of its parents. -/
def flattenTurn (g : Ancestry) (s : SymbolTable × List Issue) (c : ClassId) :
    SymbolTable × List Issue :=
  (s.1.flattenClass g c,
    s.2 ++ ((s.1.membersOf g c).ambiguous.filter fun name => !s.1.inheritsAmbiguity c name).map
      (s.1.ambiguity g c))

theorem classAt_of_bare (hbare : u.bare = t.bare) (c : ClassId) :
    (u.classAt c).bare = (t.classAt c).bare := by
  rw [← bare_classAt, hbare, bare_classAt]

theorem resolvedParents_of_bare (hbare : u.bare = t.bare) (c : ClassId) :
    (u.classAt c).resolvedParents = (t.classAt c).resolvedParents :=
  (congrArg ClassSymbol.resolvedParents (classAt_of_bare hbare c) :)

theorem orderParents_of_bare (hbare : u.bare = t.bare) : u.orderParents = t.orderParents := by
  funext c
  have hstate : (u.classAt c).state = (t.classAt c).state :=
    (congrArg ClassSymbol.state (classAt_of_bare hbare c) :)
  unfold orderParents
  rw [hstate, resolvedParents_of_bare hbare]

/-- What is said of an ambiguity does not depend on what any class has. -/
theorem ambiguity_of_bare (hbare : u.bare = t.bare) (g : Ancestry) :
    u.ambiguity g = t.ambiguity g := by
  have hname : ∀ c, (u.classAt c).name = (t.classAt c).name :=
    fun c => (congrArg ClassSymbol.name (classAt_of_bare hbare c) :)
  have hspan : ∀ c, (u.classAt c).span = (t.classAt c).span :=
    fun c => (congrArg ClassSymbol.span (classAt_of_bare hbare c) :)
  have hlinearization : u.linearization = t.linearization := by
    rw [← bare_linearization, hbare, bare_linearization]
  have hdeclared : u.declaredMethod = t.declaredMethod :=
    (congrArg SymbolTable.declaredMethod hbare :)
  funext c name
  unfold ambiguity methodCandidates
  simp only [hname, hspan, hlinearization, hdeclared]

section Turns

variable (h : t.Fresh)
include h

/-- **A class that has its turn after its parents** reports the names of which it is
a root. -/
theorem Fresh.flattenTurn_eq {done : List ClassId} {c : ClassId} (issues : List Issue)
    (hflat : Flattening t.ancestry t.resolve.table u done) (hc : c < t.classes.length)
    (hparents : ¬ t.resolve.table.Broken c → ∀ a, t.resolve.table.Parent c a → a ∈ done) :
    flattenTurn t.ancestry (u, issues) c
      = (u.flattenClass t.ancestry c,
        issues ++ t.resolve.table.ambiguitiesOf t.ancestry c) := by
  have hmembers : u.membersOf t.ancestry c = (t.resolve.table.classAt c).members := by
    rw [← bare_membersOf, hflat.bare, bare_membersOf, h.resolve_members hc]
  -- The parents are read off the unfinished table; where a name is ambiguous they are done.
  have hinherits : ∀ name ∈ (t.resolve.table.classAt c).members.ambiguous,
      u.inheritsAmbiguity c name = t.resolve.table.inheritsAmbiguity c name := by
    intro name hname
    have hb := (h.not_broken_of_ambiguous hname).2
    unfold inheritsAmbiguity
    rw [resolvedParents_of_bare hflat.bare, Bool.eq_iff_iff, List.any_eq_true, List.any_eq_true]
    refine exists_congr fun a => and_congr_right fun ha => ?_
    have hlt := h.resolve_inside c a ha
    rw [hflat.finished a (hparents hb a ha) hlt, h.resolve_members (t.resolve_length ▸ hlt)]
  unfold flattenTurn ambiguitiesOf
  dsimp only
  rw [hmembers, ambiguity_of_bare hflat.bare,
    List.filter_congr fun name hname => congrArg (!·) (hinherits name hname)]

/-- **The turns give every class its members and report the roots**, in the order of
resolution. -/
theorem Fresh.foldl_flattenTurn (hbare : u.bare = t.resolve.table.bare) :
    t.resolve.table.resolutionOrder.foldl (flattenTurn t.ancestry) (u, [])
      = (t.resolve.table, t.resolve.table.ambiguities t.ancestry) := by
  -- What is reported so far are the ambiguities of the classes that are done.
  suffices ∀ (todo done : List ClassId) (u : SymbolTable),
      t.resolve.table.resolutionOrder = done ++ todo →
      Flattening t.ancestry t.resolve.table u done →
      todo.foldl (flattenTurn t.ancestry)
          (u, done.flatMap (t.resolve.table.ambiguitiesOf t.ancestry))
        = (t.resolve.table, t.resolve.table.ambiguities t.ancestry) from
    this _ [] u (List.nil_append _).symm ⟨hbare, fun _ hc => nomatch hc⟩
  intro todo
  induction todo with
  | nil =>
    intro done u hsplit hflat
    rw [List.append_nil] at hsplit
    obtain rfl := h.eq_of_flattening hflat fun c hc => hsplit ▸ h.mem_resolutionOrder.mpr hc
    rw [List.foldl_nil, ← hsplit]
    rfl
  | cons c rest ih =>
    intro done u hsplit hflat
    have hc : c < t.classes.length :=
      h.mem_resolutionOrder.mp (hsplit ▸ List.mem_append_right _ List.mem_cons_self)
    have hparents : ¬ t.resolve.table.Broken c → ∀ a, t.resolve.table.Parent c a → a ∈ done :=
      fun hb a ha =>
        h.resolve_inside.resolutionOrder_behind (fun _ => h.acyclic) hsplit hb ha
    have hissues : done.flatMap (t.resolve.table.ambiguitiesOf t.ancestry)
          ++ t.resolve.table.ambiguitiesOf t.ancestry c
        = (done ++ [c]).flatMap (t.resolve.table.ambiguitiesOf t.ancestry) := by
      rw [List.flatMap_append, List.flatMap_singleton]
    rw [List.foldl_cons, h.flattenTurn_eq _ hflat hc hparents, hissues]
    exact ih (done ++ [c]) _ (by rw [hsplit, List.append_cons]) (hflat.flattenClass c)

end Turns

end SymbolTable

end Heritage
