import Heritage.Proofs.FirstOccurrences
import Heritage.Proofs.Resolvable

/-!
# What names denote in a class

In a program whose declarations are in order, the members that a resolved table
has for a class are those that the program has for its name. For methods this is
one of the most derived declarations, which all take and return the same types.
For fields it is the first most derived declaration in the listing of the
ancestors, of which the linearization keeps first occurrences: whichever passes
a test first in one passes it first in the other.
-/

namespace Heritage

open SymbolTable

/-! ## What is found first -/

theorem findSome?_filterMap_eq {α β γ : Type} (f : α → Option β) (g : β → Option γ) (l : List α) :
    (l.filterMap f).findSome? g = l.findSome? fun a => (f a).bind g := by
  induction l with
  | nil => rfl
  | cons a rest ih =>
    rw [List.filterMap_cons, List.findSome?_cons]
    cases f a with
    | none => exact ih
    | some b =>
      rw [List.findSome?_cons, ih]
      rfl

theorem findSome?_congr_mem {α β : Type} {f g : α → Option β} {l : List α}
    (h : ∀ a ∈ l, f a = g a) : l.findSome? f = l.findSome? g := by
  induction l with
  | nil => rfl
  | cons a rest ih =>
    rw [List.findSome?_cons, List.findSome?_cons, h a List.mem_cons_self,
      ih (fun b hb => h b (List.mem_cons_of_mem a hb))]

theorem find?_decide_eq_some_iff {α : Type} {P : α → Prop} [DecidablePred P] {l : List α} {a : α} :
    l.find? (fun x => decide (P x)) = some a
      ↔ ∃ before behind, l = before ++ a :: behind ∧ P a ∧ ∀ b ∈ before, ¬ P b := by
  rw [List.find?_eq_some_iff_append]
  simp only [decide_eq_true_eq, Bool.not_eq_true', decide_eq_false_iff_not]
  constructor
  · rintro ⟨ha, before, behind, hl, hno⟩
    exact ⟨before, behind, hl, ha, hno⟩
  · rintro ⟨before, behind, hl, ha, hno⟩
    exact ⟨ha, before, behind, hl, hno⟩

namespace Represents

variable {p : Program} {t : SymbolTable} (h : Represents p t)
include h

/-! ## Listings -/

/-- Every class has a listing. -/
theorem exists_listing (hanc : p.AncestryOk) {c : ClassId} (hc : c < t.classes.length) :
    ∃ l, p.Listing (t.classAt c).name l := by
  classical
  refine h.fresh.induction (P := fun c => ∃ l, p.Listing (t.classAt c).name l)
    (fun c hc ih => ?_) hc
  have hb := h.fresh.not_broken_of_sound (h.ancestryOk_iff.mp hanc) c
  obtain ⟨d, hd⟩ := h.decl_of_lt hc
  have hparent : ∀ q ∈ d.parents, ∃ l, p.Listing q.text l := by
    intro q hq
    obtain ⟨a, ha⟩ := h.hasClass_iff.mp (hanc.parents d (List.mem_of_getElem? hd) q hq)
    have hp : t.resolve.table.Parent c a := by
      rw [h.fresh.resolve_parent_iff, (h.classAt hd).2]
      exact ⟨q, hq, ha⟩
    rw [← ((lookupClass_eq_some_iff h.formed).mp ha).2]
    exact ih hb a hp
  rw [(h.classAt hd).1]
  refine ⟨_, Program.Listing.node (List.mem_of_getElem? hd)
    (fun w => if hw : ∃ l, p.Listing w l then hw.choose else []) (fun q hq => ?_)⟩
  rw [dif_pos (hparent q hq)]
  exact (hparent q hq).choose_spec

/-- What passes a test first in a linearization. -/
theorem find?_linearization {c : ClassId} (hc : c < t.classes.length)
    (hb : ¬ t.resolve.table.Broken c) (q : ClassId → Bool) :
    (t.resolve.table.linearization c).find? q
      = if q c then some c
        else (t.classAt c).parents.findSome? fun w =>
          (t.lookupClass w.text).bind fun a => (t.resolve.table.linearization a).find? q := by
  rw [h.fresh.linearization_eq hc hb, find?_eraseDups, List.find?_cons, List.find?_flatMap,
    h.fresh.resolve_parents, parented_classAt]
  cases q c with
  | true => rfl
  | false => exact (findSome?_eraseDups _ _).trans (findSome?_filterMap_eq _ _ _)

/-- **What passes a test first in the listing of a class passes it first in the
linearization.** -/
theorem find?_listing (hanc : p.AncestryOk) {x : String} {l : List String} (hl : p.Listing x l)
    {q : String → Bool} {r : ClassId → Bool}
    (hq : ∀ a < t.classes.length, q (t.classAt a).name = r a) {c : ClassId}
    (hc : c < t.classes.length) (hx : (t.classAt c).name = x) :
    l.find? q
      = ((t.resolve.table.linearization c).find? r).map fun a => (t.classAt a).name := by
  induction hl generalizing c with
  | @node d hd listing hparents ih =>
    have hb := h.fresh.not_broken_of_sound (h.ancestryOk_iff.mp hanc) c
    have hdc := (h.decl_of_name hc).mp ⟨hd, hx.symm⟩
    rw [h.find?_linearization hc hb, List.find?_cons, ← hx, hq c hc, List.find?_flatMap,
      (h.classAt hdc).2]
    cases r c with
    | true => rfl
    | false =>
      rw [if_neg Bool.false_ne_true, List.map_findSome?]
      refine findSome?_congr_mem (fun w hw => ?_)
      obtain ⟨a, ha⟩ := h.hasClass_iff.mp (hanc.parents d hd w hw)
      obtain ⟨hlt, hname⟩ := (lookupClass_eq_some_iff h.formed).mp ha
      rw [ih w hw hlt hname, Function.comp_apply, ha]
      rfl

/-! ## Fields -/

/-- **The type of a field in a resolved table** is the one it was written
with. -/
theorem field_type (htypes : p.TypesOk) {c : ClassId} (hc : c < t.classes.length) {name : String}
    {v : VarId} (hv : t.declaredField c name = some v) :
    ∃ τ w, (t.resolve.table.varAt v).type = some τ ∧ (t.resolve.table.varAt v).kind = .field
      ∧ t.Known τ ∧ τ ≠ .void ∧ (t.varAt v).typeName = some w ∧ t.sourceTy τ = .ofWord w.text := by
  obtain ⟨d, f, x, hd, hf, hx, hn, hat⟩ := h.declaredField_symbol hc hv
  have hword : f.type ∈ (Member.field f).typeWords := List.mem_map.mpr ⟨x, hx, rfl⟩
  obtain ⟨τ, hτ, hvoid⟩ := h.isValueType_iff.mp
    (htypes.values d (List.mem_of_getElem? hd) _ hf f.type hword)
  obtain ⟨hk, hs⟩ := h.resolveType_eq_some hτ
  rw [resolve_varAt, hat]
  refine ⟨τ, f.type, ?_, rfl, hk, hvoid, rfl, hs⟩
  show (t.resolveType f.type.text).filter (· != .void) = some τ
  rw [hτ, Option.filter_some, if_pos (bne_iff_ne.mpr hvoid)]

theorem sourceTy_field (htypes : p.TypesOk) {c : ClassId} (hc : c < t.classes.length)
    {name type : String} (hd : p.DeclaresField (t.classAt c).name name type) :
    ∃ v τ, t.declaredField c name = some v ∧ (t.resolve.table.varAt v).type = some τ
      ∧ t.sourceTy τ = .ofWord type := by
  obtain ⟨v, w, hv, hw, rfl⟩ := (h.declaresField_iff hc).mp hd
  obtain ⟨τ, w', hτ, -, -, -, hw', hs⟩ := h.field_type htypes hc hv
  obtain rfl := Option.some.inj (hw.symm.trans hw')
  exact ⟨v, τ, hv, hτ, hs⟩

theorem mostDerived_field_iff (hanc : p.AncestryOk) {name : String} {c a : ClassId}
    (hc : c < t.classes.length) (ha : a < t.classes.length) :
    p.MostDerived (p.HasField name) (t.classAt c).name (t.classAt a).name
      ↔ t.resolve.table.MostDerived c (fun a => t.resolve.table.declaredField a name ≠ none) a := by
  rw [h.mostDerived_iff hanc (fun a ha => ?_) hc]
  · constructor
    · rintro ⟨b, hb, hname, hm⟩
      rwa [← h.name_inj hb ha hname]
    · intro hm
      exact ⟨a, ha, rfl, hm⟩
  · rw [declaredField_of_declared (resolve_declared t)]
    exact h.hasField_iff ha

/-- The field that a name denotes has a type of values. -/
theorem findField_type (htypes : p.TypesOk) (hanc : p.AncestryOk) {c : ClassId}
    (hc : c < t.classes.length) {name : String} {v : VarId}
    (hv : t.resolve.table.findField c name = some v) :
    ∃ τ, (t.resolve.table.varAt v).type = some τ ∧ (t.resolve.table.varAt v).kind = .field
      ∧ t.Known τ ∧ τ ≠ .void := by
  have hb := h.fresh.not_broken_of_sound (h.ancestryOk_iff.mp hanc) c
  have hdecl := declaredField_of_declared (resolve_declared t)
  rcases (h.fresh.findField_iff h.formed hc hb).mp hv with hown | ⟨-, _, a, _, -, hm, hown, -⟩
  · rw [hdecl] at hown
    obtain ⟨τ, _, hτ, hk, hknown, hvoid, -⟩ := h.field_type htypes hc hown
    exact ⟨τ, hτ, hk, hknown, hvoid⟩
  · rw [hdecl] at hown
    have ha : a < t.classes.length :=
      t.resolve_length ▸ h.fresh.resolve_inside.ancestor_lt hm.ancestor
    obtain ⟨τ, _, hτ, hk, hknown, hvoid, -⟩ := h.field_type htypes ha hown
    exact ⟨τ, hτ, hk, hknown, hvoid⟩

/-- **The field that a name denotes in a class has the type that it has in the
program.** -/
theorem fieldType_iff (htypes : p.TypesOk) (hanc : p.AncestryOk) {c : ClassId}
    (hc : c < t.classes.length) {name : String} {σ : SourceTy} :
    p.FieldType (t.classAt c).name name σ
      ↔ ∃ v τ, t.resolve.table.findField c name = some v
        ∧ (t.resolve.table.varAt v).type = some τ ∧ t.sourceTy τ = σ := by
  classical
  have hb := h.fresh.not_broken_of_sound (h.ancestryOk_iff.mp hanc) c
  have hdecl := declaredField_of_declared (resolve_declared t)
  have hfirst : ∀ {l : List String}, p.Listing (t.classAt c).name l →
      l.find? (fun x => decide (p.MostDerived (p.HasField name) (t.classAt c).name x))
        = ((t.resolve.table.linearization c).find? fun a => decide
          (t.resolve.table.MostDerived c (fun a => t.resolve.table.declaredField a name ≠ none)
            a)).map fun a => (t.classAt a).name :=
    fun hl => h.find?_listing hanc hl
      (fun a ha => decide_eq_decide.mpr (h.mostDerived_field_iff hanc hc ha)) hc rfl
  constructor
  · intro hf
    cases hf with
    | own hd =>
      obtain ⟨v, τ, hv, hτ, hs⟩ := h.sourceTy_field htypes hc hd
      refine ⟨v, τ, (h.fresh.findField_iff h.formed hc hb).mpr (Or.inl ?_), hτ, hs⟩
      rw [hdecl, hv]
    | @inherited type x before behind fresh listing first earlier declared =>
      have hfound := hfirst listing
      rw [find?_decide_eq_some_iff.mpr ⟨before, behind, rfl, first, earlier⟩] at hfound
      obtain ⟨a, ha, rfl⟩ := Option.map_eq_some_iff.mp hfound.symm
      obtain ⟨before', behind', hlin, hm, hno⟩ := find?_decide_eq_some_iff.mp ha
      have hlt : a < t.classes.length :=
        t.resolve_length ▸ h.fresh.resolve_inside.ancestor_lt hm.ancestor
      obtain ⟨v, τ, hv, hτ, hs⟩ := h.sourceTy_field htypes hlt declared
      refine ⟨v, τ, (h.fresh.findField_iff h.formed hc hb).mpr (Or.inr ⟨?_, before', a, behind',
        hlin, hm, ?_, hno⟩), hτ, hs⟩
      · rw [hdecl]
        exact not_not.mp (mt (h.hasField_iff hc).mpr fresh)
      · rw [hdecl, hv]
  · rintro ⟨v, τ, hv, hτ, rfl⟩
    rcases (h.fresh.findField_iff h.formed hc hb).mp hv with
      hown | ⟨hnone, before, a, behind, hlin, hm, hown, hno⟩
    · rw [hdecl] at hown
      obtain ⟨τ', w, hτ', -, -, -, hw, hs⟩ := h.field_type htypes hc hown
      obtain rfl := Option.some.inj (hτ.symm.trans hτ')
      rw [hs]
      exact .own ((h.declaresField_iff hc).mpr ⟨v, w, hown, hw, rfl⟩)
    · rw [hdecl] at hown hnone
      have ha : a < t.classes.length :=
        t.resolve_length ▸ h.fresh.resolve_inside.ancestor_lt hm.ancestor
      obtain ⟨τ', w, hτ', -, -, -, hw, hs⟩ := h.field_type htypes ha hown
      obtain rfl := Option.some.inj (hτ.symm.trans hτ')
      obtain ⟨l, hl⟩ := h.exists_listing hanc hc
      have hfound := hfirst hl
      rw [find?_decide_eq_some_iff.mpr ⟨before, behind, hlin, hm, hno⟩] at hfound
      obtain ⟨before', behind', rfl, hmost, hno'⟩ := find?_decide_eq_some_iff.mp hfound
      rw [hs]
      refine .inherited ?_ hl hmost hno'
        ((h.declaresField_iff ha).mpr ⟨v, w, hown, hw, rfl⟩)
      rw [h.hasField_iff hc, hnone, not_not]

/-! ## Methods -/

/-- **The method that a name denotes in a class is one that it denotes in the
program.** -/
theorem method_of_findMethod (hanc : p.AncestryOk) {c : ClassId} (hc : c < t.classes.length)
    {name : String} {m : MethodId} (hm : t.resolve.table.findMethod c name = some m) :
    ∃ a decl, HoldsMethod p t m a decl ∧ p.Method (t.classAt c).name name decl := by
  have hb := h.fresh.not_broken_of_sound (h.ancestryOk_iff.mp hanc) c
  have hdecl := declaredMethod_of_declared (resolve_declared t)
  cases hown : t.declaredMethod c name with
  | some m' =>
    have hfound := h.fresh.findMethod_own hc hb ((hdecl c name).trans hown)
    obtain rfl := Option.some.inj (hm.symm.trans hfound)
    obtain ⟨decl, hd, hname⟩ := h.holds_of_declaredMethod hown
    exact ⟨c, decl, hd, .own ((h.declaresMethod_iff hc).mpr ⟨m, hd⟩) hname⟩
  | none =>
    obtain ⟨a, hmost, ha⟩ := h.fresh.findMethod_inherited hc hb ((hdecl c name).trans hown) hm
    rw [hdecl] at ha
    obtain ⟨decl, hd, hname⟩ := h.holds_of_declaredMethod ha
    have hlt := h.holdsMethod_lt hd
    refine ⟨a, decl, hd, .inherited ?_
      ((h.mostDerived_method_iff hanc hc).mpr ⟨a, hlt, rfl, hmost⟩)
      ((h.declaresMethod_iff hlt).mpr ⟨m, hd⟩) hname⟩
    rw [h.hasMethod_iff hc, hown, not_not]

/-- **A method that a name denotes in the program is found in the table**, or
another one that takes and returns the same types. -/
theorem findMethod_of_method (htypes : p.TypesOk) (hanc : p.AncestryOk) (hamb : p.Unambiguous)
    {c : ClassId} (hc : c < t.classes.length) {name : String} {decl : MethodDecl}
    (hm : p.Method (t.classAt c).name name decl) :
    ∃ m a decl', t.resolve.table.findMethod c name = some m ∧ HoldsMethod p t m a decl'
      ∧ decl'.argTypes = decl.argTypes ∧ decl'.result = decl.result := by
  have hb := h.fresh.not_broken_of_sound (h.ancestryOk_iff.mp hanc) c
  have hdecl := declaredMethod_of_declared (resolve_declared t)
  cases hm with
  | own hd hname =>
    obtain ⟨m, hm⟩ := (h.declaresMethod_iff hc).mp hd
    refine ⟨m, c, decl, h.fresh.findMethod_own hc hb ?_, hm, rfl, rfl⟩
    rw [hdecl, ← hname, h.declaredMethod_of_holds hm]
  | @inherited x _ fresh most declared hname =>
    have hown : t.declaredMethod c name = none := not_not.mp (mt (h.hasMethod_iff hc).mpr fresh)
    obtain ⟨a, ha, rfl, hmost⟩ := (h.mostDerived_method_iff hanc hc).mp most
    cases hfound : t.resolve.table.findMethod c name with
    | none =>
      rw [h.fresh.findMethod_eq hc hb] at hfound
      refine absurd
        ((h.fresh.isAmbiguous_iff hc hb).mpr ⟨hfound, a, hmost.ancestor, hmost.holds⟩) ?_
      exact h.fresh.ambiguities_eq_nil_iff.mp ((h.unambiguous_iff htypes hanc).mp hamb) c hc name
    | some m =>
      obtain ⟨b, hmost', hb'⟩ :=
        h.fresh.findMethod_inherited hc hb ((hdecl c name).trans hown) hfound
      rw [hdecl] at hb'
      obtain ⟨decl', hd, hname'⟩ := h.holds_of_declaredMethod hb'
      have hlt := h.holdsMethod_lt hd
      refine ⟨m, b, decl', rfl, hd, ?_⟩
      exact hamb _ name (h.hasClass_name hc) fresh _ _ decl' decl
        ((h.mostDerived_method_iff hanc hc).mpr ⟨b, hlt, rfl, hmost'⟩) most
        ((h.declaresMethod_iff hlt).mpr ⟨m, hd⟩) hname' declared hname

end Represents

end Heritage
