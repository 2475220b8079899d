import Heritage.Proofs.Lookup
import Heritage.Typing.Expr

/-!
# Typable expressions

The checker finds the type of an expression and what is wrong with it apart from
each other, and an expression without a type causes no further issues around it.
The rules of the language know neither: an expression has a type or has none.
They agree at every point of a body whose variables are those that the rules
have in scope. An expression of which nothing is wrong has a type, and by the
rules it has this one; an expression that has a type by the rules has nothing
wrong with it.

The first half is where silence could go wrong. What has no type is not
reported again around it, so it must have been reported where it stands: a name
that denotes nothing, a call that reaches nothing, a literal out of range.
-/

namespace Heritage

open SymbolTable

/-- **A program of which all but the bodies is in order**, with the table that
holds it. -/
structure Settled (p : Program) (t : SymbolTable) : Prop where
  /-- The table holds the program. -/
  represents : Represents p t
  /-- The written types are types. -/
  types : p.TypesOk
  /-- Every class has its ancestors. -/
  ancestry : p.AncestryOk
  /-- Every inherited method is one. -/
  unambiguous : p.Unambiguous

namespace Settled

variable {p : Program} {t : SymbolTable} (h : Settled p t)
include h

theorem not_broken (c : ClassId) : ¬ t.resolve.table.Broken c :=
  h.represents.fresh.not_broken_of_sound (h.represents.ancestryOk_iff.mp h.ancestry) c

/-- **Values are stored by positions as they are by names.** -/
theorem isCompatible_iff {τ σ : Ty} (hτ : t.Known τ) (hσ : t.Known σ) :
    t.resolve.table.isCompatible τ σ = true ↔ p.Stores (t.sourceTy τ) (t.sourceTy σ) := by
  unfold isCompatible Program.Stores
  rw [Bool.or_eq_true, beq_iff_eq, h.represents.sourceTy_inj hτ hσ]
  constructor
  · rintro (heq | hlin)
    · exact Or.inl heq
    · cases τ with
      | int => cases hlin
      | void => cases hlin
      | cls c =>
        cases σ with
        | int => cases hlin
        | void => cases hlin
        | cls a =>
          rcases (h.represents.fresh.mem_linearization hτ (h.not_broken c)).mp
            (List.contains_iff_mem.mp hlin) with rfl | hanc
          · exact Or.inl rfl
          · exact Or.inr ⟨_, _, rfl, rfl, (h.represents.ancestor_iff hτ hσ).mpr hanc⟩
  · rintro (heq | ⟨x, y, hx, hy, hanc⟩)
    · exact Or.inl heq
    · refine Or.inr ?_
      cases τ with
      | int => cases hx
      | void => cases hx
      | cls c =>
        cases σ with
        | int => cases hy
        | void => cases hy
        | cls a =>
          obtain rfl := SourceTy.object.inj hx
          obtain rfl := SourceTy.object.inj hy
          refine List.contains_iff_mem.mpr ?_
          rw [h.represents.fresh.mem_linearization hτ (h.not_broken c)]
          exact Or.inr ((h.represents.ancestor_iff hτ hσ).mp hanc)

end Settled

/-! ## Calls -/

/-- **What a method name denotes in a class**: a method of the table that takes
and returns the types that it has by the rules. -/
structure Reached (p : Program) (t : SymbolTable) (c : ClassId) (name : String) (m : MethodId)
    (ts : List Ty) (τ : Ty) : Prop where
  /-- The types of the parameters. -/
  params : t.resolve.table.paramTypes m = ts.map some
  /-- They are types. -/
  known : ∀ σ ∈ ts, t.Known σ
  /-- The type of the result. -/
  returns : (t.resolve.table.methodAt m).returnType = some τ
  /-- It is a type. -/
  result_known : t.Known τ
  /-- The name denotes a method by the rules. -/
  denotes : ∃ decl, p.Method (t.classAt c).name name decl
  /-- Every method that it denotes has these types. -/
  written : ∀ decl, p.Method (t.classAt c).name name decl →
    ts.map t.sourceTy = decl.argTypes ∧ t.sourceTy τ = decl.result

namespace Site

variable {p : Program} {t : SymbolTable} {s : Site}

/-- **A call of a method reaches one exactly if its name denotes one by the
rules**, and says so otherwise. -/
theorem methodTarget_cases (h : Settled p t) (hs : s.table = t.resolve.table) {c : ClassId}
    (hc : c < t.classes.length) (callee : Ident) :
    (∃ m ts τ, s.methodTarget c callee = .method c m ∧ Reached p t c callee.text m ts τ)
      ∨ ∃ i, s.methodTarget c callee = .nothing (some i)
        ∧ ∀ decl, ¬ p.Method (t.classAt c).name callee.text decl := by
  have hr := h.represents
  unfold methodTarget methodNamed
  rw [hs]
  cases hm : t.resolve.table.findMethod c callee.text with
  | some m =>
    obtain ⟨a, decl, hholds, hmethod⟩ := hr.method_of_findMethod h.ancestry hc hm
    obtain ⟨ts, τ, htypes⟩ := hr.takesAndReturns h.types hholds
    refine Or.inl ⟨m, ts, τ, rfl, htypes.params, fun σ hσ => (htypes.known σ hσ).1,
      htypes.returns, htypes.result_known, ⟨decl, hmethod⟩, fun decl' hmethod' => ?_⟩
    obtain ⟨m', a', decl'', hm', hholds', hargs, hresult⟩ :=
      hr.findMethod_of_method h.types h.ancestry h.unambiguous hc hmethod'
    obtain rfl := Option.some.inj (hm.symm.trans hm')
    obtain ⟨ts', τ', htypes'⟩ := hr.takesAndReturns h.types hholds'
    have hts : ts = ts' := (List.map_inj_right fun _ _ => Option.some.inj).mp
      (htypes.params.symm.trans htypes'.params)
    have hτ : τ = τ' := Option.some.inj (htypes.returns.symm.trans htypes'.returns)
    rw [hts, hτ, htypes'.args, htypes'.result]
    exact ⟨hargs, hresult⟩
  | none =>
    have hamb := hr.fresh.ambiguities_eq_nil_iff.mp
      ((hr.unambiguous_iff h.types h.ancestry).mp h.unambiguous) c hc callee.text
    have hbroken : ¬ (t.resolve.table.classAt c).state.isBroken = true := h.not_broken c
    rw [if_neg hamb, if_neg hbroken]
    refine Or.inr ⟨_, rfl, fun decl hmethod => ?_⟩
    obtain ⟨m, _, _, hm', -⟩ :=
      hr.findMethod_of_method h.types h.ancestry h.unambiguous hc hmethod
    exact Option.some_ne_none m (hm'.symm.trans hm)

end Site

/-! ## Points of a body -/

/-- **A point of a body at which the variables are those that the rules have in
scope.** -/
structure Site.Models (t : SymbolTable) (s : Site) (Γ : Context) : Prop where
  /-- The table is the resolved one. -/
  table : s.table = t.resolve.table
  /-- The body belongs to a class. -/
  cls_lt : s.cls < t.classes.length
  /-- A name that denotes a variable is bound to its type. -/
  bound : ∀ {name v}, s.env.lookup s.table name = some v →
    ∃ b τ, Γ.find name = some b ∧ s.varType? v = some τ ∧ t.Known τ ∧ τ ≠ .void
      ∧ b.type = t.sourceTy τ ∧ (b.fixed = true ↔ (s.table.varAt v).kind = .receiver)
  /-- A name that denotes none is free. -/
  free : ∀ {name}, s.env.lookup s.table name = none → Γ.find name = none

/-- **The checker and the rules agree on an expression.** -/
structure Site.Agrees (p : Program) (t : SymbolTable) (s : Site) (Γ : Context) (e : Expr) :
    Prop where
  /-- What has nothing wrong with it has the type that was found. -/
  typed : s.issues e = [] →
    ∃ τ, s.type? e = some τ ∧ t.Known τ ∧ HasType p (t.classAt s.cls).name Γ e (t.sourceTy τ)
  /-- What has a type has nothing wrong with it. -/
  clean : ∀ {σ}, HasType p (t.classAt s.cls).name Γ e σ →
    s.issues e = [] ∧ ∃ τ, s.type? e = some τ ∧ t.Known τ ∧ t.sourceTy τ = σ

namespace Site

variable {p : Program} {t : SymbolTable} {s : Site} {Γ : Context} {e : Expr}

/-! ## Values -/

/-- An expression of which nothing is wrong has a value of a type. -/
def HasValue (s : Site) (e : Expr) (τ : Ty) : Prop :=
  s.issues e = [] ∧ s.type? e = some τ ∧ τ ≠ .void

theorem valueType?_eq_some_iff {τ : Ty} :
    s.valueType? e = some τ ↔ s.type? e = some τ ∧ τ ≠ .void := by
  unfold valueType? asValue
  rw [Option.filter_eq_some_iff, bne_iff_ne]

theorem useIssues_eq_nil_iff : s.useIssues e = [] ↔ s.type? e ≠ some .void := by
  unfold useIssues valueIssue?
  cases s.type? e with
  | none => simp
  | some τ => cases τ <;> simp

/-- **Nothing is wrong with the use of a value** exactly if there is a value, and
nothing is wrong with what it is used for. -/
theorem use_eq_nil_iff (poison : s.issues e = [] → ∃ τ, s.type? e = some τ)
    (more : Ty → Option Issue) :
    s.valueIssues e ++ (match s.valueType? e with
        | none => []
        | some τ => (more τ).toList) = []
      ↔ ∃ τ, s.HasValue e τ ∧ more τ = none := by
  unfold valueIssues
  rw [List.append_eq_nil_iff, List.append_eq_nil_iff, useIssues_eq_nil_iff]
  constructor
  · rintro ⟨⟨hissues, hvoid⟩, hmore⟩
    obtain ⟨τ, hτ⟩ := poison hissues
    have hne : τ ≠ .void := fun heq => hvoid (heq ▸ hτ)
    rw [valueType?_eq_some_iff.mpr ⟨hτ, hne⟩] at hmore
    exact ⟨τ, ⟨hissues, hτ, hne⟩, Option.toList_eq_nil_iff.mp hmore⟩
  · rintro ⟨τ, ⟨hissues, hτ, hne⟩, hmore⟩
    refine ⟨⟨hissues, fun hvoid => hne (Option.some.inj (hτ.symm.trans hvoid))⟩, ?_⟩
    rw [valueType?_eq_some_iff.mpr ⟨hτ, hne⟩]
    exact Option.toList_eq_nil_iff.mpr hmore

theorem Agrees.poison (ha : Agrees p t s Γ e) (hissues : s.issues e = []) :
    ∃ τ, s.type? e = some τ := by
  obtain ⟨τ, hτ, -⟩ := ha.typed hissues
  exact ⟨τ, hτ⟩

/-- **An integer is an integer by the rules.** -/
theorem Agrees.hasValue_int_iff (ha : Agrees p t s Γ e) :
    s.HasValue e .int ↔ HasType p (t.classAt s.cls).name Γ e .int := by
  constructor
  · rintro ⟨hissues, hτ, -⟩
    obtain ⟨τ, hτ', -, htyped⟩ := ha.typed hissues
    obtain rfl := Option.some.inj (hτ.symm.trans hτ')
    exact htyped
  · intro htyped
    obtain ⟨hissues, τ, hτ, -, hint⟩ := ha.clean htyped
    cases τ with
    | int => exact ⟨hissues, hτ, Ty.noConfusion⟩
    | void => cases hint
    | cls c => cases hint

theorem sourceTy_ne_void_iff {τ : Ty} : t.sourceTy τ ≠ .void ↔ τ ≠ .void := by
  cases τ with
  | int => exact iff_of_true SourceTy.noConfusion Ty.noConfusion
  | void => exact iff_of_false (fun hne => hne rfl) (fun hne => hne rfl)
  | cls c => exact iff_of_true SourceTy.noConfusion Ty.noConfusion

/-- **A value that fits has one by the rules that can be stored.** -/
theorem Agrees.hasValueFor_iff (ha : Agrees p t s Γ e) (h : Settled p t)
    (hs : s.table = t.resolve.table) {σ : Ty} (hσ : t.Known σ) :
    (∃ τ, s.HasValue e τ ∧ s.table.isCompatible τ σ = true)
      ↔ HasValueFor p (t.classAt s.cls).name Γ e (t.sourceTy σ) := by
  rw [hs]
  constructor
  · rintro ⟨τ, ⟨hissues, hτ, hvoid⟩, hfits⟩
    obtain ⟨τ', hτ', hknown, htyped⟩ := ha.typed hissues
    obtain rfl := Option.some.inj (hτ.symm.trans hτ')
    exact ⟨_, htyped, sourceTy_ne_void_iff.mpr hvoid, (h.isCompatible_iff hknown hσ).mp hfits⟩
  · rintro ⟨x, htyped, hvoid, hstores⟩
    obtain ⟨hissues, τ, hτ, hknown, rfl⟩ := ha.clean htyped
    exact ⟨τ, ⟨hissues, hτ, sourceTy_ne_void_iff.mp hvoid⟩,
      (h.isCompatible_iff hknown hσ).mpr hstores⟩

/-- **Nothing is wrong with a stored value** exactly if it can be stored by the
rules. -/
theorem Agrees.checkIssues_eq_nil_iff (ha : Agrees p t s Γ e) (h : Settled p t)
    (hs : s.table = t.resolve.table) {σ : Ty} (hσ : t.Known σ) (use : String) :
    s.checkIssues e (some σ) use = []
      ↔ HasValueFor p (t.classAt s.cls).name Γ e (t.sourceTy σ) := by
  have hstore : s.storeIssues e (some σ) use = match s.valueType? e with
      | none => []
      | some τ => (s.table.storeIssue? τ σ use e.span).toList := by
    unfold storeIssues
    cases s.valueType? e with
    | none => rfl
    | some τ => rfl
  unfold checkIssues
  rw [hstore, use_eq_nil_iff ha.poison fun τ => s.table.storeIssue? τ σ use e.span,
    ← ha.hasValueFor_iff h hs hσ]
  refine exists_congr fun τ => and_congr_right fun _ => ?_
  unfold storeIssue?
  split
  · rename_i hfits
    exact iff_of_true rfl hfits
  · rename_i hfits
    exact iff_of_false (Option.some_ne_none _) hfits

/-- **Nothing is wrong with a value that must be an integer** exactly if it is one
by the rules. -/
theorem Agrees.integer_eq_nil_iff (ha : Agrees p t s Γ e) {more : Ty → Option Issue}
    (hmore : ∀ τ, more τ = none ↔ τ = .int) :
    s.valueIssues e ++ (match s.valueType? e with
        | none => []
        | some τ => (more τ).toList) = []
      ↔ HasType p (t.classAt s.cls).name Γ e .int := by
  rw [use_eq_nil_iff ha.poison more, ← ha.hasValue_int_iff]
  constructor
  · rintro ⟨τ, hvalue, hint⟩
    exact (hmore τ).mp hint ▸ hvalue
  · intro hvalue
    exact ⟨.int, hvalue, (hmore .int).mpr rfl⟩

theorem operandIssue?_eq_none_iff {u : SymbolTable} {op : BinOp} {τ : Ty} {span : Span} :
    u.operandIssue? op τ span = none ↔ τ = .int := by
  unfold operandIssue?
  split
  · rename_i heq
    exact iff_of_true rfl heq
  · rename_i hne
    exact iff_of_false (Option.some_ne_none _) hne

theorem Agrees.operand_eq_nil_iff (ha : Agrees p t s Γ e) (op : BinOp) :
    s.issues e ++ s.useIssues e ++ s.operandIssues op e = []
      ↔ HasType p (t.classAt s.cls).name Γ e .int :=
  ha.integer_eq_nil_iff fun _ => operandIssue?_eq_none_iff

/-! ## Expressions -/

theorem agrees_int (value : Int) (span : Span) : Agrees p t s Γ (.int value span) := by
  have hfits : fitsInt value = true ↔ -2147483648 ≤ value ∧ value ≤ 2147483647 := by
    unfold fitsInt
    rw [Bool.and_eq_true, decide_eq_true_iff, decide_eq_true_iff]
  constructor
  · intro hissues
    unfold issues literalIssue? at hissues
    split at hissues
    · rename_i hfit
      refine ⟨.int, ?_, trivial, .int (hfits.mp hfit)⟩
      unfold type?
      exact if_pos hfit
    · cases hissues
  · rintro σ (_ | _)
    rename_i hrange
    have hfit := hfits.mpr hrange
    unfold issues type? literalIssue?
    rw [if_pos hfit, if_pos hfit]
    exact ⟨rfl, .int, rfl, trivial, rfl⟩

/-- A field that a name denotes has a type of values. -/
theorem varType?_field (h : Settled p t) (hs : s.Models t Γ) {name : String} {v : VarId}
    (hfind : t.resolve.table.findField s.cls name = some v) :
    ∃ τ, s.varType? v = some τ ∧ (t.resolve.table.varAt v).type = some τ
      ∧ (s.table.varAt v).kind = .field ∧ t.Known τ := by
  obtain ⟨τ, hτ, hkind, hknown, -⟩ :=
    h.represents.findField_type h.types h.ancestry hs.cls_lt hfind
  unfold varType?
  rw [hs.table, hkind]
  exact ⟨τ, hτ, hτ, rfl, hknown⟩

/-- **A name denotes what it denotes by the rules**: a variable in scope, or else
a field of the class. -/
theorem agrees_name (h : Settled p t) (hs : s.Models t Γ) (x : Ident) :
    Agrees p t s Γ (.name x) := by
  have hfield : ∀ {σ}, p.FieldType (t.classAt s.cls).name x.text σ ↔ _ :=
    h.represents.fieldType_iff h.types h.ancestry hs.cls_lt
  constructor
  · intro hissues
    unfold issues var variableNamed at hissues
    unfold type? var variableNamed
    cases hlook : s.env.lookup s.table x.text with
    | some v =>
      obtain ⟨b, τ, hfind, hτ, hknown, -, hb, -⟩ := hs.bound hlook
      refine ⟨τ, hτ, hknown, ?_⟩
      rw [← hb]
      exact .var hfind
    | none =>
      cases hfind : s.table.findField s.cls x.text with
      | some v =>
        rw [hs.table] at hfind
        obtain ⟨τ, hvar, hτ, -, hknown⟩ := varType?_field h hs hfind
        exact ⟨τ, hvar, hknown, .field (hs.free hlook) (hfield.mpr ⟨v, τ, hfind, hτ, rfl⟩)⟩
      | none =>
        rw [hlook, hfind] at hissues
        dsimp only [Option.or] at hissues
        split at hissues
        · rename_i hok
          split at hok <;> cases hok
        · cases hissues
  · intro σ htyped
    unfold issues type? var variableNamed
    cases htyped with
    | @var _ b hfind =>
      cases hlook : s.env.lookup s.table x.text with
      | some v =>
        obtain ⟨b', τ, hfind', hτ, hknown, -, hb, -⟩ := hs.bound hlook
        obtain rfl := Option.some.inj (hfind.symm.trans hfind')
        exact ⟨rfl, τ, hτ, hknown, hb.symm⟩
      | none => cases hfind.symm.trans (hs.free hlook)
    | field hfree hdenotes =>
      cases hlook : s.env.lookup s.table x.text with
      | some v =>
        obtain ⟨b, τ, hfind, -⟩ := hs.bound hlook
        cases hfree.symm.trans hfind
      | none =>
        obtain ⟨v, τ, hfind, hτ, rfl⟩ := hfield.mp hdenotes
        obtain ⟨τ', hvar, hτ', -, hknown⟩ := varType?_field h hs hfind
        obtain rfl := Option.some.inj (hτ.symm.trans hτ')
        rw [hs.table, hfind]
        exact ⟨rfl, τ, hvar, hknown, rfl⟩

theorem agrees_self (hs : s.Models t Γ) (span : Span) : Agrees p t s Γ (.self span) := by
  constructor
  · intro _
    refine ⟨.cls s.cls, ?_, hs.cls_lt, .self⟩
    unfold type?
    rfl
  · rintro σ (_ | _)
    unfold issues type?
    exact ⟨rfl, .cls s.cls, rfl, hs.cls_lt, rfl⟩

theorem agrees_binary {left right : Expr} (hl : Agrees p t s Γ left) (hr : Agrees p t s Γ right)
    (op : BinOp) (span : Span) : Agrees p t s Γ (.binary op left right span) := by
  have hiff : s.issues (.binary op left right span) = []
      ↔ HasType p (t.classAt s.cls).name Γ left .int
        ∧ HasType p (t.classAt s.cls).name Γ right .int := by
    rw [issues, List.append_eq_nil_iff, hl.operand_eq_nil_iff, hr.operand_eq_nil_iff]
  constructor
  · intro hissues
    obtain ⟨hleft, hright⟩ := hiff.mp hissues
    refine ⟨.int, ?_, trivial, .binary hleft hright⟩
    unfold type?
    rfl
  · intro σ htyped
    cases htyped with
    | binary hleft hright =>
      refine ⟨hiff.mpr ⟨hleft, hright⟩, .int, ?_, trivial, rfl⟩
      unfold type?
      rfl

/-! ## Calls of methods -/

/-- **The checker and the rules agree on the arguments of a call**, whatever the
types of its parameters are. -/
def ArgsAgree (p : Program) (t : SymbolTable) (s : Site) (Γ : Context) (args : List Expr) : Prop :=
  ∀ target i (ts : List Ty), (∀ τ ∈ ts, t.Known τ) → (∀ j, s.paramType? target (i + j) = ts[j]?) →
    (s.argIssues target i args = [] ∧ args.length = ts.length
      ↔ ArgsFit p (t.classAt s.cls).name Γ args (ts.map t.sourceTy))

theorem argsAgree_nil : ArgsAgree p t s Γ [] := by
  intro target i ts _ _
  cases ts with
  | nil => exact iff_of_true ⟨rfl, rfl⟩ .nil
  | cons τ ts => exact iff_of_false (fun hlen => nomatch hlen.2) (fun hfit => nomatch hfit)

theorem argsAgree_cons (h : Settled p t) (hs : s.table = t.resolve.table) {rest : List Expr}
    (he : Agrees p t s Γ e) (hrest : ArgsAgree p t s Γ rest) : ArgsAgree p t s Γ (e :: rest) := by
  intro target i ts hknown hparam
  cases ts with
  | nil => exact iff_of_false (fun hlen => nomatch hlen.2) (fun hfit => nomatch hfit)
  | cons τ ts =>
    have hτ : s.paramType? target i = some τ := hparam 0
    have htail := hrest target (i + 1) ts (fun σ hσ => hknown σ (List.mem_cons_of_mem τ hσ))
      (fun j => by rw [Nat.add_right_comm, Nat.add_assoc]; exact hparam (j + 1))
    have hhead := he.checkIssues_eq_nil_iff h hs (hknown τ List.mem_cons_self) (s.argUse target i)
    unfold argIssues
    rw [List.append_eq_nil_iff, hτ, List.length_cons, List.length_cons, Nat.add_right_cancel_iff,
      and_assoc, htail]
    constructor
    · rintro ⟨hissues, hfit⟩
      obtain ⟨σ, htyped, hvoid, hstores⟩ := hhead.mp hissues
      exact .cons htyped hvoid hstores hfit
    · rintro (_ | ⟨htyped, hvoid, hstores, hfit⟩)
      exact ⟨hhead.mpr ⟨_, htyped, hvoid, hstores⟩, hfit⟩

theorem paramType?_of_paramTypes {m : MethodId} {ts : List Ty}
    (hparams : s.table.paramTypes m = ts.map some) (on : ClassId) (j : Nat) :
    s.paramType? (.method on m) j = ts[j]? := by
  have hget := congrArg (·[j]?) hparams
  dsimp only [paramTypes] at hget
  rw [List.getElem?_map, List.getElem?_map] at hget
  unfold paramType?
  dsimp only
  cases hv : (s.table.explicitParams m)[j]? with
  | none =>
    rw [hv] at hget
    exact (Option.map_eq_none_iff.mp hget.symm).symm
  | some v =>
    rw [hv] at hget
    obtain ⟨τ, hτ, hsome⟩ := Option.map_eq_some_iff.mp hget.symm
    rw [hτ]
    exact hsome.symm

/-- **Nothing is wrong with the call of a method that is reached** exactly if the
arguments fit by the rules. -/
theorem reached_eq_nil_iff (hs : s.table = t.resolve.table) {c : ClassId} {callee : Ident}
    {m : MethodId} {ts : List Ty} {τ : Ty} (hm : Reached p t c callee.text m ts τ)
    {args : List Expr} (ha : ArgsAgree p t s Γ args) (span : Span) :
    s.targetIssues callee args.length span (.method c m) ++ s.argIssues (.method c m) 0 args = []
      ↔ ArgsFit p (t.classAt s.cls).name Γ args (ts.map t.sourceTy) := by
  have hparams := hm.params
  rw [← hs] at hparams
  have harity : s.table.arity m = ts.length := by
    have hlen := congrArg List.length hparams
    rw [paramTypes, List.length_map, List.length_map] at hlen
    exact hlen
  rw [← ha (.method c m) 0 ts hm.known
      (fun j => by rw [Nat.zero_add]; exact paramType?_of_paramTypes hparams c j),
    List.append_eq_nil_iff, and_comm]
  refine and_congr_right fun _ => ?_
  unfold targetIssues arityIssue?
  dsimp only
  rw [harity]
  split
  · rename_i heq
    exact iff_of_true rfl heq.symm
  · rename_i hne
    exact iff_of_false (fun hnil => nomatch hnil) (fun heq => hne heq.symm)

/-- **The checker and the rules agree on a call of a method on an object.** -/
theorem methodTarget_agrees (h : Settled p t) (hs : s.table = t.resolve.table) {c : ClassId}
    (hc : c < t.classes.length) (callee : Ident) {args : List Expr} (ha : ArgsAgree p t s Γ args)
    (span : Span) {σ : SourceTy} :
    (s.targetIssues callee args.length span (s.methodTarget c callee)
          ++ s.argIssues (s.methodTarget c callee) 0 args = []
        ∧ ∃ τ, s.targetType? (s.methodTarget c callee) = some τ ∧ t.Known τ ∧ t.sourceTy τ = σ)
      ↔ ∃ decl, p.Method (t.classAt c).name callee.text decl
        ∧ ArgsFit p (t.classAt s.cls).name Γ args decl.argTypes ∧ decl.result = σ := by
  rcases methodTarget_cases h hs hc callee with ⟨m, ts, τ, htarget, hm⟩ | ⟨i, htarget, hnone⟩
  · rw [htarget, reached_eq_nil_iff hs hm ha]
    unfold targetType?
    dsimp only
    rw [hs, hm.returns]
    constructor
    · rintro ⟨hfit, τ', hτ, -, rfl⟩
      obtain rfl := Option.some.inj hτ
      obtain ⟨decl, hmethod⟩ := hm.denotes
      obtain ⟨hargs, hresult⟩ := hm.written decl hmethod
      exact ⟨decl, hmethod, hargs ▸ hfit, hresult.symm⟩
    · rintro ⟨decl, hmethod, hfit, rfl⟩
      obtain ⟨hargs, hresult⟩ := hm.written decl hmethod
      exact ⟨hargs ▸ hfit, τ, rfl, hm.result_known, hresult⟩
  · rw [htarget]
    refine iff_of_false (fun hnil => ?_) (fun hex => ?_)
    · cases (List.append_eq_nil_iff.mp hnil.1).1
    · obtain ⟨decl, hmethod, -⟩ := hex
      exact hnone decl hmethod

/-- A call of a method of which nothing is wrong has a type. -/
theorem methodTarget_poison (h : Settled p t) (hs : s.table = t.resolve.table) {c : ClassId}
    (hc : c < t.classes.length) (callee : Ident) {got : Nat} {span : Span}
    (hissues : s.targetIssues callee got span (s.methodTarget c callee) = []) :
    ∃ τ, s.targetType? (s.methodTarget c callee) = some τ ∧ t.Known τ := by
  rcases methodTarget_cases h hs hc callee with ⟨m, ts, τ, htarget, hm⟩ | ⟨i, htarget, hnone⟩
  · rw [htarget]
    refine ⟨τ, ?_, hm.result_known⟩
    show (s.table.methodAt m).returnType = _
    rw [hs, hm.returns]
  · rw [htarget] at hissues
    cases hissues

theorem agrees_call (h : Settled p t) (hs : s.Models t Γ) (callee : Ident) {args : List Expr}
    (ha : ArgsAgree p t s Γ args) (span : Span) : Agrees p t s Γ (.call callee args span) := by
  have hlookup : s.table.lookupClass callee.text = t.lookupClass callee.text := by
    rw [hs.table, lookupClass_of_declared (resolve_declared t)]
  cases hcls : t.lookupClass callee.text with
  | some c =>
    have htarget : s.callTarget callee = .construct c := by
      unfold callTarget
      rw [hlookup, hcls]
    obtain ⟨hc, hname⟩ := (lookupClass_eq_some_iff h.represents.formed).mp hcls
    constructor
    · intro hissues
      unfold issues at hissues
      dsimp only at hissues
      rw [htarget] at hissues
      unfold type?
      rw [htarget]
      refine ⟨.cls c, rfl, hc, ?_⟩
      have hargs := (List.append_eq_nil_iff.mp hissues).1
      unfold targetIssues at hargs
      dsimp only at hargs
      split at hargs
      · rename_i hlen
        rw [List.eq_nil_of_length_eq_zero hlen, sourceTy, hname]
        exact .construct (h.represents.hasClass_iff.mpr ⟨c, hcls⟩)
      · cases hargs
    · intro σ htyped
      cases htyped with
      | construct _ =>
        unfold issues type?
        rw [htarget]
        exact ⟨rfl, .cls c, rfl, hc, congrArg SourceTy.object hname⟩
      | call hno _ _ => exact absurd (h.represents.hasClass_iff.mpr ⟨c, hcls⟩) hno
  | none =>
    have htarget : s.callTarget callee = s.methodTarget s.cls callee := by
      unfold callTarget
      rw [hlookup, hcls]
    have hno : ¬ p.HasClass callee.text := by
      intro hclass
      obtain ⟨c, hc⟩ := h.represents.hasClass_iff.mp hclass
      cases hcls.symm.trans hc
    have hiff := fun {σ} => methodTarget_agrees (σ := σ) h hs.table hs.cls_lt callee ha span
    constructor
    · intro hissues
      unfold issues at hissues
      dsimp only at hissues
      rw [htarget] at hissues
      obtain ⟨τ, hτ, hknown⟩ := methodTarget_poison h hs.table hs.cls_lt callee
        (List.append_eq_nil_iff.mp hissues).1
      obtain ⟨decl, hmethod, hfit, hresult⟩ := hiff.mp ⟨hissues, τ, hτ, hknown, rfl⟩
      unfold type?
      rw [htarget]
      refine ⟨τ, hτ, hknown, ?_⟩
      rw [← hresult]
      exact .call hno hmethod hfit
    · intro σ htyped
      cases htyped with
      | construct hclass => exact absurd hclass hno
      | call _ hmethod hfit =>
        unfold issues type?
        rw [htarget]
        exact hiff.mpr ⟨_, hmethod, hfit, rfl⟩

theorem agrees_send (h : Settled p t) (hs : s.Models t Γ) {receiver : Expr}
    (hr : Agrees p t s Γ receiver) (callee : Ident) {args : List Expr}
    (ha : ArgsAgree p t s Γ args) (span : Span) :
    Agrees p t s Γ (.send receiver callee args span) := by
  constructor
  · intro hissues
    unfold issues at hissues
    dsimp only at hissues
    rw [List.append_eq_nil_iff, List.append_eq_nil_iff, useIssues_eq_nil_iff] at hissues
    obtain ⟨⟨hclean, hvoid⟩, hcall⟩ := hissues
    obtain ⟨τ, hτ, hknown, htyped⟩ := hr.typed hclean
    have hne : τ ≠ .void := fun heq => hvoid (heq ▸ hτ)
    have hvalue := valueType?_eq_some_iff.mpr ⟨hτ, hne⟩
    rw [hvalue] at hcall
    unfold type?
    rw [show asValue (s.type? receiver) = some τ from hvalue]
    cases τ with
    | int => cases (List.append_eq_nil_iff.mp hcall).1
    | void => exact absurd rfl hne
    | cls c =>
      obtain ⟨σ, hσ, hknown'⟩ := methodTarget_poison h hs.table hknown callee
        (List.append_eq_nil_iff.mp hcall).1
      obtain ⟨decl, hmethod, hfit, hresult⟩ :=
        (methodTarget_agrees h hs.table hknown callee ha span).mp ⟨hcall, σ, hσ, hknown', rfl⟩
      refine ⟨σ, hσ, hknown', ?_⟩
      rw [← hresult]
      exact .send htyped hmethod hfit
  · intro σ htyped
    cases htyped with
    | send hon hmethod hfit =>
      obtain ⟨hclean, τ, hτ, hknown, hobj⟩ := hr.clean hon
      cases τ with
      | int => cases hobj
      | void => cases hobj
      | cls c =>
        obtain rfl := SourceTy.object.inj hobj
        have hvalue := valueType?_eq_some_iff.mpr ⟨hτ, Ty.noConfusion⟩
        have hcall := (methodTarget_agrees h hs.table hknown callee ha span).mpr
          ⟨_, hmethod, hfit, rfl⟩
        unfold issues type?
        dsimp only
        rw [show asValue (s.type? receiver) = some (.cls c) from hvalue, hvalue]
        refine ⟨?_, hcall.2⟩
        rw [List.append_eq_nil_iff, List.append_eq_nil_iff, useIssues_eq_nil_iff, hτ]
        exact ⟨⟨hclean, fun heq => by cases heq⟩, hcall.1⟩

mutual
/-- **The checker and the rules agree on every expression.** -/
theorem agrees (h : Settled p t) (hs : s.Models t Γ) : (e : Expr) → Agrees p t s Γ e
  | .int value span => agrees_int value span
  | .name x => agrees_name h hs x
  | .self span => agrees_self hs span
  | .binary op left right span => agrees_binary (agrees h hs left) (agrees h hs right) op span
  | .call callee args span => agrees_call h hs callee (argsAgree h hs args) span
  | .send receiver callee args span =>
    agrees_send h hs (agrees h hs receiver) callee (argsAgree h hs args) span
theorem argsAgree (h : Settled p t) (hs : s.Models t Γ) : (args : List Expr) →
    ArgsAgree p t s Γ args
  | [] => argsAgree_nil
  | e :: rest => argsAgree_cons h hs.table (agrees h hs e) (argsAgree h hs rest)
end

end Site

end Heritage
