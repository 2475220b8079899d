import Heritage.Proofs.Members

/-!
# Every member has an owner

What a name denotes in a class, inherited or not, was declared by a class: by the
class itself, or by one of its ancestors if these are known. The table knows
which, for a method by its owner and for a field by the scope it stands in.
-/

namespace Heritage

namespace SymbolTable

variable {t : SymbolTable}

/-- A class and the classes it inherits from, if its ancestry is known. -/
def AtOrAbove (t : SymbolTable) (c a : ClassId) : Prop :=
  a = c ∨ ¬ t.Broken c ∧ t.Ancestor c a

theorem mem_methodsOf_of_declaredMethod {c : ClassId} {name : String} {m : MethodId}
    (h : t.declaredMethod c name = some m) : m ∈ t.methodsOf c := by
  rw [declaredMethod_eq] at h
  exact List.mem_of_mem_filter (List.mem_of_mem_head? h)

/-- **The class that declares a field owns it.** -/
theorem Formed.fieldOwner_eq (hf : Formed t) {c : ClassId} (hc : c < t.classes.length)
    {name : String} {v : VarId} (h : t.declaredField c name = some v) :
    t.fieldOwner v = some c := by
  have hmem : v ∈ t.fieldsOf c := by
    rw [declaredField_eq hf hc] at h
    exact List.mem_of_mem_filter (List.mem_of_mem_head? h)
  obtain ⟨-, hscope, hkind⟩ := mem_fieldsOf.mp hmem
  unfold fieldOwner
  rw [if_pos hkind, hscope, scopeAt, getD_of_eq_some (hf.classAt_scope hc)]
  rfl

section Finished

variable (h : t.Fresh)
include h

theorem Fresh.atOrAbove_lt {c a : ClassId} (hc : c < t.classes.length)
    (ha : t.resolve.table.AtOrAbove c a) : a < t.classes.length := by
  rcases ha with rfl | ⟨-, ha⟩
  · exact hc
  · exact t.resolve_length ▸ h.resolve_inside.ancestor_lt ha

omit h in
theorem lt_of_findMethod {c : ClassId} {name : String} {m : MethodId}
    (hm : t.findMethod c name = some m) : c < t.classes.length := by
  by_contra hle
  unfold findMethod at hm
  rw [classAt_of_le (Nat.le_of_not_lt hle)] at hm
  cases hm

omit h in
theorem lt_of_findField {c : ClassId} {name : String} {v : VarId}
    (hv : t.findField c name = some v) : c < t.classes.length := by
  by_contra hle
  unfold findField at hv
  rw [classAt_of_le (Nat.le_of_not_lt hle)] at hv
  cases hv

/-- **What a method name denotes in a class** is declared there or above. -/
theorem Fresh.findMethod_declared {c : ClassId} {name : String} {m : MethodId}
    (hm : t.resolve.table.findMethod c name = some m) :
    ∃ a, t.resolve.table.AtOrAbove c a ∧ t.resolve.table.declaredMethod a name = some m := by
  have hc : c < t.classes.length := t.resolve_length ▸ lt_of_findMethod hm
  by_cases hb : t.resolve.table.Broken c
  · exact ⟨c, Or.inl rfl, (h.findMethod_of_broken hb name).symm.trans hm⟩
  · cases hown : t.resolve.table.declaredMethod c name with
    | some own => exact ⟨c, Or.inl rfl, hown.trans ((h.findMethod_own hc hb hown).symm.trans hm)⟩
    | none =>
      obtain ⟨a, ha, hdeclared⟩ := h.findMethod_inherited hc hb hown hm
      exact ⟨a, Or.inr ⟨hb, ha.ancestor⟩, hdeclared⟩

/-- **What a field name denotes in a class** is declared there or above. -/
theorem Fresh.findField_declared (hf : Formed t) {c : ClassId} {name : String} {v : VarId}
    (hv : t.resolve.table.findField c name = some v) :
    ∃ a, t.resolve.table.AtOrAbove c a ∧ t.resolve.table.declaredField a name = some v := by
  have hc : c < t.classes.length := t.resolve_length ▸ lt_of_findField hv
  by_cases hb : t.resolve.table.Broken c
  · exact ⟨c, Or.inl rfl, (h.findField_of_broken hf hb name).symm.trans hv⟩
  · rcases (h.findField_iff hf hc hb).mp hv with hown | ⟨-, -, a, -, -, ha, hdeclared, -⟩
    · exact ⟨c, Or.inl rfl, hown⟩
    · exact ⟨a, Or.inr ⟨hb, ha.ancestor⟩, hdeclared⟩

theorem Fresh.findMethod_lt {c : ClassId} {name : String} {m : MethodId}
    (hm : t.resolve.table.findMethod c name = some m) : m < t.resolve.table.methods.length := by
  obtain ⟨a, -, hdeclared⟩ := h.findMethod_declared hm
  exact lt_of_mem_positions (mem_methodsOf_of_declaredMethod hdeclared)

end Finished

end SymbolTable

end Heritage
