import Heritage.Proofs.Functions

/-!
# Scopes in C

In C a name denotes the variable declared under it in the innermost block that
declares one. The parameters of a function stand in its outermost block, beside
the locals of the body, and a local is in scope from the end of its declarator
on, so in its own initial value already. By these rules a name in a function
denotes the variable that it was written for unless another one that is spelled
alike is nearer (`Use.faithful_iff`), and which names are spelled alike is said
by `ident_eq_iff`.
-/

namespace Heritage

open SymbolTable

namespace C

/-! ## Scopes in C -/

/-- **A name in a function**: the variable that it was written for, and the
variables that are declared where it stands, by blocks, inner ones first. -/
structure Use where
  /-- The variable the name was written for. -/
  var : VarId
  /-- The blocks around the name, with what is declared in them so far. -/
  scope : List (List VarId)
deriving DecidableEq

/-- The scope behind a declarator. -/
def declareIn (v : VarId) : List (List VarId) → List (List VarId)
  | [] => [[v]]
  | block :: outer => (v :: block) :: outer

/-- The scope behind an item. -/
def Item.behind (scope : List (List VarId)) : Item → List (List VarId)
  | .declare _ v _ => declareIn v scope
  | .line _ => scope
  | .block _ _ => scope
  | .branch _ _ _ => scope

/-- The names in pieces of text. -/
def usesIn (scope : List (List VarId)) (ps : List Piece) : List Use :=
  (names ps).map fun v => ⟨v, scope⟩

mutual
/-- The names in an item. A declarator comes before its initial value. -/
def Item.uses (scope : List (List VarId)) : Item → List Use
  | .declare _ v init => usesIn (declareIn v scope) (init.getD [])
  | .line text => usesIn scope text
  | .block header body => usesIn scope header ++ usesOf ([] :: scope) body
  | .branch header body other =>
    usesIn scope header ++ usesOf ([] :: scope) body ++ usesOf ([] :: scope) other
/-- The names in a block. -/
def usesOf (scope : List (List VarId)) : List Item → List Use
  | [] => []
  | item :: rest => item.uses scope ++ usesOf (item.behind scope) rest
end

/-- **The names in a function**, in order. Its parameters stand in its outermost
block. -/
def Function.uses (f : Function) : List Use :=
  usesOf [f.params.map (·.2)] f.body

/-- **A name denotes a variable in a scope**: the innermost block that declares
the name declares it for this variable, and for no other. -/
def Denotes (t : SymbolTable) (scope : List (List VarId)) (name : String) (v : VarId) : Prop :=
  ∃ inner block outer, scope = inner ++ block :: outer
    ∧ (∀ b ∈ inner, ∀ w ∈ b, spelling t w ≠ name)
    ∧ v ∈ block ∧ spelling t v = name ∧ ∀ w ∈ block, spelling t w = name → w = v

/-- A name denotes the variable that it was written for. -/
def Use.Faithful (t : SymbolTable) (u : Use) : Prop :=
  Denotes t u.scope (spelling t u.var) u.var

/-- The variables of the blocks up to that of a variable. -/
def near (v : VarId) : List (List VarId) → List VarId
  | [] => []
  | block :: outer => if v ∈ block then block else block ++ near v outer

/-- A variable that is declared is denoted by its name unless another one in its
block or further in is spelled alike. -/
theorem denotes_iff {t : SymbolTable} {v : VarId} (scope : List (List VarId)) :
    Denotes t scope (spelling t v) v
      ↔ v ∈ scope.flatten ∧ ∀ w ∈ near v scope, spelling t w = spelling t v → w = v := by
  induction scope with
  | nil =>
    refine iff_of_false ?_ fun h => List.not_mem_nil h.1
    rintro ⟨inner, block, outer, hscope, -⟩
    exact absurd hscope.symm (List.append_ne_nil_of_right_ne_nil _ (List.cons_ne_nil _ _))
  | cons block outer ih =>
    unfold near
    rw [List.flatten_cons, List.mem_append]
    by_cases hblock : v ∈ block
    · rw [if_pos hblock, and_iff_right (Or.inl hblock)]
      constructor
      · rintro ⟨inner, block', outer', hscope, hinner, -, -, hunique⟩
        cases inner with
        | nil =>
          obtain ⟨rfl, -⟩ := List.cons.inj hscope
          exact hunique
        | cons b inner =>
          obtain ⟨rfl, -⟩ := List.cons.inj hscope
          exact absurd rfl (hinner block List.mem_cons_self v hblock)
      · intro hunique
        exact ⟨[], block, outer, rfl, List.forall_mem_nil _, hblock, rfl, hunique⟩
    · rw [if_neg hblock, or_iff_right hblock, List.forall_mem_append, and_left_comm, ← ih]
      constructor
      · rintro ⟨inner, block', outer', hscope, hinner, hmem, -, hunique⟩
        cases inner with
        | nil =>
          obtain ⟨rfl, -⟩ := List.cons.inj hscope
          exact absurd hmem hblock
        | cons b inner =>
          obtain ⟨rfl, rfl⟩ := List.cons.inj hscope
          refine ⟨fun w hw heq => absurd heq (hinner block List.mem_cons_self w hw), ?_⟩
          exact ⟨inner, block', outer', rfl, fun b hb => hinner b (List.mem_cons_of_mem _ hb),
            hmem, rfl, hunique⟩
      · rintro ⟨hfirst, inner, block', outer', rfl, hinner, hmem, -, hunique⟩
        refine ⟨block :: inner, block', outer', rfl, fun b hb w hw heq => ?_, hmem, rfl, hunique⟩
        rcases List.mem_cons.mp hb with rfl | hb
        · exact hblock (hfirst w hw heq ▸ hw)
        · exact hinner b hb w hw heq

/-- **A name denotes its variable** exactly if the variable is declared and no
other one in its block or further in is spelled alike. -/
theorem Use.faithful_iff {t : SymbolTable} (u : Use) :
    u.Faithful t ↔ u.var ∈ u.scope.flatten
      ∧ ∀ w ∈ near u.var u.scope, spelling t w = spelling t u.var → w = u.var :=
  denotes_iff u.scope

instance (t : SymbolTable) (u : Use) : Decidable (u.Faithful t) :=
  decidable_of_iff _ u.faithful_iff.symm

theorem mem_of_mem_near {v w : VarId} (scope : List (List VarId)) (h : w ∈ near v scope) :
    w ∈ scope.flatten := by
  induction scope with
  | nil => exact h
  | cons block outer ih =>
    unfold near at h
    rw [List.flatten_cons, List.mem_append]
    split at h
    · exact Or.inl h
    · exact (List.mem_append.mp h).imp id ih

theorem mem_declareIn {v w : VarId} {scope : List (List VarId)} :
    w ∈ (declareIn v scope).flatten ↔ w = v ∨ w ∈ scope.flatten := by
  cases scope with
  | nil => simp [declareIn]
  | cons block outer => simp [declareIn]

/-! ## Names that C spells alike -/

/-- A word that C keeps for itself, or that every function has for its
receiver. -/
def Reserved (word : String) : Prop :=
  word = receiver ∨ word ∈ keywords

instance (word : String) : Decidable (Reserved word) :=
  inferInstanceAs (Decidable (_ ∨ _))

/-- **Two names are spelled alike**: they are the same, or one is a reserved
word and the other is this word with an underscore. -/
def Alike (a b : String) : Prop :=
  a = b ∨ Reserved a ∧ b = a ++ "_" ∨ Reserved b ∧ a = b ++ "_"

theorem not_reserved_underscore {word : String} (h : Reserved word) : ¬ Reserved (word ++ "_") := by
  have hall : ∀ w ∈ receiver :: keywords, w ++ "_" ∉ receiver :: keywords := by decide
  intro h'
  exact hall word (List.mem_cons.mpr h) (List.mem_cons.mpr h')

theorem ident_ne_receiver (name : String) : ident name ≠ receiver := by
  unfold ident
  split
  · rename_i hreserved
    intro heq
    refine not_reserved_underscore hreserved ?_
    rw [heq]
    exact Or.inl rfl
  · rename_i hreserved
    exact fun heq => hreserved (Or.inl heq)

/-- **Names are spelled alike exactly if they are the same or differ by the
underscore of a reserved word.** -/
theorem ident_eq_iff {a b : String} : ident a = ident b ↔ Alike a b := by
  show (if Reserved a then a ++ "_" else a) = (if Reserved b then b ++ "_" else b) ↔ _
  unfold Alike
  by_cases ha : Reserved a
  · rw [if_pos ha]
    by_cases hb : Reserved b
    · rw [if_pos hb, String.append_left_inj]
      refine ⟨Or.inl, ?_⟩
      rintro (heq | ⟨-, rfl⟩ | ⟨-, rfl⟩)
      · exact heq
      · exact absurd hb (not_reserved_underscore ha)
      · exact absurd ha (not_reserved_underscore hb)
    · rw [if_neg hb]
      refine ⟨fun heq => Or.inr (Or.inl ⟨ha, heq.symm⟩), ?_⟩
      rintro (rfl | ⟨-, rfl⟩ | ⟨hb', -⟩)
      · exact absurd ha hb
      · rfl
      · exact absurd hb' hb
  · rw [if_neg ha]
    by_cases hb : Reserved b
    · rw [if_pos hb]
      refine ⟨fun heq => Or.inr (Or.inr ⟨hb, heq⟩), ?_⟩
      rintro (rfl | ⟨ha', -⟩ | ⟨-, rfl⟩)
      · exact absurd hb ha
      · exact absurd ha' ha
      · rfl
    · rw [if_neg hb]
      refine ⟨Or.inl, ?_⟩
      rintro (heq | ⟨ha', -⟩ | ⟨hb', -⟩)
      · exact heq
      · exact absurd ha' ha
      · exact absurd hb' hb

end C

end Heritage
