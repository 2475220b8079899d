import Heritage.Proofs.Grammar
import Heritage.Proofs.Identifiers

/-!
# The trees of expressions

The C text of an expression is put together from the texts of its parts, and
whether it groups them as the expression does is left to parentheses: an
operation brings its own, which are taken off where it stands alone, and what
stands before an arrow gets some unless it begins like a word. Here the tree
that is meant is written down beside the text (`Site.tree`), with operations,
calls, constructions and conversions as the expression has them, and the text of
an expression of which nothing is wrong is shown to have this tree
(`Site.written`).

A text is `WrittenAs` a tree if it spells tokens that the grammar gives this
tree. The tokens are the same wherever the text stands; the grammar gives them
the tree where the names in it are used as the tree uses them.
-/

namespace Heritage

/-- The punctuator that an operator is written with. -/
def BinOp.punct : BinOp → C.Punct
  | .add => .plus
  | .sub => .minus
  | .mul => .star
  | .div => .slash
  | .rem => .percent
  | .less => .lt
  | .lessEq => .le
  | .greater => .gt
  | .greaterEq => .ge
  | .equal => .eq
  | .notEqual => .ne
  | .and => .andAnd
  | .or => .orOr

theorem BinOp.text_punct (op : BinOp) : op.punct.text = op.symbol := by
  cases op <;> rfl

theorem BinOp.level?_punct (op : BinOp) : ∃ k < C.Punct.levels, op.punct.level? = some k := by
  cases op <;> exact ⟨_, by decide, rfl⟩

namespace C

/-! ## Trees that a text obeys -/

section Obeys

variable {N : TypeNames}

@[simp] theorem obeys_name {x : String} : (Tree.name x).Obeys N ↔ N.isType x = false :=
  ⟨fun h => h.names x (List.mem_singleton.mpr rfl), fun h => (Derives.name h).obeys⟩

@[simp] theorem obeys_constant {n : Nat} : (Tree.constant n).Obeys N :=
  Derives.constant.obeys

@[simp] theorem obeys_unary {op : Punct} {t : Tree} : (Tree.unary op t).Obeys N ↔ t.Obeys N :=
  ⟨fun h => ⟨h.names, h.types⟩, fun h => ⟨h.names, h.types⟩⟩

@[simp] theorem obeys_member {t : Tree} {x : String} : (Tree.member t x).Obeys N ↔ t.Obeys N :=
  ⟨fun h => ⟨h.names, h.types⟩, fun h => ⟨h.names, h.types⟩⟩

@[simp] theorem obeys_arrow {t : Tree} {x : String} : (Tree.arrow t x).Obeys N ↔ t.Obeys N :=
  ⟨fun h => ⟨h.names, h.types⟩, fun h => ⟨h.names, h.types⟩⟩

@[simp] theorem obeys_binary {op : Punct} {l r : Tree} :
    (Tree.binary op l r).Obeys N ↔ l.Obeys N ∧ r.Obeys N := by
  refine ⟨fun h => ?_, fun h => h.1.append h.2 rfl rfl⟩
  obtain ⟨hnames, hnames'⟩ := List.forall_mem_append.mp h.names
  obtain ⟨htypes, htypes'⟩ := List.forall_mem_append.mp h.types
  exact ⟨⟨hnames, htypes⟩, ⟨hnames', htypes'⟩⟩

@[simp] theorem obeys_call {f : Tree} {args : List Tree} :
    (Tree.call f args).Obeys N ↔ f.Obeys N ∧ ∀ a ∈ args, a.Obeys N := by
  rw [← Tree.obeys_braces]
  refine ⟨fun h => ?_, fun h => h.1.append h.2 rfl rfl⟩
  obtain ⟨hnames, hnames'⟩ := List.forall_mem_append.mp h.names
  obtain ⟨htypes, htypes'⟩ := List.forall_mem_append.mp h.types
  exact ⟨⟨hnames, htypes⟩, ⟨hnames', htypes'⟩⟩

@[simp] theorem obeys_literal {x : String} {n : Nat} :
    (Tree.compound [.word x] [.constant n]).Obeys N ↔ N.isType x = true := by
  rw [← N.isType_word]
  refine ⟨fun h => h.types _ List.mem_cons_self, fun h => ?_⟩
  exact ⟨List.forall_mem_nil _, List.forall_mem_singleton.mpr h⟩

end Obeys

/-! ## Texts that are written as trees -/

/-- **A text is written as a tree**: it spells tokens that the grammar gives this tree, wherever
names are used as in it. -/
def WrittenAs (P : Phrase) (text : String) (tree : Tree) : Prop :=
  ∃ c ts, text.toList.head? = some c ∧ Spells isNumberChar text ts
    ∧ ∀ N : TypeNames, tree.Obeys N → Derives N P ts tree

section WrittenAs

variable {text text' : String} {tree tree' : Tree}

theorem WrittenAs.imp {P P' : Phrase} (h : WrittenAs P text tree)
    (hP : ∀ {N : TypeNames} {ts}, Derives N P ts tree → Derives N P' ts tree) :
    WrittenAs P' text tree := by
  obtain ⟨c, ts, hc, hts, hd⟩ := h
  exact ⟨c, ts, hc, hts, fun N hN => hP (hd N hN)⟩

theorem WrittenAs.ofPrimary (h : WrittenAs .primary text tree) : WrittenAs .suffixed text tree :=
  h.imp .ofPrimary

theorem WrittenAs.ofSuffixed (h : WrittenAs .suffixed text tree) : WrittenAs .unary text tree :=
  h.imp .ofSuffixed

theorem WrittenAs.ofUnary (h : WrittenAs .unary text tree) : WrittenAs .assignment text tree :=
  h.imp .assignment_of_unary

theorem writtenAs_word {name : String} (h : IsWord name) :
    WrittenAs .primary name (.name name) := by
  obtain ⟨c, hc, -⟩ := h.identifier.head?
  refine ⟨c, [.word name], hc, ?_, fun N hN => .name (obeys_name.mp hN)⟩
  exact (spells_word h.identifier h.plain).mono fun c hc => (Bool.or_eq_false_iff.mp hc).1

theorem head?_toString (n : Nat) :
    ∃ c, (toString n).toList.head? = some c ∧ c.isDigit = true := by
  obtain ⟨c, cs, hdigits⟩ := List.exists_cons_of_ne_nil (Nat.toDigits_ne_nil (b := 10) (n := n))
  refine ⟨c, ?_, Nat.isDigit_of_mem_toDigits (by omega) (by omega)
    (hdigits ▸ List.mem_cons_self)⟩
  rw [Nat.toString_eq_ofList_toDigits, String.toList_ofList, hdigits]
  rfl

theorem writtenAs_number (n : Nat) : WrittenAs .primary (toString n) (.constant n) := by
  obtain ⟨c, hc, -⟩ := head?_toString n
  exact ⟨c, [.number n], hc, spells_number n, fun N _ => .constant⟩

theorem WrittenAs.parens (h : WrittenAs .assignment text tree) :
    WrittenAs .primary ("(" ++ text ++ ")") tree := by
  obtain ⟨c, ts, hc, hts, hd⟩ := h
  refine ⟨'(', .punct .lparen :: ts ++ [.punct .rparen], by simp, ?_,
    fun N hN => .parens (.ofAssignment (hd N hN))⟩
  have hopen : Spells isNumberChar ("(" ++ text) (.punct .lparen :: ts) :=
    (spells_punct .lparen).append hts hc rfl
  exact (hopen.append (spells_punct .rparen) (c := ')') rfl rfl).mono fun c _ => rfl

/-- No punctuator goes on with a character of a word, unless it is a point. -/
theorem Punct.glue_of_isWordChar {p : Punct} {c : Char} (h : isWordChar c = true)
    (hdot : p = .dot → c.isDigit = false) : p.glue c = false := by
  have hall : Punct.tails.all (!isWordChar ·) = true := by decide
  refine Punct.glue_eq_false (fun hmem => ?_) hdot
  have hc := List.all_eq_true.mp hall c hmem
  rw [h] at hc
  cases hc

/-- The address of what is written. -/
theorem WrittenAs.address (h : WrittenAs .suffixed text tree)
    (hstart : ∀ c ∈ text.toList.head?, isWordStart c = true ∨ c = '(') :
    WrittenAs .unary ("&" ++ text) (.unary .amp tree) := by
  obtain ⟨c, ts, hc, hts, hd⟩ := h
  have hglue : Punct.amp.glue c = false := by
    rcases hstart c hc with hword | rfl
    · exact Punct.glue_of_isWordChar (isWordChar_of_isWordStart hword) nofun
    · decide
  exact ⟨'&', .punct .amp :: ts, by simp, (spells_punct .amp).append hts hc hglue,
    fun N hN => .unary rfl (.ofUnary (.ofSuffixed (hd N (obeys_unary.mp hN))))⟩

/-- A negative number. -/
theorem writtenAs_minus (n : Nat) :
    WrittenAs .unary ("-" ++ toString n) (.unary .minus (.constant n)) := by
  obtain ⟨c, hc, hdigit⟩ := head?_toString n
  have hglue : Punct.minus.glue c = false :=
    Punct.glue_of_isWordChar (Bool.or_eq_true_iff.mpr (Or.inr hdigit)) nofun
  exact ⟨'-', [.punct .minus, .number n], by simp,
    (spells_punct .minus).append (spells_number n) hc hglue,
    fun N _ => .unary rfl (.ofUnary (.ofSuffixed (.ofPrimary .constant)))⟩

/-- **An operation**, without its parentheses. -/
theorem WrittenAs.operation (op : BinOp) (h : WrittenAs .unary text tree)
    (h' : WrittenAs .unary text' tree') :
    WrittenAs .assignment (text ++ " " ++ op.symbol ++ " " ++ text')
      (.binary op.punct tree tree') := by
  obtain ⟨c, ts, hc, hts, hd⟩ := h
  obtain ⟨c', ts', hc', hts', hd'⟩ := h'
  obtain ⟨k, hk, hop⟩ := op.level?_punct
  have hblank : op.punct.glue ' ' = false := Punct.glue_eq_false (by decide) fun _ => by decide
  obtain ⟨d, hsymbol⟩ : ∃ d, op.punct.text.toList.head? = some d :=
    Option.isSome_iff_exists.mp (List.isSome_head?.mpr op.punct.text_ne_nil)
  -- The blanks keep the operator apart from its operands, whatever these begin and end with.
  have hspells := (((hts.append spells_blank rfl (by decide)).append (spells_punct op.punct)
    hsymbol rfl).append spells_blank rfl hblank).append hts' hc' rfl
  rw [BinOp.text_punct] at hspells
  refine ⟨c, ts ++ .punct op.punct :: ts', ?_, by simpa using hspells, fun N hN => ?_⟩
  · simp [hc]
  · obtain ⟨hN, hN'⟩ := obeys_binary.mp hN
    exact (Derives.binary ((hd N hN).binary_of_unary (k + 1)) hop
      ((hd' N hN').binary_of_unary k)).assignment_of_binary hk

/-- The tokens of a construction. -/
theorem spells_construction {name : String} (h : IsWord name) :
    Spells isNumberChar ("&(" ++ name ++ ")\x7b0\x7d")
      [.punct .amp, .punct .lparen, .word name, .punct .rparen, .punct .lbrace, .number 0,
        .punct .rbrace] := by
  obtain ⟨c, hhead, -⟩ := h.identifier.head?
  have hopen : Spells (fun _ => false) "&(" [.punct .amp, .punct .lparen] :=
    ((spells_punct .amp).append (spells_punct .lparen) (c := '(') rfl (by decide)).mono
      fun _ _ => rfl
  have hzero : Spells (fun _ => false) ")\x7b0\x7d"
      [.punct .rparen, .punct .lbrace, .number 0, .punct .rbrace] :=
    ((((spells_punct .rparen).append (spells_punct .lbrace) (c := '\x7b') rfl rfl).append
      (spells_number 0) (c := '0') rfl rfl).append (spells_punct .rbrace) (c := '\x7d') rfl
      (by decide)).mono fun _ _ => rfl
  exact ((hopen.append (spells_word h.identifier h.plain) hhead rfl).append hzero (c := ')') rfl
    (by decide)).mono fun _ _ => rfl

/-- **A construction**: the address of a compound literal. -/
theorem writtenAs_construction {name : String} (h : IsWord name) :
    WrittenAs .unary ("&(" ++ name ++ ")\x7b0\x7d")
      (.unary .amp (.compound [.word name] [.constant 0])) := by
  refine ⟨'&', _, by simp, spells_construction h, fun N hN => ?_⟩
  rw [obeys_unary, obeys_literal] at hN
  have hinits : ∀ a ∈ [([Token.number 0], Tree.constant 0)], Derives N .element a.1 a.2 :=
    List.forall_mem_singleton.mpr (.ofInitializer (.value (.assignment_of_unary
      (.ofSuffixed (.ofPrimary .constant)))))
  exact .unary rfl (.ofUnary (.ofSuffixed
    (.compound (N.of_word hN) (List.cons_ne_nil _ _) hinits (Or.inl rfl))))

/-! ## Members -/

end WrittenAs

/-- **The members that lead on from a pointer**: the first behind an arrow, the others behind
points. -/
def chain (t : Tree) : List String → Tree
  | [] => t
  | x :: rest => rest.foldl .member (.arrow t x)

/-- The tokens of members behind points. -/
def memberTokens (names : List String) : List Token :=
  names.flatMap fun x => [.punct .dot, .word x]

theorem obeys_members {N : TypeNames} (names : List String) {t : Tree} :
    (names.foldl Tree.member t).Obeys N ↔ t.Obeys N := by
  induction names generalizing t with
  | nil => rfl
  | cons x rest ih => rw [List.foldl_cons, ih, obeys_member]

@[simp] theorem obeys_chain {N : TypeNames} {t : Tree} (names : List String) :
    (chain t names).Obeys N ↔ t.Obeys N := by
  cases names with
  | nil => rfl
  | cons x rest => rw [chain, obeys_members, obeys_arrow]

theorem Derives.members {N : TypeNames} (names : List String) {w : List Token} {t : Tree}
    (h : Derives N .suffixed w t) :
    Derives N .suffixed (w ++ memberTokens names) (names.foldl .member t) := by
  induction names generalizing w t with
  | nil => simpa [memberTokens] using h
  | cons x rest ih =>
    have hrest := ih (h.member (x := x))
    rwa [List.append_assoc] at hrest

theorem head?_intercalate {x : String} (h : IsIdentifier x) (names : List String) :
    (".".intercalate (x :: names)).toList.head? = x.toList.head? := by
  obtain ⟨c, hc, -⟩ := h.head?
  cases names with
  | nil => rw [String.intercalate_singleton]
  | cons y rest => simp [String.intercalate_cons_cons, hc]

/-- Words with points between them. -/
theorem spells_members {x : String} (names : List String) (h : ∀ y ∈ x :: names, IsWord y) :
    Spells isWordChar (".".intercalate (x :: names)) (.word x :: memberTokens names) := by
  induction names generalizing x with
  | nil =>
    have hx := h x List.mem_cons_self
    rw [String.intercalate_singleton]
    exact spells_word hx.identifier hx.plain
  | cons y rest ih =>
    have hx := h x List.mem_cons_self
    have hrest := ih (x := y) fun z hz => h z (List.mem_cons_of_mem x hz)
    have hy := (h y (List.mem_cons_of_mem x List.mem_cons_self)).identifier
    obtain ⟨c, hc, hstart⟩ := hy.head?
    -- A point would be read with a digit behind it, but no word begins with one.
    have hglue : Punct.dot.glue c = false :=
      Punct.glue_of_isWordChar (isWordChar_of_isWordStart hstart)
        fun _ => isDigit_of_isWordStart hstart
    rw [String.intercalate_cons_cons]
    exact ((spells_word hx.identifier hx.plain).append (spells_punct .dot) (c := '.') rfl
      (by decide)).append hrest ((head?_intercalate hy rest).trans hc) hglue

/-- **Members are written as they lead on.** -/
theorem WrittenAs.chain {text : String} {tree : Tree} {names : List String}
    (h : WrittenAs .suffixed text tree) (hne : names ≠ []) (hnames : ∀ x ∈ names, IsWord x) :
    WrittenAs .suffixed (text ++ "->" ++ ".".intercalate names) (chain tree names) := by
  obtain ⟨c, ts, hc, hts, hd⟩ := h
  obtain ⟨x, rest, rfl⟩ := List.exists_cons_of_ne_nil hne
  have hx := (hnames x List.mem_cons_self).identifier
  obtain ⟨d, hx', -⟩ := hx.head?
  have hspells := (hts.append (spells_punct .arrow) (c := '-') rfl (by decide)).append
    (spells_members rest hnames) ((head?_intercalate hx rest).trans hx') rfl
  refine ⟨c, ts ++ [.punct .arrow, .word x] ++ memberTokens rest, ?_, ?_, fun N hN => ?_⟩
  · simp [hc]
  · refine Spells.mono ?_ fun c hc => (Bool.or_eq_false_iff.mp hc).1
    simpa [Punct.text] using hspells
  · exact ((hd N ((obeys_chain _).mp hN)).arrow (x := x)).members rest

/-! ## Conversions -/

/-- The members that lead along a path. -/
def partNames (t : SymbolTable) (path : List ClassId) : List String :=
  path.map fun c => partName (t.classAt c).name

/-- **The tree of a pointer as one of an ancestor**: the address of the part that the path leads
to. -/
def upcastTree (t : SymbolTable) (tree : Tree) (source target : ClassId) : Tree :=
  match t.basePath source target with
  | none => tree
  | some [] => tree
  | some path => .unary .amp (chain tree (partNames t path))

/-- The tree of a value of a type as a value of another. -/
def convertTree (t : SymbolTable) (tree : Tree) (source : Option Ty) (target : Ty) : Tree :=
  match source, target with
  | some (.cls c), .cls a => upcastTree t tree c a
  | _, _ => tree

/-- The tree of a field of the receiver. -/
def fieldTree (t : SymbolTable) (cls : ClassId) (field : VarId) : Tree :=
  chain (.name receiver)
    (partNames t (((t.fieldOwner field).bind (t.basePath cls)).getD [])
      ++ [ident (t.varAt field).name])

section Conversions

variable {t : SymbolTable} {tree : Tree} {code : String} {c a : ClassId}

@[simp] theorem obeys_upcastTree {N : TypeNames} :
    (upcastTree t tree c a).Obeys N ↔ tree.Obeys N := by
  unfold upcastTree
  split
  · rfl
  · rfl
  · rw [obeys_unary, obeys_chain]

@[simp] theorem obeys_convertTree {N : TypeNames} {source : Option Ty} {target : Ty} :
    (convertTree t tree source target).Obeys N ↔ tree.Obeys N := by
  unfold convertTree
  split
  · exact obeys_upcastTree
  · rfl

@[simp] theorem obeys_fieldTree {N : TypeNames} {v : VarId} :
    (fieldTree t c v).Obeys N ↔ N.isType receiver = false := by
  rw [fieldTree, obeys_chain, obeys_name]

theorem isWord_of_path (named : t.Named) {path : List ClassId}
    (hpath : t.basePath c a = some path) : ∀ x ∈ partNames t path, IsWord x := by
  intro x hx
  obtain ⟨p, hp, rfl⟩ := List.mem_map.mp hx
  exact isWord_partName (named.path hpath p hp)

/-- **A text that can be converted**: it is an operand, and if it begins like a word, an arrow can
stand behind it. -/
structure Operand (code : String) (tree : Tree) : Prop where
  unary : WrittenAs .unary code tree
  word : startsWord code = true → WrittenAs .suffixed code tree

theorem Operand.ofSuffixed (h : WrittenAs .suffixed code tree) : Operand code tree :=
  ⟨h.ofSuffixed, fun _ => h⟩

theorem operand_of_head {d : Char} (h : WrittenAs .unary code tree)
    (hhead : code.toList.head? = some d) (hd : isWordStart d = false) : Operand code tree := by
  refine ⟨h, fun hword => ?_⟩
  unfold startsWord at hword
  rw [hhead] at hword
  exact absurd (hd.symm.trans hword) Bool.false_ne_true

/-- What stands before an arrow. -/
theorem Operand.arrowOperand (h : Operand code tree) :
    WrittenAs .suffixed (arrowOperand code) tree
      ∧ ∀ c ∈ (C.arrowOperand code).toList.head?, isWordStart c = true ∨ c = '(' := by
  unfold C.arrowOperand
  split
  · rename_i hstart
    refine ⟨h.word hstart, fun c hc => Or.inl ?_⟩
    unfold startsWord at hstart
    rw [hc] at hstart
    exact hstart
  · refine ⟨h.unary.ofUnary.parens.ofPrimary, fun c hc => Or.inr ?_⟩
    simpa using hc.symm

/-- **A conversion takes the address of members of the whole text.** -/
theorem Operand.upcast (h : Operand code tree) (named : t.Named) (c a : ClassId) :
    WrittenAs .unary (upcast t code c a) (upcastTree t tree c a) := by
  unfold C.upcast upcastTree
  cases hpath : t.basePath c a with
  | none => exact h.unary
  | some path =>
    cases path with
    | nil => exact h.unary
    | cons p rest =>
      obtain ⟨hoperand, hstart⟩ := h.arrowOperand
      have hne : partNames t (p :: rest) ≠ [] := List.cons_ne_nil _ _
      have hchain := hoperand.chain hne (isWord_of_path named hpath)
      obtain ⟨d, -, hd, -⟩ := hoperand
      have haddress := hchain.address (by simpa [hd] using hstart)
      simpa [partChain, partNames, String.append_assoc] using haddress

/-- A field is a member of the receiver, or of a part of it. -/
theorem writtenAs_fieldAccess {v : VarId} (named : t.Named)
    (hv : IsIdentifier (t.varAt v).name) :
    WrittenAs .suffixed (fieldAccess t c v) (fieldTree t c v) := by
  have hpath : ∀ x ∈ partNames t (((t.fieldOwner v).bind (t.basePath c)).getD []), IsWord x := by
    cases hfound : (t.fieldOwner v).bind (t.basePath c) with
    | none => exact List.forall_mem_nil _
    | some path =>
      obtain ⟨o, -, ho⟩ := Option.bind_eq_some_iff.mp hfound
      exact isWord_of_path named ho
  unfold fieldAccess fieldTree
  generalize ((t.fieldOwner v).bind (t.basePath c)).getD [] = path at hpath
  have hwords : ∀ x ∈ partNames t path ++ [ident (t.varAt v).name], IsWord x :=
    List.forall_mem_append.mpr ⟨hpath, List.forall_mem_singleton.mpr (isWord_ident hv)⟩
  have hchain := (writtenAs_word isWord_receiver).ofPrimary.chain
    (List.append_ne_nil_of_right_ne_nil _ (List.cons_ne_nil _ _)) hwords
  cases path with
  | nil => simpa [partNames] using hchain
  | cons p rest =>
    have hne : partNames t (p :: rest) ≠ [] := List.cons_ne_nil _ _
    rw [String.intercalate_append_of_ne_nil hne (List.cons_ne_nil _ _)] at hchain
    simpa [partChain, partNames, String.append_assoc] using hchain

end Conversions

/-! ## Calls -/

theorem commas_cons (w : List Token) (ws : List (List Token)) :
    commas (w :: ws) = w ++ ws.flatMap (.punct .comma :: ·) := by
  induction ws generalizing w with
  | nil => simp
  | cons v ws ih => rw [commas_cons_cons, ih, List.flatMap_cons, List.cons_append]

/-- The arguments of a call are derived one by one. -/
theorem Derives.call_of_forall₂ {N : TypeNames} {w : List Token} {f : Tree}
    {ws : List (List Token)} {args : List Tree} (h : Derives N .suffixed w f)
    (inside : List.Forall₂ (Derives N .assignment) ws args) :
    Derives N .suffixed (w ++ .punct .lparen :: commas ws ++ [.punct .rparen]) (.call f args) := by
  have hlength := inside.length_eq
  have hzip : ∀ a ∈ ws.zip args, Derives N .assignment a.1 a.2 :=
    fun _ ha => List.forall₂_zip inside ha
  have hcall := h.call hzip
  rwa [List.map_fst_zip hlength.le, List.map_snd_zip hlength.ge] at hcall

/-- **The arguments of a call behind the first**, each with its comma before it, up to the
parenthesis that closes the call. -/
def ArgsWritten (text : String) (trees : List Tree) : Prop :=
  ∃ c ws, (text ++ ")").toList.head? = some c ∧ isNumberChar c = false
    ∧ Spells isNumberChar (text ++ ")") (ws.flatMap (.punct .comma :: ·) ++ [.punct .rparen])
    ∧ ∀ N : TypeNames, (∀ t ∈ trees, t.Obeys N) → List.Forall₂ (Derives N .assignment) ws trees

theorem argsWritten_nil : ArgsWritten "" [] :=
  ⟨')', [], rfl, by decide, (spells_punct .rparen).mono fun _ _ => rfl, fun _ _ => .nil⟩

theorem ArgsWritten.cons {text rest : String} {tree : Tree} {trees : List Tree}
    (h : WrittenAs .assignment text tree) (hrest : ArgsWritten rest trees) :
    ArgsWritten (", " ++ text ++ rest) (tree :: trees) := by
  obtain ⟨c, ts, hc, hts, hd⟩ := h
  obtain ⟨c', ws, hc', hnumber, hws, hds⟩ := hrest
  have hcomma : Spells (fun _ => false) ", " [.punct .comma] :=
    (spells_punct .comma).append spells_blank (c := ' ') rfl (by decide)
  have hspells := (hcomma.append hts hc rfl).append hws hc' hnumber
  refine ⟨',', ts :: ws, by simp, by decide, by simpa [String.append_assoc] using hspells,
    fun N hN => ?_⟩
  obtain ⟨hN, hNs⟩ := List.forall_mem_cons.mp hN
  exact .cons (hd N hN) (hds N hNs)

/-- **A call**, with its receiver as the first argument. -/
theorem writtenAs_call {f text args : String} {tree : Tree} {trees : List Tree}
    (hf : IsWord f) (h : WrittenAs .assignment text tree) (hargs : ArgsWritten args trees) :
    WrittenAs .suffixed (f ++ "(" ++ text ++ args ++ ")") (.call (.name f) (tree :: trees)) := by
  obtain ⟨c, ts, hc, hts, hd⟩ := h
  obtain ⟨c', ws, hc', hnumber, hws, hds⟩ := hargs
  obtain ⟨d, hhead, -⟩ := hf.identifier.head?
  have hspells := (((spells_word hf.identifier hf.plain).append (spells_punct .lparen) (c := '(')
    rfl (by decide)).append hts hc rfl).append hws hc' hnumber
  refine ⟨d, .word f :: .punct .lparen :: commas (ts :: ws) ++ [.punct .rparen], by simp [hhead],
    by simpa [String.append_assoc, commas_cons, Punct.text] using hspells, fun N hN => ?_⟩
  obtain ⟨hname, hN⟩ := obeys_call.mp hN
  obtain ⟨hN, hNs⟩ := List.forall_mem_cons.mp hN
  exact (Derives.ofPrimary (.name (obeys_name.mp hname))).call_of_forall₂
    (.cons (hd N hN) (hds N hNs))

end C

open C

/-! ## Expressions -/

namespace Site

/-- The tree of a literal. -/
def literalTree : Int → Tree
  | .ofNat n => .constant n
  | .negSucc n => .unary .minus (.constant (n + 1))

/-- The tree of a variable. -/
def varTree (s : Site) (v : VarId) : Tree :=
  match (s.table.varAt v).kind with
  | .receiver => .name receiver
  | .field => fieldTree s.table s.cls v
  | _ => .name (ident (s.table.varAt v).name)

/-- The tree of an expression whose value is stored where a type is expected, given that of its
value. -/
def storeTree (s : Site) (e : Expr) (target : Option Ty) (tree : Tree) : Tree :=
  match s.valueType? e, target with
  | some source, some target => convertTree s.table tree (some source) target
  | _, _ => tree

/-- The tree of a call, given those of its receiver and of its arguments. One that reaches nothing
has none; any tree will do. -/
def callTree (s : Site) (receiver : Tree) (args : List Tree) : Target → Tree
  | .construct c =>
    .unary .amp (.compound [.word (ident (s.table.classAt c).name)] [.constant 0])
  | .method on m =>
    let owner := (s.table.methodAt m).owner
    .call (.name (functionName (s.table.classAt owner).name (s.table.methodAt m).name))
      (upcastTree s.table receiver on owner :: args)
  | .nothing _ => .constant 0

mutual
/-- **The tree of an expression.** -/
def tree (s : Site) : Expr → Tree
  | .int value _ => literalTree value
  | .name ident =>
    match s.var ident with
    | .ok v => s.varTree v
    | .error _ => .constant 0
  | .self _ => .name receiver
  | .binary op left right _ => .binary op.punct (s.tree left) (s.tree right)
  | .call callee args _ =>
    let target := s.callTarget callee
    s.callTree (.name C.receiver) (s.argTrees target 0 args) target
  | .send receiver callee args _ =>
    let target := s.sendTarget (s.valueType? receiver) callee
    s.callTree (s.tree receiver) (s.argTrees target 0 args) target
/-- The trees of the arguments of a call from the given one on. -/
def argTrees (s : Site) (target : Target) (i : Nat) : List Expr → List Tree
  | [] => []
  | e :: rest =>
    s.storeTree e (s.paramType? target i) (s.tree e) :: s.argTrees target (i + 1) rest
end

/-- **An expression is written as its tree**: where it is a part of another one, and where it
stands alone. -/
structure Written (s : Site) (e : Expr) : Prop extends Operand (s.code e) (s.tree e) where
  alone : WrittenAs .assignment (standalone e (s.code e)) (s.tree e)

section Written

variable {s : Site}

/-- Whatever is no operation stands alone as it is. -/
theorem written_of_operand {e : Expr} (hne : ∀ op left right span, e ≠ .binary op left right span)
    (h : Operand (s.code e) (s.tree e)) : s.Written e where
  toOperand := h
  alone := by
    rw [standalone_of_ne hne]
    exact h.unary.ofUnary

theorem operand_literal (value : Int) : Operand (toString value) (literalTree value) := by
  cases value with
  | ofNat n => exact .ofSuffixed (writtenAs_number n).ofPrimary
  | negSucc n =>
    have hminus : Operand ("-" ++ toString (n + 1)) (literalTree (.negSucc n)) :=
      operand_of_head (d := '-') (writtenAs_minus (n + 1)) (by simp) (by decide)
    exact hminus

theorem operand_varCode (named : s.table.Named) {x : Ident} {v : VarId} (hx : s.var x = .ok v) :
    Operand (s.varCode v) (s.varTree v) := by
  have hv := named.var hx
  unfold varCode varTree
  cases hkind : (s.table.varAt v).kind with
  | receiver => exact .ofSuffixed (writtenAs_word isWord_receiver).ofPrimary
  | field =>
    exact .ofSuffixed (writtenAs_fieldAccess named (hv (hkind ▸ nofun)))
  | parameter =>
    exact .ofSuffixed (writtenAs_word (isWord_ident (hv (hkind ▸ nofun)))).ofPrimary
  | localVar =>
    exact .ofSuffixed (writtenAs_word (isWord_ident (hv (hkind ▸ nofun)))).ofPrimary

/-- The names that are written for what a call reaches are identifiers. -/
def Spellable (t : SymbolTable) : Target → Prop
  | .construct c => IsIdentifier (t.classAt c).name
  | .method _ m =>
    IsIdentifier (t.classAt (t.methodAt m).owner).name ∧ IsIdentifier (t.methodAt m).name
  | .nothing _ => True

theorem spellable_methodTarget (named : s.table.Named) (c : ClassId) (callee : Ident) :
    Spellable s.table (s.methodTarget c callee) := by
  unfold methodTarget SymbolTable.methodNamed
  cases hm : s.table.findMethod c callee.text with
  | some m => exact named.method hm
  | none =>
    dsimp only
    split_ifs <;> exact trivial

theorem spellable_callTarget (named : s.table.Named) (callee : Ident) :
    Spellable s.table (s.callTarget callee) := by
  unfold callTarget
  cases hc : s.table.lookupClass callee.text with
  | some c => exact named.cls hc
  | none => exact spellable_methodTarget named _ callee

theorem spellable_sendTarget (named : s.table.Named) (type : Option Ty) (callee : Ident) :
    Spellable s.table (s.sendTarget type callee) := by
  unfold sendTarget
  split
  · exact trivial
  · exact spellable_methodTarget named _ callee
  · exact trivial

/-- **A call is written as its tree**, if its receiver and its arguments are. -/
theorem operand_callText (named : s.table.Named) {target : Target} {type : Ty}
    (htype : s.targetType? target = some type) (hnames : Spellable s.table target)
    {receiver args : String} {tree : Tree} {trees : List Tree} (hreceiver : Operand receiver tree)
    (hargs : ArgsWritten args trees) :
    Operand (s.callText receiver args target) (s.callTree tree trees target) := by
  cases target with
  | construct c =>
    exact operand_of_head (d := '&') (writtenAs_construction (isWord_ident hnames))
      (by simp [callText]) (by decide)
  | method on m =>
    have hreturn : ¬ (s.table.methodAt m).returnType.isNone = true := by
      rw [show (s.table.methodAt m).returnType = some type from htype]
      exact Bool.false_ne_true
    rw [callText, if_neg hreturn]
    exact .ofSuffixed (writtenAs_call (isWord_functionName hnames.1 hnames.2)
      (hreceiver.upcast named _ _).ofUnary hargs)
  | nothing why => cases htype

/-- A value that is converted stands where it goes as its tree. -/
theorem Written.convert {e : Expr} (h : s.Written e) (named : s.table.Named) {source : Ty}
    (hsource : s.type? e = some source) (target : Ty) :
    WrittenAs .assignment (standalone e (convert s.table (s.code e) (some source) target))
      (convertTree s.table (s.tree e) (some source) target) := by
  cases source with
  | int => exact h.alone
  | void => exact h.alone
  | cls c =>
    cases target with
    | int => exact h.alone
    | void => exact h.alone
    | cls a =>
      rw [standalone_of_object hsource]
      exact (h.upcast named c a).ofUnary

theorem valueText_of_use {e : Expr} (h : s.useIssues e = []) (code : String) :
    s.valueText e code = code :=
  if_neg (useIssues_eq_nil_iff.mp h)

/-- **A value that may be stored is written as its tree**, conversion included. -/
theorem Written.store {e : Expr} (h : s.Written e) (named : s.table.Named) {target : Option Ty}
    {use : String} (hstore : s.storeIssues e target use = []) :
    WrittenAs .assignment (s.storeText e target (s.code e))
      (s.storeTree e target (s.tree e)) := by
  unfold storeIssues at hstore
  unfold storeText storeTree
  cases htype : s.valueType? e with
  | none => exact h.alone
  | some source =>
    cases target with
    | none => exact h.alone
    | some target =>
      rw [htype] at hstore
      dsimp only at hstore ⊢
      rw [if_pos (isCompatible_of_storeIssue? (Option.toList_eq_nil_iff.mp hstore))]
      exact h.convert named (Option.eq_some_of_filter_eq_some htype) target

mutual
/-- **An expression of which nothing is wrong is written as its tree.** -/
theorem written (named : s.table.Named) (typed : ∀ e, s.issues e = [] → ∃ τ, s.type? e = some τ) :
    (e : Expr) → s.issues e = [] → s.Written e
  | .int value span, h => by
    have hfits : fitsInt value = true := by
      by_contra hnot
      unfold issues literalIssue? at h
      rw [if_neg hnot] at h
      cases h
    refine written_of_operand nofun ?_
    unfold code tree
    rw [if_pos hfits]
    exact operand_literal value
  | .name x, h => by
    refine written_of_operand nofun ?_
    unfold issues at h
    unfold code tree
    cases hx : s.var x with
    | ok v => exact operand_varCode named hx
    | error i =>
      rw [hx] at h
      cases h
  | .self span, _ => by
    refine written_of_operand nofun ?_
    unfold code tree
    exact .ofSuffixed (writtenAs_word isWord_receiver).ofPrimary
  | .binary op left right span, h => by
    unfold issues at h
    simp only [List.append_eq_nil_iff] at h
    obtain ⟨⟨⟨hl, hul⟩, -⟩, ⟨hr, hur⟩, -⟩ := h
    have hcode : s.code (.binary op left right span)
        = "(" ++ (s.code left ++ " " ++ op.symbol ++ " " ++ s.code right) ++ ")" := by
      rw [code, valueText_of_use hul, valueText_of_use hur]
      simp only [String.append_assoc]
    have htree : s.tree (.binary op left right span)
        = .binary op.punct (s.tree left) (s.tree right) := by
      rw [tree]
    have hleft := written named typed left hl
    have hright := written named typed right hr
    have hop := hleft.unary.operation op hright.unary
    constructor
    · rw [hcode, htree]
      exact .ofSuffixed hop.parens.ofPrimary
    · rw [hcode, htree, standalone_brackets]
      exact hop
  | .call callee args span, h => by
    obtain ⟨τ, hτ⟩ := typed _ h
    unfold issues at h
    unfold type? at hτ
    dsimp only at h
    obtain ⟨-, hargs⟩ := List.append_eq_nil_iff.mp h
    refine written_of_operand nofun ?_
    unfold code tree
    exact operand_callText named hτ (spellable_callTarget named callee)
      (.ofSuffixed (writtenAs_word isWord_receiver).ofPrimary)
      (argsWritten named typed _ 0 args hargs)
  | .send receiver callee args span, h => by
    obtain ⟨τ, hτ⟩ := typed _ h
    unfold issues at h
    unfold type? at hτ
    dsimp only at h
    rw [List.append_eq_nil_iff, List.append_eq_nil_iff] at h
    obtain ⟨⟨hr, hur⟩, hcall⟩ := h
    obtain ⟨-, hargs⟩ := List.append_eq_nil_iff.mp hcall
    refine written_of_operand nofun ?_
    unfold code tree
    dsimp only
    rw [valueText_of_use hur]
    exact operand_callText named hτ (spellable_sendTarget named _ callee)
      (written named typed receiver hr).toOperand (argsWritten named typed _ 0 args hargs)
theorem argsWritten (named : s.table.Named)
    (typed : ∀ e, s.issues e = [] → ∃ τ, s.type? e = some τ) (target : Target) : (i : Nat) →
    (args : List Expr) → s.argIssues target i args = [] →
    ArgsWritten (s.argsCode target i args) (s.argTrees target i args)
  | _, [], _ => by
    unfold argsCode argTrees
    exact argsWritten_nil
  | i, e :: rest, h => by
    unfold argIssues at h
    simp only [List.append_eq_nil_iff] at h
    obtain ⟨⟨⟨he, hue⟩, hstore⟩, hrest⟩ := h
    unfold argsCode argTrees
    rw [valueText_of_use hue]
    exact .cons ((written named typed e he).store named hstore)
      (argsWritten named typed target (i + 1) rest hrest)
end

end Written

/-! ## The names in the tree of an expression -/

mutual
/-- **What the calls in an expression reach**, in order. -/
def targets (s : Site) : Expr → List Target
  | .int _ _ => []
  | .name _ => []
  | .self _ => []
  | .binary _ left right _ => s.targets left ++ s.targets right
  | .call callee args _ => s.callTarget callee :: s.argTargets args
  | .send receiver callee args _ =>
    s.targets receiver ++ s.sendTarget (s.valueType? receiver) callee :: s.argTargets args
/-- What the calls in arguments reach, in order. -/
def argTargets (s : Site) : List Expr → List Target
  | [] => []
  | e :: rest => s.targets e ++ s.argTargets rest
end

mutual
/-- What is constructed in an expression is a class. -/
theorem lt_of_construct {s : Site} {c : ClassId} : (e : Expr) → .construct c ∈ s.targets e →
    c < s.table.classes.length
  | .int value span, h => by
    unfold targets at h
    cases h
  | .name x, h => by
    unfold targets at h
    cases h
  | .self span, h => by
    unfold targets at h
    cases h
  | .binary op left right span, h => by
    unfold targets at h
    exact (List.mem_append.mp h).elim (lt_of_construct left) (lt_of_construct right)
  | .call callee args span, h => by
    unfold targets at h
    rcases List.mem_cons.mp h with heq | h
    · unfold callTarget at heq
      cases hc : s.table.lookupClass callee.text with
      | some a =>
        rw [hc] at heq
        exact Target.construct.inj heq ▸ SymbolTable.lookupClass_lt hc
      | none =>
        rw [hc] at heq
        exact absurd heq.symm (methodTarget_ne_construct _ callee c)
    · exact lt_of_argConstruct args h
  | .send receiver callee args span, h => by
    unfold targets at h
    rcases List.mem_append.mp h with h | h
    · exact lt_of_construct receiver h
    · rcases List.mem_cons.mp h with heq | h
      · exact absurd heq.symm (sendTarget_ne_construct _ callee c)
      · exact lt_of_argConstruct args h
theorem lt_of_argConstruct {s : Site} {c : ClassId} : (args : List Expr) →
    .construct c ∈ s.argTargets args → c < s.table.classes.length
  | [], h => by
    unfold argTargets at h
    cases h
  | e :: rest, h => by
    unfold argTargets at h
    exact (List.mem_append.mp h).elim (lt_of_construct e) (lt_of_argConstruct rest)
end

/-- **The name that is written for what a call reaches is recognized**: that of a class names a
type, and that of a function does not. -/
def Recognized (N : TypeNames) (t : SymbolTable) : Target → Prop
  | .construct c => N.isType (ident (t.classAt c).name) = true
  | .method _ m => N.isType
      (functionName (t.classAt (t.methodAt m).owner).name (t.methodAt m).name) = false
  | .nothing _ => True

section Recognized

variable {s : Site} {N : TypeNames}

theorem obeys_storeTree {e : Expr} {target : Option Ty} {tree : Tree} :
    (s.storeTree e target tree).Obeys N ↔ tree.Obeys N := by
  unfold storeTree
  split
  · exact obeys_convertTree
  · rfl

theorem obeys_callTree_method {on : ClassId} {m : MethodId} {tree : Tree} {trees : List Tree} :
    (s.callTree tree trees (.method on m)).Obeys N
      ↔ Recognized N s.table (.method on m) ∧ tree.Obeys N ∧ ∀ t ∈ trees, t.Obeys N := by
  unfold callTree
  dsimp only
  rw [obeys_call, obeys_name, List.forall_mem_cons, obeys_upcastTree]
  rfl

theorem obeys_callTree_construct {c : ClassId} {tree : Tree} {trees : List Tree} :
    (s.callTree tree trees (.construct c)).Obeys N ↔ Recognized N s.table (.construct c) := by
  unfold callTree
  dsimp only
  rw [obeys_unary, obeys_literal]
  rfl

/-- The names of variables at a place name no types there. -/
structure VarsPlain (s : Site) (N : TypeNames) : Prop where
  receiver : N.isType receiver = false
  var : ∀ {x v}, s.var x = .ok v → (s.varTree v).Obeys N

mutual
/-- **Where variables name no types**, the tree of an expression uses names as it should exactly
if what its calls reach is recognized. -/
theorem obeys_tree (typed : ∀ e, s.issues e = [] → ∃ τ, s.type? e = some τ)
    (plain : s.VarsPlain N) : (e : Expr) → s.issues e = [] →
    ((s.tree e).Obeys N ↔ ∀ target ∈ s.targets e, Recognized N s.table target)
  | .int value span, _ => by
    unfold tree targets
    cases value with
    | ofNat n => simp [literalTree]
    | negSucc n => simp [literalTree]
  | .name x, h => by
    unfold issues at h
    unfold tree targets
    cases hx : s.var x with
    | ok v => simpa using plain.var hx
    | error i =>
      rw [hx] at h
      cases h
  | .self span, _ => by
    unfold tree targets
    simpa using plain.receiver
  | .binary op left right span, h => by
    unfold issues at h
    simp only [List.append_eq_nil_iff] at h
    obtain ⟨⟨⟨hl, -⟩, -⟩, ⟨hr, -⟩, -⟩ := h
    unfold tree targets
    rw [obeys_binary, obeys_tree typed plain left hl, obeys_tree typed plain right hr,
      List.forall_mem_append]
  | .call callee args span, h => by
    obtain ⟨τ, hτ⟩ := typed _ h
    unfold issues at h
    unfold type? at hτ
    dsimp only at h
    obtain ⟨htarget, hargs⟩ := List.append_eq_nil_iff.mp h
    unfold tree targets
    dsimp only
    cases hcase : s.callTarget callee with
    | construct c =>
      rw [hcase] at htarget
      -- A construction has no arguments, so its tree names nothing but the class.
      rw [args_of_construct htarget, obeys_callTree_construct]
      unfold argTargets
      exact List.forall_mem_singleton.symm
    | method on m =>
      rw [hcase] at hargs
      rw [obeys_callTree_method, obeys_argTrees typed plain _ 0 args hargs, List.forall_mem_cons,
        and_iff_right (obeys_name.mpr plain.receiver)]
    | nothing why =>
      rw [hcase] at hτ
      cases hτ
  | .send receiver callee args span, h => by
    obtain ⟨τ, hτ⟩ := typed _ h
    unfold issues at h
    unfold type? at hτ
    dsimp only at h
    rw [List.append_eq_nil_iff, List.append_eq_nil_iff] at h
    obtain ⟨⟨hr, -⟩, hcall⟩ := h
    obtain ⟨-, hargs⟩ := List.append_eq_nil_iff.mp hcall
    change s.targetType? (s.sendTarget (s.valueType? receiver) callee) = some τ at hτ
    unfold tree targets
    dsimp only
    cases hcase : s.sendTarget (s.valueType? receiver) callee with
    | construct c => exact absurd hcase (sendTarget_ne_construct _ _ c)
    | method on m =>
      rw [hcase] at hargs
      rw [obeys_callTree_method, obeys_tree typed plain receiver hr,
        obeys_argTrees typed plain _ 0 args hargs, List.forall_mem_append, List.forall_mem_cons]
      exact and_left_comm
    | nothing why =>
      rw [hcase] at hτ
      cases hτ
theorem obeys_argTrees (typed : ∀ e, s.issues e = [] → ∃ τ, s.type? e = some τ)
    (plain : s.VarsPlain N) (target : Target) : (i : Nat) → (args : List Expr) →
    s.argIssues target i args = [] →
    ((∀ t ∈ s.argTrees target i args, t.Obeys N)
      ↔ ∀ target ∈ s.argTargets args, Recognized N s.table target)
  | _, [], _ => by
    unfold argTrees argTargets
    simp
  | i, e :: rest, h => by
    unfold argIssues at h
    simp only [List.append_eq_nil_iff] at h
    obtain ⟨⟨⟨he, -⟩, -⟩, hrest⟩ := h
    unfold argTrees argTargets
    rw [List.forall_mem_cons, obeys_storeTree, obeys_tree typed plain e he,
      obeys_argTrees typed plain target (i + 1) rest hrest, List.forall_mem_append]
end

end Recognized

end Site

end Heritage
