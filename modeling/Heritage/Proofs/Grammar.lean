import Heritage.Proofs.Tokens

/-!
# The expressions of C

The grammar of the expressions of C, production by production, and the trees
that it gives to lists of tokens. Which operators bind tighter is said by the
phrases, of which each is built from tighter ones; parentheses leave no trace in
a tree.

Whether a word is the name of a type or of something else depends on where it
stands, and with it whether a parenthesis opens a type. `TypeNames` is what of
this an expression has to know: which words name types, and which lists of tokens
do. The grammar of types itself is left open. Of a type it matters that it begins
with the name of a type or a keyword, which no expression does, and that the
parentheses in it are matched.
-/

namespace Heritage.C

/-! ## Operators -/

namespace Punct

/-- How tight a binary operator binds, the tightest ones first. -/
def level? : Punct → Option Nat
  | .star | .slash | .percent => some 0
  | .plus | .minus => some 1
  | .shl | .shr => some 2
  | .lt | .gt | .le | .ge => some 3
  | .eq | .ne => some 4
  | .amp => some 5
  | .caret => some 6
  | .bar => some 7
  | .andAnd => some 8
  | .orOr => some 9
  | _ => none

/-- The number of levels. -/
def levels : Nat := 10

/-- The operators that stand before a cast expression. -/
def isUnary : Punct → Bool
  | .amp | .star | .plus | .minus | .tilde | .bang => true
  | _ => false

/-- The operators that count up and down. -/
def isCount : Punct → Bool
  | .incr | .decr => true
  | _ => false

/-- The operators that assign. -/
def isSet : Punct → Bool
  | .set | .starSet | .slashSet | .percentSet | .plusSet | .minusSet | .shlSet | .shrSet | .ampSet
  | .caretSet | .barSet => true
  | _ => false

end Punct

/-! ## Trees -/

/-- **The tree of an expression**, or of an initial value. -/
inductive Tree where
  | name (x : String)
  | constant (n : Nat)
  | index (t i : Tree)
  | call (f : Tree) (args : List Tree)
  /-- A member of a struct. -/
  | member (t : Tree) (x : String)
  /-- A member of the struct that a pointer points to. -/
  | arrow (t : Tree) (x : String)
  | counted (t : Tree) (op : Punct)
  /-- A compound literal: a type, and the initial values in its braces. -/
  | compound (type : List Token) (inits : List Tree)
  /-- An operator before its operand. -/
  | unary (op : Punct) (t : Tree)
  | sizeOf (t : Tree)
  | sizeOfType (type : List Token)
  | cast (type : List Token) (t : Tree)
  | binary (op : Punct) (left right : Tree)
  | conditional (cond yes no : Tree)
  | assign (op : Punct) (left right : Tree)
  | sequence (left right : Tree)
  /-- Initial values in braces. -/
  | braces (inits : List Tree)
  /-- An initial value for an element. -/
  | atIndex (i t : Tree)
  /-- An initial value for a member. -/
  | atMember (x : String) (t : Tree)

namespace Tree

mutual
/-- The names in a tree, apart from those of members. -/
def names : Tree → List String
  | .name x => [x]
  | .constant _ => []
  | .index t i => t.names ++ i.names
  | .call f args => f.names ++ namesOf args
  | .member t _ => t.names
  | .arrow t _ => t.names
  | .counted t _ => t.names
  | .compound _ inits => namesOf inits
  | .unary _ t => t.names
  | .sizeOf t => t.names
  | .sizeOfType _ => []
  | .cast _ t => t.names
  | .binary _ left right => left.names ++ right.names
  | .conditional cond yes no => cond.names ++ yes.names ++ no.names
  | .assign _ left right => left.names ++ right.names
  | .sequence left right => left.names ++ right.names
  | .braces inits => namesOf inits
  | .atIndex i t => i.names ++ t.names
  | .atMember _ t => t.names
/-- The names in a list of trees. -/
def namesOf : List Tree → List String
  | [] => []
  | t :: rest => t.names ++ namesOf rest
end

mutual
/-- The types in a tree. -/
def types : Tree → List (List Token)
  | .name _ => []
  | .constant _ => []
  | .index t i => t.types ++ i.types
  | .call f args => f.types ++ typesOf args
  | .member t _ => t.types
  | .arrow t _ => t.types
  | .counted t _ => t.types
  | .compound type inits => type :: typesOf inits
  | .unary _ t => t.types
  | .sizeOf t => t.types
  | .sizeOfType type => [type]
  | .cast type t => type :: t.types
  | .binary _ left right => left.types ++ right.types
  | .conditional cond yes no => cond.types ++ yes.types ++ no.types
  | .assign _ left right => left.types ++ right.types
  | .sequence left right => left.types ++ right.types
  | .braces inits => typesOf inits
  | .atIndex i t => i.types ++ t.types
  | .atMember _ t => t.types
/-- The types in a list of trees. -/
def typesOf : List Tree → List (List Token)
  | [] => []
  | t :: rest => t.types ++ typesOf rest
end

theorem namesOf_eq (ts : List Tree) : namesOf ts = ts.flatMap names := by
  induction ts with
  | nil => rfl
  | cons t rest ih => rw [namesOf, ih, List.flatMap_cons]

theorem typesOf_eq (ts : List Tree) : typesOf ts = ts.flatMap types := by
  induction ts with
  | nil => rfl
  | cons t rest ih => rw [typesOf, ih, List.flatMap_cons]

end Tree

/-! ## Types -/

/-- The parentheses in a list of tokens are matched, if some were opened before. -/
def matched : Nat → List Token → Bool
  | opened, [] => opened == 0
  | opened, .punct .lparen :: rest => matched (opened + 1) rest
  | 0, .punct .rparen :: _ => false
  | opened + 1, .punct .rparen :: rest => matched opened rest
  | opened, _ :: rest => matched opened rest

/-- The tokens with which a type begins, if these words name types. -/
def startsType (isType : String → Bool) : Token → Bool
  | .word x => isType x
  | .keyword k => k != "sizeof"
  | _ => false

/-- **The types that can be named at a place.** -/
structure TypeNames where
  /-- The words that name types. Others name variables and functions. -/
  isType : String → Bool
  /-- The lists of tokens that are types. -/
  Types : List Token → Prop
  /-- A word that names a type is one. -/
  of_word : ∀ {x}, isType x = true → Types [.word x]
  /-- A type begins with a word that names one, or with a keyword. -/
  starts : ∀ {ts}, Types ts → ∃ tok rest, ts = tok :: rest ∧ startsType isType tok = true
  /-- The parentheses in a type are matched. -/
  closed : ∀ {ts}, Types ts → matched 0 ts = true

/-- A word alone is a type exactly if it names one. -/
theorem TypeNames.isType_word (N : TypeNames) {x : String} :
    N.Types [.word x] ↔ N.isType x = true := by
  refine ⟨fun h => ?_, N.of_word⟩
  obtain ⟨tok, rest, heq, hstarts⟩ := N.starts h
  obtain ⟨rfl, -⟩ := List.cons.inj heq
  exact hstarts

/-! ## The grammar -/

/-- The phrases of the grammar. -/
inductive Phrase where
  | primary
  /-- Phrases that go on with indices, arguments and members. -/
  | suffixed
  | unary
  | cast
  /-- Binary operations of the levels below the given one. -/
  | binary (k : Nat)
  | conditional
  | assignment
  | expression
  | initializer
  /-- An initial value between braces. -/
  | element
  /-- An initial value with the place that it is for. -/
  | designated
  /-- The end of one: more of the place, or the value. -/
  | designating
deriving DecidableEq

/-- Lists of tokens with commas between them. -/
def commas (ws : List (List Token)) : List Token :=
  [Token.punct .comma].intercalate ws

@[simp] theorem commas_singleton (w : List Token) : commas [w] = w := by
  simp [commas]

@[simp] theorem commas_cons_cons (w v : List Token) (ws : List (List Token)) :
    commas (w :: v :: ws) = w ++ .punct .comma :: commas (v :: ws) := by
  simp [commas, List.intercalate]

/-- **The grammar of expressions**: which lists of tokens are phrases, and what
their trees are. -/
inductive Derives (N : TypeNames) : Phrase → List Token → Tree → Prop where
  | name {x : String} (plain : N.isType x = false) : Derives N .primary [.word x] (.name x)
  | constant {n : Nat} : Derives N .primary [.number n] (.constant n)
  | parens {w : List Token} {t : Tree} (inside : Derives N .expression w t) :
      Derives N .primary (.punct .lparen :: w ++ [.punct .rparen]) t
  | ofPrimary {w : List Token} {t : Tree} (h : Derives N .primary w t) : Derives N .suffixed w t
  | index {w v : List Token} {t i : Tree} (h : Derives N .suffixed w t)
      (inside : Derives N .expression v i) :
      Derives N .suffixed (w ++ .punct .lbracket :: v ++ [.punct .rbracket]) (.index t i)
  | call {w : List Token} {f : Tree} {args : List (List Token × Tree)}
      (h : Derives N .suffixed w f) (inside : ∀ a ∈ args, Derives N .assignment a.1 a.2) :
      Derives N .suffixed (w ++ .punct .lparen :: commas (args.map Prod.fst) ++ [.punct .rparen])
        (.call f (args.map Prod.snd))
  | member {w : List Token} {t : Tree} {x : String} (h : Derives N .suffixed w t) :
      Derives N .suffixed (w ++ [.punct .dot, .word x]) (.member t x)
  | arrow {w : List Token} {t : Tree} {x : String} (h : Derives N .suffixed w t) :
      Derives N .suffixed (w ++ [.punct .arrow, .word x]) (.arrow t x)
  | counted {w : List Token} {t : Tree} {op : Punct} (h : Derives N .suffixed w t)
      (count : op.isCount = true) : Derives N .suffixed (w ++ [.punct op]) (.counted t op)
  | compound {type : List Token} {inits : List (List Token × Tree)} {last : List Token}
      (named : N.Types type) (nonempty : inits ≠ [])
      (inside : ∀ a ∈ inits, Derives N .element a.1 a.2)
      (ends : last = [] ∨ last = [.punct .comma]) :
      Derives N .suffixed (.punct .lparen :: type ++ .punct .rparen :: .punct .lbrace
        :: commas (inits.map Prod.fst) ++ last ++ [.punct .rbrace])
        (.compound type (inits.map Prod.snd))
  | ofSuffixed {w : List Token} {t : Tree} (h : Derives N .suffixed w t) : Derives N .unary w t
  | counting {w : List Token} {t : Tree} {op : Punct} (count : op.isCount = true)
      (h : Derives N .unary w t) : Derives N .unary (.punct op :: w) (.unary op t)
  | unary {w : List Token} {t : Tree} {op : Punct} (operator : op.isUnary = true)
      (h : Derives N .cast w t) : Derives N .unary (.punct op :: w) (.unary op t)
  | sizeOf {w : List Token} {t : Tree} (h : Derives N .unary w t) :
      Derives N .unary (.keyword "sizeof" :: w) (.sizeOf t)
  | sizeOfType {type : List Token} (named : N.Types type) :
      Derives N .unary (.keyword "sizeof" :: .punct .lparen :: type ++ [.punct .rparen])
        (.sizeOfType type)
  | ofUnary {w : List Token} {t : Tree} (h : Derives N .unary w t) : Derives N .cast w t
  | cast {type w : List Token} {t : Tree} (named : N.Types type) (h : Derives N .cast w t) :
      Derives N .cast (.punct .lparen :: type ++ .punct .rparen :: w) (.cast type t)
  | ofCast {w : List Token} {t : Tree} (h : Derives N .cast w t) : Derives N (.binary 0) w t
  | looser {k : Nat} {w : List Token} {t : Tree} (h : Derives N (.binary k) w t) :
      Derives N (.binary (k + 1)) w t
  | binary {k : Nat} {w v : List Token} {l r : Tree} {op : Punct}
      (left : Derives N (.binary (k + 1)) w l) (operator : op.level? = some k)
      (right : Derives N (.binary k) v r) :
      Derives N (.binary (k + 1)) (w ++ .punct op :: v) (.binary op l r)
  | ofBinary {w : List Token} {t : Tree} (h : Derives N (.binary Punct.levels) w t) :
      Derives N .conditional w t
  | conditional {w v u : List Token} {c y n : Tree} (cond : Derives N (.binary Punct.levels) w c)
      (yes : Derives N .expression v y) (no : Derives N .conditional u n) :
      Derives N .conditional (w ++ .punct .question :: v ++ .punct .colon :: u)
        (.conditional c y n)
  | ofConditional {w : List Token} {t : Tree} (h : Derives N .conditional w t) :
      Derives N .assignment w t
  | assign {w v : List Token} {l r : Tree} {op : Punct} (left : Derives N .unary w l)
      (operator : op.isSet = true) (right : Derives N .assignment v r) :
      Derives N .assignment (w ++ .punct op :: v) (.assign op l r)
  | ofAssignment {w : List Token} {t : Tree} (h : Derives N .assignment w t) :
      Derives N .expression w t
  | sequence {w v : List Token} {l r : Tree} (left : Derives N .expression w l)
      (right : Derives N .assignment v r) :
      Derives N .expression (w ++ .punct .comma :: v) (.sequence l r)
  | value {w : List Token} {t : Tree} (h : Derives N .assignment w t) : Derives N .initializer w t
  | braces {inits : List (List Token × Tree)} {last : List Token} (nonempty : inits ≠ [])
      (inside : ∀ a ∈ inits, Derives N .element a.1 a.2)
      (ends : last = [] ∨ last = [.punct .comma]) :
      Derives N .initializer
        (.punct .lbrace :: commas (inits.map Prod.fst) ++ last ++ [.punct .rbrace])
        (.braces (inits.map Prod.snd))
  | ofInitializer {w : List Token} {t : Tree} (h : Derives N .initializer w t) :
      Derives N .element w t
  | ofDesignated {w : List Token} {t : Tree} (h : Derives N .designated w t) :
      Derives N .element w t
  | atIndex {w v : List Token} {t i : Tree} (inside : Derives N .conditional v i)
      (h : Derives N .designating w t) :
      Derives N .designated (.punct .lbracket :: v ++ .punct .rbracket :: w) (.atIndex i t)
  | atMember {w : List Token} {t : Tree} {x : String} (h : Derives N .designating w t) :
      Derives N .designated (.punct .dot :: .word x :: w) (.atMember x t)
  | further {w : List Token} {t : Tree} (h : Derives N .designated w t) :
      Derives N .designating w t
  | equals {w : List Token} {t : Tree} (h : Derives N .initializer w t) :
      Derives N .designating (.punct .set :: w) t

/-! ## Tighter phrases are looser ones -/

section Looser

variable {N : TypeNames} {w : List Token} {t : Tree}

/-- An operation of a level is one of every looser level. -/
theorem Derives.looser_le {k m : Nat} (h : Derives N (.binary k) w t) (hle : k ≤ m) :
    Derives N (.binary m) w t := by
  induction hle with
  | refl => exact h
  | step _ ih => exact ih.looser

theorem Derives.binary_of_unary (h : Derives N .unary w t) (k : Nat) :
    Derives N (.binary k) w t :=
  (Derives.ofCast (.ofUnary h)).looser_le (Nat.zero_le k)

theorem Derives.assignment_of_binary {k : Nat} (h : Derives N (.binary k) w t)
    (hk : k ≤ Punct.levels) : Derives N .assignment w t :=
  .ofConditional (.ofBinary (h.looser_le hk))

/-- A phrase without operators stands wherever a value does. -/
theorem Derives.assignment_of_unary (h : Derives N .unary w t) : Derives N .assignment w t :=
  (h.binary_of_unary 0).assignment_of_binary (Nat.zero_le _)

end Looser

/-! ## The names in a tree -/

/-- **A tree uses names as a place has them**: its types can be named there, and the
names of its variables and functions name no types. -/
structure Tree.Obeys (N : TypeNames) (t : Tree) : Prop where
  names : ∀ x ∈ t.names, N.isType x = false
  types : ∀ type ∈ t.types, N.Types type

section Obeys

variable {N : TypeNames} {t t' : Tree}

/-- A tree of two parts obeys if both parts do. -/
theorem Tree.Obeys.append {s : Tree} (h : t.Obeys N) (h' : t'.Obeys N)
    (names : s.names = t.names ++ t'.names) (types : s.types = t.types ++ t'.types) :
    s.Obeys N where
  names := names ▸ List.forall_mem_append.mpr ⟨h.names, h'.names⟩
  types := types ▸ List.forall_mem_append.mpr ⟨h.types, h'.types⟩

/-- Trees in braces obey exactly if each of them does. -/
theorem Tree.obeys_braces {ts : List Tree} : (Tree.braces ts).Obeys N ↔ ∀ t ∈ ts, t.Obeys N := by
  constructor
  · rintro ⟨names, types⟩ t ht
    rw [Tree.names, Tree.namesOf_eq] at names
    rw [Tree.types, Tree.typesOf_eq] at types
    exact ⟨fun x hx => names x (List.mem_flatMap.mpr ⟨t, ht, hx⟩),
      fun type htype => types type (List.mem_flatMap.mpr ⟨t, ht, htype⟩)⟩
  · intro h
    constructor
    · rw [Tree.names, Tree.namesOf_eq]
      intro x hx
      obtain ⟨t, ht, hx⟩ := List.mem_flatMap.mp hx
      exact (h t ht).names x hx
    · rw [Tree.types, Tree.typesOf_eq]
      intro type htype
      obtain ⟨t, ht, htype⟩ := List.mem_flatMap.mp htype
      exact (h t ht).types type htype

theorem Tree.Obeys.all {inits : List (List Token × Tree)} (h : ∀ a ∈ inits, a.2.Obeys N) :
    (Tree.braces (inits.map Prod.snd)).Obeys N :=
  Tree.obeys_braces.mpr (List.forall_mem_map.mpr h)

theorem Tree.Obeys.typed {s : Tree} {type : List Token} (h : t.Obeys N) (named : N.Types type)
    (names : s.names = t.names) (types : s.types = type :: t.types) : s.Obeys N where
  names := names ▸ h.names
  types := types ▸ List.forall_mem_cons.mpr ⟨named, h.types⟩

/-- **What the grammar derives at a place uses names as the place has them.** -/
theorem Derives.obeys {P : Phrase} {w : List Token} (h : Derives N P w t) : t.Obeys N := by
  induction h with
  | name plain => exact ⟨List.forall_mem_singleton.mpr plain, List.forall_mem_nil _⟩
  | constant => exact ⟨List.forall_mem_nil _, List.forall_mem_nil _⟩
  | index _ _ ih ih' => exact ih.append ih' rfl rfl
  | call _ _ ih ih' => exact ih.append (Tree.Obeys.all ih') rfl rfl
  | member _ ih => exact ⟨ih.names, ih.types⟩
  | arrow _ ih => exact ⟨ih.names, ih.types⟩
  | counted _ _ ih => exact ⟨ih.names, ih.types⟩
  | compound named _ _ _ ih => exact (Tree.Obeys.all ih).typed named rfl rfl
  | counting _ _ ih => exact ⟨ih.names, ih.types⟩
  | unary _ _ ih => exact ⟨ih.names, ih.types⟩
  | sizeOf _ ih => exact ⟨ih.names, ih.types⟩
  | sizeOfType named => exact ⟨List.forall_mem_nil _, List.forall_mem_singleton.mpr named⟩
  | cast named _ ih => exact ih.typed named rfl rfl
  | binary _ _ _ ih ih' => exact ih.append ih' rfl rfl
  | conditional _ _ _ ih ih' ih'' =>
    exact (ih.append (s := .sequence _ _) ih' rfl rfl).append ih'' rfl rfl
  | assign _ _ _ ih ih' => exact ih.append ih' rfl rfl
  | sequence _ _ ih ih' => exact ih.append ih' rfl rfl
  | braces _ _ _ ih => exact Tree.Obeys.all ih
  | atIndex _ _ ih ih' => exact ih.append ih' rfl rfl
  | atMember _ ih => exact ⟨ih.names, ih.types⟩
  | _ => assumption

end Obeys

end Heritage.C
