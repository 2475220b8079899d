import Heritage.Proofs.Grammar
import Mathlib.Order.Filter.AtTopBot.Basic

/-!
# The grammar of expressions is unambiguous

A list of tokens has at most one tree as a phrase of the grammar, whatever types
can be named (`Derives.unique`). The productions do not show it: they go on to
the left, and where a phrase ends is seen only from the token behind it. So the
grammar is compared with a reader that goes through the tokens from left to
right and looks at one token to decide what to do, or at the tokens up to a
closing parenthesis. It is no part of the grammar and may read what the grammar
does not derive; what the grammar derives it reads, with the same tree
(`Derives.reads`), and it never reads one list in two ways.
-/

namespace Heritage.C

open Filter

/-! ## The reader -/

/-- What the reader is to read: a phrase, or how something goes on that was begun
before. -/
inductive Goal where
  | phrase (P : Phrase)
  /-- What stands behind a suffixed phrase. -/
  | suffix (t : Tree)
  /-- The next argument of a call, and what stands behind the call. -/
  | args (f : Tree) (done : List Tree)
  /-- The next initial value between braces, and what stands behind the compound
  literal if they belong to one. -/
  | inits (type : Option (List Token)) (done : List Tree)
  /-- The operations of a level that stand behind an operand. -/
  | operands (k : Nat) (t : Tree)
  /-- What stands behind commas. -/
  | rest (t : Tree)

/-- A reader of some goals: the tree, and the tokens that remain. -/
abbrev Reader := List Token → Option (Tree × List Token)

/-- Read a punctuator and go on. -/
def expect (p : Punct) (next : Reader) : Reader
  | .punct q :: r => if q = p then next r else none
  | _ => none

/-- Wrap a tree that was read. -/
def wrap (f : Tree → Tree) (result : Option (Tree × List Token)) : Option (Tree × List Token) :=
  result.map fun out => (f out.1, out.2)

/-- What stands before the parenthesis that closes one that was opened, and what
stands behind it, if more were opened inside. -/
def splitClose : Nat → List Token → Option (List Token × List Token)
  | _, [] => none
  | opened, .punct .lparen :: r =>
    (splitClose (opened + 1) r).map fun out => (.punct .lparen :: out.1, out.2)
  | 0, .punct .rparen :: r => some ([], r)
  | opened + 1, .punct .rparen :: r =>
    (splitClose opened r).map fun out => (.punct .rparen :: out.1, out.2)
  | opened, tok :: r => (splitClose opened r).map fun out => (tok :: out.1, out.2)

/-- The tokens begin with a parenthesis that opens a type. -/
def opensType (isType : String → Bool) : List Token → Bool
  | .punct .lparen :: tok :: _ => startsType isType tok
  | _ => false

/-- The type in parentheses that the tokens begin with, unless it is that of a
compound literal. -/
def castType? (isType : String → Bool) (ts : List Token) : Option (List Token × List Token) :=
  if opensType isType ts then
    (splitClose 0 ts.tail).filter fun out => out.2.head? != some (.punct .lbrace)
  else none

section Steps

variable (isType : String → Bool) (read : Goal → Reader)

def readPrimary : Reader
  | .word x :: r => if isType x then none else some (.name x, r)
  | .number n :: r => some (.constant n, r)
  | .punct .lparen :: r =>
    (read (.phrase .expression) r).bind fun out => expect .rparen (fun r => some (out.1, r)) out.2
  | _ => none

def readSuffixed (ts : List Token) : Option (Tree × List Token) :=
  if opensType isType ts then
    (splitClose 0 ts.tail).bind fun out => expect .lbrace (read (.inits (some out.1) [])) out.2
  else (read (.phrase .primary) ts).bind fun out => read (.suffix out.1) out.2

def readSuffix (t : Tree) : Reader
  | .punct .lbracket :: r =>
    (read (.phrase .expression) r).bind fun out =>
      expect .rbracket (read (.suffix (.index t out.1))) out.2
  | .punct .lparen :: .punct .rparen :: r => read (.suffix (.call t [])) r
  | .punct .lparen :: r => read (.args t []) r
  | .punct .dot :: .word x :: r => read (.suffix (.member t x)) r
  | .punct .arrow :: .word x :: r => read (.suffix (.arrow t x)) r
  | .punct op :: r =>
    if op.isCount then read (.suffix (.counted t op)) r else some (t, .punct op :: r)
  | ts => some (t, ts)

/-- Behind an argument. -/
def readArg (f : Tree) (done : List Tree) : Reader
  | .punct .comma :: r => read (.args f done) r
  | .punct .rparen :: r => read (.suffix (.call f done)) r
  | _ => none

/-- Behind the closing brace. -/
def readClosed (type : Option (List Token)) (done : List Tree) (r : List Token) :
    Option (Tree × List Token) :=
  match type with
  | none => some (.braces done, r)
  | some type => read (.suffix (.compound type done)) r

/-- Behind an initial value. -/
def readInit (type : Option (List Token)) (done : List Tree) : Reader
  | .punct .comma :: .punct .rbrace :: r => readClosed read type done r
  | .punct .comma :: r => read (.inits type done) r
  | .punct .rbrace :: r => readClosed read type done r
  | _ => none

def readUnary : Reader
  | .keyword k :: r =>
    if k = "sizeof" then
      match castType? isType r with
      | some (type, r) => some (.sizeOfType type, r)
      | none => wrap .sizeOf (read (.phrase .unary) r)
    else none
  | .punct op :: r =>
    if op.isCount then wrap (.unary op) (read (.phrase .unary) r)
    else if op.isUnary then wrap (.unary op) (read (.phrase .cast) r)
    else read (.phrase .suffixed) (.punct op :: r)
  | ts => read (.phrase .suffixed) ts

def readCast (ts : List Token) : Option (Tree × List Token) :=
  match castType? isType ts with
  | some (type, r) => wrap (.cast type) (read (.phrase .cast) r)
  | none => read (.phrase .unary) ts

def readOperands (k : Nat) (t : Tree) : Reader
  | .punct op :: r =>
    if op.level? = some k then
      (read (.phrase (.binary k)) r).bind fun out => read (.operands k (.binary op t out.1)) out.2
    else some (t, .punct op :: r)
  | ts => some (t, ts)

/-- Behind what may be a condition. -/
def readCond (c : Tree) : Reader
  | .punct .question :: r =>
    (read (.phrase .expression) r).bind fun out =>
      expect .colon (fun r => wrap (.conditional c out.1) (read (.phrase .conditional) r)) out.2
  | ts => some (c, ts)

/-- Behind what may be assigned to. -/
def readAssign (l : Tree) : Reader
  | .punct op :: r =>
    if op.isSet then wrap (.assign op l) (read (.phrase .assignment) r)
    else some (l, .punct op :: r)
  | ts => some (l, ts)

def readRest (t : Tree) : Reader
  | .punct .comma :: r =>
    (read (.phrase .assignment) r).bind fun out => read (.rest (.sequence t out.1)) out.2
  | ts => some (t, ts)

def readDesignated : Reader
  | .punct .lbracket :: r =>
    (read (.phrase .conditional) r).bind fun out =>
      expect .rbracket (fun r => wrap (.atIndex out.1) (read (.phrase .designating) r)) out.2
  | .punct .dot :: .word x :: r => wrap (.atMember x) (read (.phrase .designating) r)
  | _ => none

/-- **One step of the reader.** -/
def step : Goal → Reader
  | .phrase .primary, ts => readPrimary isType read ts
  | .phrase .suffixed, ts => readSuffixed isType read ts
  | .phrase .unary, ts => readUnary isType read ts
  | .phrase .cast, ts => readCast isType read ts
  | .phrase (.binary 0), ts => read (.phrase .cast) ts
  | .phrase (.binary (k + 1)), ts =>
    (read (.phrase (.binary k)) ts).bind fun out => read (.operands k out.1) out.2
  | .phrase .conditional, ts =>
    (read (.phrase (.binary Punct.levels)) ts).bind fun out => readCond read out.1 out.2
  | .phrase .assignment, ts =>
    (read (.phrase .conditional) ts).bind fun out => readAssign read out.1 out.2
  | .phrase .expression, ts =>
    (read (.phrase .assignment) ts).bind fun out => read (.rest out.1) out.2
  | .phrase .initializer, .punct .lbrace :: r => read (.inits none []) r
  | .phrase .initializer, ts => read (.phrase .assignment) ts
  | .phrase .element, .punct .lbracket :: r => read (.phrase .designated) (.punct .lbracket :: r)
  | .phrase .element, .punct .dot :: r => read (.phrase .designated) (.punct .dot :: r)
  | .phrase .element, ts => read (.phrase .initializer) ts
  | .phrase .designated, ts => readDesignated read ts
  | .phrase .designating, .punct .set :: r => read (.phrase .initializer) r
  | .phrase .designating, ts => read (.phrase .designated) ts
  | .suffix t, ts => readSuffix read t ts
  | .args f done, ts =>
    (read (.phrase .assignment) ts).bind fun out => readArg read f (done ++ [out.1]) out.2
  | .inits type done, ts =>
    (read (.phrase .element) ts).bind fun out => readInit read type (done ++ [out.1]) out.2
  | .operands k t, ts => readOperands read k t ts
  | .rest t, ts => readRest read t ts

end Steps

/-- **The reader**, with a bound on how deep it goes. -/
def parse (isType : String → Bool) : Nat → Goal → Reader
  | 0 => fun _ _ => none
  | n + 1 => step isType (parse isType n)

/-- **A goal is read from tokens**: the tree is found, and the tokens that remain,
if the reader goes deep enough. -/
def Reads (isType : String → Bool) (goal : Goal) (ts : List Token) (out : Tree × List Token) :
    Prop :=
  ∀ᶠ n in atTop, parse isType n goal ts = some out

section Reads

variable {isType : String → Bool} {goal : Goal} {ts r : List Token} {out : Tree × List Token}

/-- **Tokens are read in one way.** -/
theorem Reads.unique {out' : Tree × List Token} (h : Reads isType goal ts out)
    (h' : Reads isType goal ts out') : out = out' := by
  obtain ⟨n, hn, hn'⟩ := (h.and h').exists
  exact Option.some.inj (hn.symm.trans hn')

/-- What one step reads is read. -/
theorem Reads.of_step (h : ∀ᶠ n in atTop, step isType (parse isType n) goal ts = some out) :
    Reads isType goal ts out := by
  unfold Reads
  rw [← map_add_atTop_eq_nat 1]
  exact h

end Reads

/-! ## How phrases begin -/

namespace Phrase

/-- The punctuators that an operand can begin with. -/
def openers : List Punct :=
  [.lparen, .incr, .decr, .amp, .star, .plus, .minus, .tilde, .bang]

/-- The punctuators that a phrase can begin with. -/
def opening : Phrase → List Punct
  | .primary => [.lparen]
  | .suffixed => [.lparen]
  | .initializer => .lbrace :: openers
  | .element => .lbrace :: .lbracket :: .dot :: openers
  | .designated => [.lbracket, .dot]
  | .designating => [.lbracket, .dot, .set]
  | _ => openers

/-- The phrases that begin with no operator. -/
def isPlain : Phrase → Bool
  | .primary => true
  | .suffixed => true
  | _ => false

/-- The tokens that a phrase can begin with. -/
def begins (isType : String → Bool) (P : Phrase) : Token → Bool
  | .word x => !isType x
  | .number _ => true
  | .keyword k => k == "sizeof" && !P.isPlain
  | .punct p => P.opening.contains p

/-- What can begin a phrase can begin a phrase with more beginnings. -/
theorem begins_mono {isType : String → Bool} {P P' : Phrase} (hopening : P.opening ⊆ P'.opening)
    (hplain : P'.isPlain = true → P.isPlain = true) {tok : Token}
    (h : P.begins isType tok = true) : P'.begins isType tok = true := by
  cases tok with
  | word x => exact h
  | number n => rfl
  | keyword k =>
    obtain ⟨hk, hP⟩ := Bool.and_eq_true_iff.mp h
    refine Bool.and_eq_true_iff.mpr ⟨hk, ?_⟩
    rw [Bool.not_eq_true'] at hP ⊢
    exact Bool.eq_false_iff.mpr fun hP' => Bool.false_ne_true (hP.symm.trans (hplain hP'))
  | punct p =>
    exact List.contains_iff_mem.mpr (hopening (List.contains_iff_mem.mp h))

end Phrase

/-- A list that begins with a token that a phrase can begin with. -/
def Heads (isType : String → Bool) (P : Phrase) (w : List Token) : Prop :=
  ∃ tok rest, w = tok :: rest ∧ P.begins isType tok = true

section Heads

variable {isType : String → Bool} {P P' : Phrase} {w : List Token}

theorem Heads.append (h : Heads isType P w) (v : List Token) : Heads isType P (w ++ v) := by
  obtain ⟨tok, rest, rfl, htok⟩ := h
  exact ⟨tok, rest ++ v, rfl, htok⟩

/-- A list that begins a phrase begins one that may begin with more. -/
theorem Heads.mono (h : Heads isType P w) (hopening : P.opening ⊆ P'.opening)
    (hplain : P'.isPlain = true → P.isPlain = true) : Heads isType P' w := by
  obtain ⟨tok, rest, rfl, htok⟩ := h
  exact ⟨tok, rest, rfl, Phrase.begins_mono hopening hplain htok⟩

theorem heads_punct {p : Punct} (h : p ∈ P.opening) (rest : List Token) :
    Heads isType P (.punct p :: rest) :=
  ⟨_, rest, rfl, List.contains_iff_mem.mpr h⟩

end Heads

theorem Punct.mem_openers {p : Punct} (h : p.isCount = true ∨ p.isUnary = true) :
    p ∈ Phrase.openers := by
  cases p <;> revert h <;> decide

/-- **Every phrase begins with a token it can begin with**, and so with no type. -/
theorem Derives.heads {N : TypeNames} {P : Phrase} {w : List Token} {t : Tree}
    (h : Derives N P w t) : Heads N.isType P w := by
  induction h with
  | name plain => exact ⟨_, _, rfl, by simp [Phrase.begins, plain]⟩
  | constant => exact ⟨_, _, rfl, rfl⟩
  | parens => exact heads_punct (by decide) _
  | ofPrimary _ ih => exact ih.mono (by decide) (fun _ => rfl)
  | index _ _ ih => exact (ih.append _).append _
  | call _ _ ih => exact (ih.append _).append _
  | member _ ih => exact ih.append _
  | arrow _ ih => exact ih.append _
  | counted _ _ ih => exact ih.append _
  | compound => exact heads_punct (by decide) _
  | ofSuffixed _ ih => exact ih.mono (by decide) nofun
  | counting count => exact heads_punct (Punct.mem_openers (Or.inl count)) _
  | unary operator => exact heads_punct (Punct.mem_openers (Or.inr operator)) _
  | sizeOf => exact ⟨_, _, rfl, rfl⟩
  | sizeOfType => exact ⟨_, _, rfl, rfl⟩
  | ofUnary _ ih => exact ih
  | cast => exact heads_punct (by decide) _
  | ofCast _ ih => exact ih
  | looser _ ih => exact ih
  | binary _ _ _ ih => exact ih.append _
  | ofBinary _ ih => exact ih
  | conditional _ _ _ ih => exact (ih.append _).append _
  | ofConditional _ ih => exact ih
  | assign _ _ _ ih => exact ih.append _
  | ofAssignment _ ih => exact ih
  | sequence _ _ ih => exact ih.append _
  | value _ ih => exact ih.mono (List.subset_cons_self ..) nofun
  | braces => exact heads_punct (by decide) _
  | ofInitializer _ ih => exact ih.mono (by decide) nofun
  | ofDesignated _ ih => exact ih.mono (by decide) nofun
  | atIndex => exact heads_punct (by decide) _
  | atMember => exact heads_punct (by decide) _
  | further _ ih => exact ih.mono (by decide) nofun
  | equals => exact heads_punct (by decide) _

/-! ## Types in parentheses -/

/-- A type is split off at its parenthesis. -/
theorem splitClose_of_matched {opened : Nat} {ts : List Token} (h : matched opened ts = true)
    (r : List Token) : splitClose opened (ts ++ .punct .rparen :: r) = some (ts, r) := by
  fun_induction matched opened ts with
  | case1 opened =>
    obtain rfl := beq_iff_eq.mp h
    rfl
  | case2 opened rest ih => simp [splitClose, ih h]
  | case3 rest => cases h
  | case4 opened rest ih => simp [splitClose, ih h]
  | case5 opened tok rest hopen hclose hclose' ih =>
    rw [List.cons_append, splitClose.eq_5 _ _ _ hopen hclose hclose', ih h]
    rfl

section Types

variable {N : TypeNames} {type r : List Token}

/-- A parenthesis before a type is seen to open one. -/
theorem opensType_of_types (h : N.Types type) :
    opensType N.isType (.punct .lparen :: type ++ r) = true := by
  obtain ⟨tok, rest, rfl, hstarts⟩ := N.starts h
  exact hstarts

theorem splitClose_of_types (h : N.Types type) :
    splitClose 0 (type ++ .punct .rparen :: r) = some (type, r) :=
  splitClose_of_matched (N.closed h) r

/-- A type in parentheses is a cast unless a brace follows. -/
theorem castType?_of_types (h : N.Types type) (hr : r.head? ≠ some (.punct .lbrace)) :
    castType? N.isType (.punct .lparen :: type ++ .punct .rparen :: r) = some (type, r) := by
  unfold castType?
  rw [opensType_of_types h, if_pos rfl]
  show (splitClose 0 (type ++ .punct .rparen :: r)).filter _ = _
  rw [splitClose_of_types h, Option.filter_some, if_pos (bne_iff_ne.mpr hr)]

/-- A type in parentheses before a brace is no cast. -/
theorem castType?_of_compound (h : N.Types type) :
    castType? N.isType (.punct .lparen :: type ++ .punct .rparen :: .punct .lbrace :: r)
      = none := by
  unfold castType?
  rw [opensType_of_types h, if_pos rfl]
  show (splitClose 0 (type ++ .punct .rparen :: .punct .lbrace :: r)).filter _ = _
  rw [splitClose_of_types h]
  rfl

theorem castType?_of_opensType {isType : String → Bool} {ts : List Token}
    (h : opensType isType ts = false) : castType? isType ts = none := by
  unfold castType?
  rw [h]
  rfl

end Types

/-- No phrase stands between the parentheses of a type. -/
theorem startsType_of_begins {isType : String → Bool} {P : Phrase} {tok : Token}
    (h : P.begins isType tok = true) : startsType isType tok = false := by
  cases tok with
  | word x => exact Bool.not_eq_true' _ ▸ h
  | number n => rfl
  | keyword k =>
    have hk := beq_iff_eq.mp (Bool.and_eq_true_iff.mp h).1
    rw [hk]
    rfl
  | punct p => rfl

/-- A primary phrase opens no type. -/
theorem Derives.opensType_eq_false {N : TypeNames} {w : List Token} {t : Tree}
    (h : Derives N .primary w t) (r : List Token) : opensType N.isType (w ++ r) = false := by
  cases h with
  | name => rfl
  | constant => rfl
  | parens inside =>
    obtain ⟨tok, rest, rfl, htok⟩ := inside.heads
    exact startsType_of_begins htok

/-! ## How phrases go on -/

/-- How loose a punctuator binds that stands behind a phrase. Those of the greatest rank go on
with nothing. -/
def Punct.rank : Punct → Nat
  | .lbrace => 0
  | .lbracket | .lparen | .dot | .arrow | .incr | .decr => 1
  | .star | .slash | .percent => 4
  | .plus | .minus => 5
  | .shl | .shr => 6
  | .lt | .gt | .le | .ge => 7
  | .eq | .ne => 8
  | .amp => 9
  | .caret => 10
  | .bar => 11
  | .andAnd => 12
  | .orOr => 13
  | .question => 14
  | .set | .starSet | .slashSet | .percentSet | .plusSet | .minusSet | .shlSet | .shrSet | .ampSet
  | .caretSet | .barSet => 15
  | .comma => 16
  | _ => 17

def Token.rank : Token → Nat
  | .punct p => p.rank
  | _ => 17

/-- How loose a phrase is. It goes on with the punctuators of its rank. -/
def Phrase.rank : Phrase → Nat
  | .primary => 0
  | .suffixed => 1
  | .unary => 3
  | .cast => 3
  | .binary k => 3 + k
  | .conditional => 14
  | .expression => 16
  | _ => 15

/-- The tokens do not go on with something tighter. -/
def Loose (rank : Nat) (r : List Token) : Prop :=
  ∀ tok ∈ r.head?, rank ≤ tok.rank

theorem Loose.mono {m n : Nat} {r : List Token} (h : Loose n r) (hle : m ≤ n) : Loose m r :=
  fun tok htok => Nat.le_trans hle (h tok htok)

theorem loose_nil (rank : Nat) : Loose rank [] :=
  fun _ htok => nomatch htok

/-- What begins with a loose punctuator is loose. -/
theorem loose_cons {rank : Nat} {p : Punct} (h : rank ≤ p.rank) (r : List Token) :
    Loose rank (.punct p :: r) :=
  fun _ htok => Option.some.inj htok ▸ h

/-- The operators of a level have its rank. -/
theorem Punct.rank_of_level {p : Punct} {k : Nat} (h : p.level? = some k) : p.rank = 4 + k := by
  cases p <;> first | cases h; rfl | cases h

theorem Punct.rank_of_isSet {p : Punct} (h : p.isSet = true) : p.rank = 15 := by
  cases p <;> first | rfl | cases h

theorem Punct.rank_of_isCount {p : Punct} (h : p.isCount = true) : p.rank = 1 := by
  cases p <;> first | rfl | cases h

/-- What is read behind a phrase that goes on to the left. -/
def Phrase.tail? : Phrase → Tree → Option Goal
  | .suffixed, t => some (.suffix t)
  | .binary (k + 1), t => some (.operands k t)
  | .expression, t => some (.rest t)
  | _, _ => none

/-- **How a phrase goes on**, once its tree is known: with what is read behind it, or not at
all. -/
def Continues (isType : String → Bool) (P : Phrase) (t : Tree) (r : List Token)
    (out : Tree × List Token) : Prop :=
  match P.tail? t with
  | some goal => Loose P.rank r ∧ Reads isType goal r out
  | none => Loose (P.rank + 1) r ∧ out = (t, r)

section Continues

variable {isType : String → Bool} {P : Phrase} {t : Tree} {r : List Token}
  {out : Tree × List Token}

/-- A phrase with suffixes ends before what is no suffix. -/
theorem readSuffix_of_loose (h : Loose 2 r) (read : Goal → Reader) :
    readSuffix read t r = some (t, r) := by
  cases r with
  | nil => rfl
  | cons tok rest =>
    have hrank := h tok rfl
    cases tok with
    | word x => rfl
    | keyword k => rfl
    | number n => rfl
    | punct p => cases p <;> first | rfl | (exact absurd hrank (by decide))

/-- Operands end before an operator of a looser level. -/
theorem readOperands_of_loose {k : Nat} (h : Loose (5 + k) r) (read : Goal → Reader) :
    readOperands read k t r = some (t, r) := by
  cases r with
  | nil => rfl
  | cons tok rest =>
    have hrank := h tok rfl
    cases tok with
    | word x => rfl
    | keyword k => rfl
    | number n => rfl
    | punct p =>
      refine if_neg fun hlevel => ?_
      have heq : (Token.punct p).rank = 4 + k := Punct.rank_of_level hlevel
      omega

theorem readCond_of_loose (h : Loose 15 r) (read : Goal → Reader) :
    readCond read t r = some (t, r) := by
  unfold readCond
  split
  · exact absurd (h _ rfl) (by decide)
  · rfl

/-- A phrase that could be assigned to ends where nothing is assigned. -/
theorem readAssign_of_loose (h : Loose 16 r) (read : Goal → Reader) :
    readAssign read t r = some (t, r) := by
  cases r with
  | nil => rfl
  | cons tok rest =>
    have hrank := h tok rfl
    cases tok with
    | word x => rfl
    | keyword k => rfl
    | number n => rfl
    | punct p =>
      refine if_neg fun hset => ?_
      have heq : (Token.punct p).rank = 15 := Punct.rank_of_isSet hset
      omega

theorem readRest_of_loose (h : Loose 17 r) (read : Goal → Reader) :
    readRest read t r = some (t, r) := by
  unfold readRest
  split
  · exact absurd (h _ rfl) (by decide)
  · rfl

/-- **A phrase ends before what is looser than it.** -/
theorem continues_stop (P : Phrase) (t : Tree) (h : Loose (P.rank + 1) r) :
    Continues isType P t r (t, r) := by
  have hloose := h.mono (Nat.le_succ _)
  cases P with
  | suffixed =>
    exact ⟨hloose, .of_step (.of_forall fun n => readSuffix_of_loose h _)⟩
  | binary k =>
    cases k with
    | zero => exact ⟨h, rfl⟩
    | succ k =>
      refine ⟨hloose, .of_step (.of_forall fun n => readOperands_of_loose (h.mono ?_) _)⟩
      show 5 + k ≤ 3 + (k + 1) + 1
      omega
  | expression =>
    exact ⟨hloose, .of_step (.of_forall fun n => readRest_of_loose h _)⟩
  | primary => exact ⟨h, rfl⟩
  | unary => exact ⟨h, rfl⟩
  | cast => exact ⟨h, rfl⟩
  | conditional => exact ⟨h, rfl⟩
  | assignment => exact ⟨h, rfl⟩
  | initializer => exact ⟨h, rfl⟩
  | element => exact ⟨h, rfl⟩
  | designated => exact ⟨h, rfl⟩
  | designating => exact ⟨h, rfl⟩

end Continues

/-- **A phrase that is tighter than a cast begins with none.** -/
theorem Derives.castType?_eq_none {N : TypeNames} {P : Phrase} {w : List Token} {t : Tree}
    (h : Derives N P w t) (hP : P.isPlain = true ∨ P = .unary) (r : List Token) :
    castType? N.isType (w ++ r) = none := by
  induction h generalizing r with
  | name => rfl
  | constant => rfl
  | parens inside => exact castType?_of_opensType (inside.parens.opensType_eq_false r)
  | ofPrimary h => exact castType?_of_opensType (h.opensType_eq_false r)
  | index _ _ ih =>
    rw [List.append_assoc, List.append_assoc]
    exact ih (by decide) _
  | call _ _ ih =>
    rw [List.append_assoc, List.append_assoc]
    exact ih (by decide) _
  | member _ ih =>
    rw [List.append_assoc]
    exact ih (by decide) _
  | arrow _ ih =>
    rw [List.append_assoc]
    exact ih (by decide) _
  | counted _ _ ih =>
    rw [List.append_assoc]
    exact ih (by decide) _
  | compound named =>
    simp only [List.append_assoc, List.cons_append]
    exact castType?_of_compound named
  | ofSuffixed _ ih => exact ih (by decide) r
  | @counting _ _ op count => cases op <;> first | rfl | cases count
  | @unary _ _ op operator => cases op <;> first | rfl | cases operator
  | sizeOf => rfl
  | sizeOfType => rfl
  | _ => exact absurd hP (by rintro (h | h) <;> cases h)

/-! ## What the grammar derives is read -/

/-- **A phrase is read**, however it goes on. -/
def IsRead (N : TypeNames) (P : Phrase) (w : List Token) (t : Tree) : Prop :=
  ∀ r out, Continues N.isType P t r out → Reads N.isType (.phrase P) (w ++ r) out

section IsRead

variable {N : TypeNames} {w r : List Token} {t : Tree} {out : Tree × List Token}

/-- A phrase is read up to what is looser than it. -/
theorem IsRead.stop {P : Phrase} (h : IsRead N P w t) (hr : Loose (P.rank + 1) r) :
    Reads N.isType (.phrase P) (w ++ r) (t, r) :=
  h r _ (continues_stop P t hr)

/-- A phrase is read up to a punctuator that is looser than it. -/
theorem IsRead.stop_at {P : Phrase} (h : IsRead N P w t) (p : Punct) (hp : P.rank + 1 ≤ p.rank)
    (r : List Token) :
    Reads N.isType (.phrase P) (w ++ .punct p :: r) (t, .punct p :: r) :=
  h.stop (loose_cons hp r)

/-- The arguments of a call are read. -/
theorem reads_args {f : Tree} (done : List Tree) {args : List (List Token × Tree)}
    (nonempty : args ≠ []) (inside : ∀ a ∈ args, IsRead N .assignment a.1 a.2)
    (h : Reads N.isType (.suffix (.call f (done ++ args.map Prod.snd))) r out) :
    Reads N.isType (.args f done) (commas (args.map Prod.fst) ++ .punct .rparen :: r) out := by
  -- On the arguments that are left: `done` holds the trees of those before them.
  induction args generalizing done with
  | nil => exact absurd rfl nonempty
  | cons a rest ih =>
    refine .of_step ?_
    cases rest with
    | nil =>
      have ha := (inside a List.mem_cons_self).stop_at .rparen (by decide) r
      filter_upwards [ha, h] with n ha h
      simpa [step, ha, readArg] using h
    | cons b rest =>
      have ha := (inside a List.mem_cons_self).stop_at .comma (by decide)
        (commas ((b :: rest).map Prod.fst) ++ .punct .rparen :: r)
      have hrest := ih (done ++ [a.2]) (List.cons_ne_nil b rest)
        (fun c hc => inside c (List.mem_cons_of_mem a hc)) (by simpa using h)
      filter_upwards [ha, hrest] with n ha hrest
      rw [List.map_cons] at ha hrest
      simpa [step, ha, readArg] using hrest

theorem readInit_close {read : Goal → Reader} {type : Option (List Token)} {done : List Tree}
    {last : List Token} (ends : last = [] ∨ last = [.punct .comma]) :
    readInit read type done (last ++ .punct .rbrace :: r) = readClosed read type done r := by
  rcases ends with rfl | rfl
  · rfl
  · rfl

theorem readInit_comma {read : Goal → Reader} {type : Option (List Token)} {done : List Tree}
    {ts : List Token} (h : Heads N.isType .element ts) :
    readInit read type done (.punct .comma :: ts) = read (.inits type done) ts := by
  obtain ⟨tok, rest, rfl, htok⟩ := h
  cases tok with
  | word x => rfl
  | keyword k => rfl
  | number n => rfl
  | punct p => cases p <;> first | rfl | exact absurd htok Bool.false_ne_true

theorem Heads.commas {isType : String → Bool} {P : Phrase} (h : Heads isType P w)
    (ws : List (List Token)) : Heads isType P (commas (w :: ws)) := by
  cases ws with
  | nil => simpa using h
  | cons v ws => simpa using h.append (.punct .comma :: C.commas (v :: ws))

/-- The initial values between braces are read. -/
theorem reads_inits (type : Option (List Token)) (done : List Tree)
    {inits : List (List Token × Tree)} {last : List Token} (nonempty : inits ≠ [])
    (heads : ∀ a ∈ inits, Heads N.isType .element a.1)
    (inside : ∀ a ∈ inits, IsRead N .element a.1 a.2)
    (ends : last = [] ∨ last = [.punct .comma])
    (h : ∀ᶠ n in atTop,
      readClosed (parse N.isType n) type (done ++ inits.map Prod.snd) r = some out) :
    Reads N.isType (.inits type done)
      (commas (inits.map Prod.fst) ++ (last ++ .punct .rbrace :: r)) out := by
  induction inits generalizing done with
  | nil => exact absurd rfl nonempty
  | cons a rest ih =>
    refine .of_step ?_
    cases rest with
    | nil =>
      have hlast : Loose 16 (last ++ .punct .rbrace :: r) := by
        rcases ends with rfl | rfl
        · exact loose_cons (by decide) r
        · exact loose_cons (by decide) (.punct .rbrace :: r)
      have ha := (inside a List.mem_cons_self).stop hlast
      filter_upwards [ha, h] with n ha h
      simpa [step, ha, readInit_close ends] using h
    | cons b rest =>
      have ha := (inside a List.mem_cons_self).stop_at .comma (by decide)
        (commas ((b :: rest).map Prod.fst) ++ (last ++ .punct .rbrace :: r))
      have hrest := ih (done ++ [a.2]) (List.cons_ne_nil b rest)
        (fun c hc => heads c (List.mem_cons_of_mem a hc))
        (fun c hc => inside c (List.mem_cons_of_mem a hc)) (by simpa using h)
      have hhead := (heads b (List.mem_cons_of_mem a List.mem_cons_self)).commas
        (rest.map Prod.fst)
      filter_upwards [ha, hrest] with n ha hrest
      rw [List.map_cons] at ha hrest
      simpa [step, ha, readInit_comma (hhead.append _)] using hrest

end IsRead

/-! ### Production by production -/

section Productions

variable {N : TypeNames} {w v u type : List Token} {t t' t'' : Tree}

theorem isRead_name {x : String} (plain : N.isType x = false) :
    IsRead N .primary [.word x] (.name x) := by
  rintro r out ⟨-, rfl⟩
  exact .of_step (.of_forall fun n => by simp [step, readPrimary, plain])

theorem isRead_constant (n : Nat) : IsRead N .primary [.number n] (.constant n) := by
  rintro r out ⟨-, rfl⟩
  exact .of_step (.of_forall fun n => rfl)

theorem IsRead.parens (h : IsRead N .expression w t) :
    IsRead N .primary (.punct .lparen :: w ++ [.punct .rparen]) t := by
  rintro r out ⟨-, rfl⟩
  refine .of_step ?_
  filter_upwards [h.stop_at .rparen (by decide) r] with n hn
  simp [step, readPrimary, expect, hn]

/-- A primary phrase is read with no suffix behind it, if it does not open a type. -/
theorem IsRead.ofPrimary (h : IsRead N .primary w t)
    (plain : ∀ r, opensType N.isType (w ++ r) = false) : IsRead N .suffixed w t := by
  rintro r out ⟨hloose, hsuffix⟩
  refine .of_step ?_
  filter_upwards [h.stop hloose, hsuffix] with n hn hsuffix
  simp [step, readSuffixed, plain, hn, hsuffix]

/-- An index is read as a suffix of what stands before it. -/
theorem IsRead.index (h : IsRead N .suffixed w t) (h' : IsRead N .expression v t') :
    IsRead N .suffixed (w ++ .punct .lbracket :: v ++ [.punct .rbracket]) (.index t t') := by
  rintro r out ⟨hloose, hsuffix⟩
  rw [List.append_assoc, List.append_assoc]
  refine h _ out ⟨loose_cons (p := .lbracket) (by decide) _, .of_step ?_⟩
  filter_upwards [h'.stop_at .rbracket (by decide) r, hsuffix] with n hn hsuffix
  simp [step, readSuffix, expect, hn, hsuffix]

theorem readSuffix_args {read : Goal → Reader} {ts : List Token}
    (h : Heads N.isType .assignment ts) :
    readSuffix read t (.punct .lparen :: ts) = read (.args t []) ts := by
  obtain ⟨tok, rest, rfl, htok⟩ := h
  cases tok with
  | word x => rfl
  | keyword k => rfl
  | number n => rfl
  | punct p => cases p <;> first | rfl | exact absurd htok Bool.false_ne_true

/-- **A call is read as a suffix**, with its arguments one by one. -/
theorem IsRead.call {args : List (List Token × Tree)} (h : IsRead N .suffixed w t)
    (heads : ∀ a ∈ args, Heads N.isType .assignment a.1)
    (inside : ∀ a ∈ args, IsRead N .assignment a.1 a.2) :
    IsRead N .suffixed (w ++ .punct .lparen :: commas (args.map Prod.fst) ++ [.punct .rparen])
      (.call t (args.map Prod.snd)) := by
  rintro r out ⟨hloose, hsuffix⟩
  rw [List.append_assoc, List.append_assoc]
  refine h _ out ⟨loose_cons (p := .lparen) (by decide) _, .of_step ?_⟩
  cases args with
  | nil => exact hsuffix
  | cons a rest =>
    have hhead := (heads a List.mem_cons_self).commas (rest.map Prod.fst)
    filter_upwards [reads_args [] (List.cons_ne_nil a rest) inside hsuffix] with n hn
    exact (readSuffix_args (hhead.append _)).trans hn

theorem IsRead.member (h : IsRead N .suffixed w t) (x : String) :
    IsRead N .suffixed (w ++ [.punct .dot, .word x]) (.member t x) := by
  rintro r out ⟨hloose, hsuffix⟩
  rw [List.append_assoc]
  exact h _ out ⟨loose_cons (p := .dot) (by decide) _, .of_step hsuffix⟩

theorem IsRead.arrow (h : IsRead N .suffixed w t) (x : String) :
    IsRead N .suffixed (w ++ [.punct .arrow, .word x]) (.arrow t x) := by
  rintro r out ⟨hloose, hsuffix⟩
  rw [List.append_assoc]
  exact h _ out ⟨loose_cons (p := .arrow) (by decide) _, .of_step hsuffix⟩

theorem IsRead.counted {op : Punct} (h : IsRead N .suffixed w t) (count : op.isCount = true) :
    IsRead N .suffixed (w ++ [.punct op]) (.counted t op) := by
  rintro r out ⟨hloose, hsuffix⟩
  rw [List.append_assoc]
  refine h _ out ⟨loose_cons (p := op) (Nat.le_of_eq (Punct.rank_of_isCount count).symm) _,
    .of_step ?_⟩
  cases op <;> first | exact hsuffix | cases count

/-- **A compound literal is read as one**: the type in its parentheses is found first, and the brace
behind it. -/
theorem isRead_compound {inits : List (List Token × Tree)} {last : List Token}
    (named : N.Types type) (nonempty : inits ≠ [])
    (heads : ∀ a ∈ inits, Heads N.isType .element a.1)
    (inside : ∀ a ∈ inits, IsRead N .element a.1 a.2)
    (ends : last = [] ∨ last = [.punct .comma]) :
    IsRead N .suffixed (.punct .lparen :: type ++ .punct .rparen :: .punct .lbrace
      :: commas (inits.map Prod.fst) ++ last ++ [.punct .rbrace])
      (.compound type (inits.map Prod.snd)) := by
  rintro r out ⟨hloose, hsuffix⟩
  refine .of_step ?_
  filter_upwards [reads_inits (some type) [] nonempty heads inside ends hsuffix] with n hn
  simp only [List.append_assoc, List.cons_append, List.nil_append]
  show readSuffixed N.isType (parse N.isType n) (.punct .lparen :: type ++ _) = some out
  rw [readSuffixed, opensType_of_types named, if_pos rfl]
  show (splitClose 0 (type ++ _)).bind _ = some out
  rw [splitClose_of_types named]
  exact hn

theorem readUnary_plain {read : Goal → Reader} {ts : List Token}
    (h : Heads N.isType .suffixed ts) :
    readUnary N.isType read ts = read (.phrase .suffixed) ts := by
  obtain ⟨tok, rest, rfl, htok⟩ := h
  cases tok with
  | word x => rfl
  | keyword k => exact absurd (Bool.and_eq_true_iff.mp htok).2 Bool.false_ne_true
  | number n => rfl
  | punct p => cases p <;> first | rfl | exact absurd htok Bool.false_ne_true

/-- What begins like a phrase with suffixes is no operation on one. -/
theorem IsRead.ofSuffixed (h : IsRead N .suffixed w t) (heads : Heads N.isType .suffixed w) :
    IsRead N .unary w t := by
  rintro r out ⟨hloose, rfl⟩
  refine .of_step ?_
  filter_upwards [h.stop (hloose.mono (by decide))] with n hn
  exact (readUnary_plain (heads.append r)).trans hn

theorem IsRead.counting {op : Punct} (h : IsRead N .unary w t) (count : op.isCount = true) :
    IsRead N .unary (.punct op :: w) (.unary op t) := by
  rintro r out ⟨hloose, rfl⟩
  refine .of_step ?_
  filter_upwards [h.stop hloose] with n hn
  simp [step, readUnary, count, wrap, hn]

theorem IsRead.unary {op : Punct} (h : IsRead N .cast w t) (operator : op.isUnary = true) :
    IsRead N .unary (.punct op :: w) (.unary op t) := by
  have hcount : op.isCount = false := by
    cases op <;> first | rfl | cases operator
  rintro r out ⟨hloose, rfl⟩
  refine .of_step ?_
  filter_upwards [h.stop hloose] with n hn
  simp [step, readUnary, hcount, operator, wrap, hn]

theorem IsRead.sizeOf (h : IsRead N .unary w t)
    (plain : ∀ r, castType? N.isType (w ++ r) = none) :
    IsRead N .unary (.keyword "sizeof" :: w) (.sizeOf t) := by
  rintro r out ⟨hloose, rfl⟩
  refine .of_step ?_
  filter_upwards [h.stop hloose] with n hn
  simp [step, readUnary, plain, wrap, hn]

theorem Loose.head?_ne {rank : Nat} {r : List Token} {p : Punct} (h : Loose rank r)
    (hp : p.rank < rank) : r.head? ≠ some (.punct p) :=
  fun heq => Nat.not_lt.mpr (h _ heq) hp

theorem isRead_sizeOfType (named : N.Types type) :
    IsRead N .unary (.keyword "sizeof" :: .punct .lparen :: type ++ [.punct .rparen])
      (.sizeOfType type) := by
  rintro r out ⟨hloose, rfl⟩
  refine .of_step (.of_forall fun n => ?_)
  have hcast := castType?_of_types named (hloose.head?_ne (p := .lbrace) (by decide))
  rw [List.append_assoc]
  show readUnary N.isType _ (.keyword "sizeof" :: (.punct .lparen :: type ++ .punct .rparen :: r))
    = _
  rw [readUnary, if_pos rfl, hcast]

/-- A phrase that opens no cast is read without one. -/
theorem IsRead.ofUnary (h : IsRead N .unary w t)
    (plain : ∀ r, castType? N.isType (w ++ r) = none) : IsRead N .cast w t := by
  rintro r out ⟨hloose, rfl⟩
  refine .of_step ?_
  filter_upwards [h.stop hloose] with n hn
  simp [step, readCast, plain, hn]

/-- **A cast is read as one** since no brace follows its type. -/
theorem IsRead.cast (h : IsRead N .cast w t) (named : N.Types type)
    (heads : Heads N.isType .cast w) :
    IsRead N .cast (.punct .lparen :: type ++ .punct .rparen :: w) (.cast type t) := by
  rintro r out ⟨hloose, rfl⟩
  have hhead : (w ++ r).head? ≠ some (.punct .lbrace) := by
    obtain ⟨tok, rest, rfl, htok⟩ := heads
    intro heq
    obtain rfl := Option.some.inj heq
    exact absurd htok Bool.false_ne_true
  refine .of_step ?_
  filter_upwards [h.stop hloose] with n hn
  rw [List.append_assoc]
  show readCast N.isType _ (.punct .lparen :: type ++ .punct .rparen :: (w ++ r)) = _
  rw [readCast, castType?_of_types named hhead]
  simp [wrap, hn]

theorem IsRead.ofCast (h : IsRead N .cast w t) : IsRead N (.binary 0) w t := by
  rintro r out ⟨hloose, rfl⟩
  exact .of_step (h.stop hloose)

/-- A phrase of a level is read at the next looser one, and no operator of it follows. -/
theorem IsRead.looser {k : Nat} (h : IsRead N (.binary k) w t) :
    IsRead N (.binary (k + 1)) w t := by
  rintro r out ⟨hloose, hrest⟩
  refine .of_step ?_
  filter_upwards [h.stop hloose, hrest] with n hn hrest
  simp [step, hn, hrest]

/-- **An operation is read as one, grouped to the left.** -/
theorem IsRead.binary {k : Nat} {op : Punct} (h : IsRead N (.binary (k + 1)) w t)
    (operator : op.level? = some k) (h' : IsRead N (.binary k) v t') :
    IsRead N (.binary (k + 1)) (w ++ .punct op :: v) (.binary op t t') := by
  have hrank : Phrase.rank (.binary (k + 1)) ≤ op.rank := by
    rw [Punct.rank_of_level operator]
    show 3 + (k + 1) ≤ 4 + k
    omega
  rintro r out ⟨hloose, hrest⟩
  rw [List.append_assoc]
  -- Operations group to the left: the first operand goes on with this operator, and what comes
  -- next goes on with the operation.
  refine h _ out ⟨loose_cons hrank _, .of_step ?_⟩
  filter_upwards [h'.stop hloose, hrest] with n hn hrest
  simp [step, readOperands, operator, hn, hrest]

theorem IsRead.ofBinary (h : IsRead N (.binary Punct.levels) w t) : IsRead N .conditional w t := by
  rintro r out ⟨hloose, rfl⟩
  refine .of_step ?_
  filter_upwards [h.stop (hloose.mono (by decide))] with n hn
  simp [step, hn, readCond_of_loose hloose]

/-- A choice is read by its two marks. -/
theorem IsRead.conditional (h : IsRead N (.binary Punct.levels) w t)
    (h' : IsRead N .expression v t') (h'' : IsRead N .conditional u t'') :
    IsRead N .conditional (w ++ .punct .question :: v ++ .punct .colon :: u)
      (.conditional t t' t'') := by
  rintro r out ⟨hloose, rfl⟩
  refine .of_step ?_
  filter_upwards [h.stop_at .question (by decide) (v ++ .punct .colon :: (u ++ r)),
    h'.stop_at .colon (by decide) (u ++ r), h''.stop hloose] with n hn hn' hn''
  simp [step, hn, readCond, hn', expect, hn'', wrap]

theorem IsRead.ofConditional (h : IsRead N .conditional w t) : IsRead N .assignment w t := by
  rintro r out ⟨hloose, rfl⟩
  refine .of_step ?_
  filter_upwards [h.stop (hloose.mono (by decide))] with n hn
  simp [step, hn, readAssign_of_loose hloose]

/-- What is read as a cast is read as a condition. -/
theorem IsRead.conditional_of_cast (h : IsRead N .cast w t) : IsRead N .conditional w t := by
  have hbinary : ∀ k, IsRead N (.binary k) w t := by
    intro k
    induction k with
    | zero => exact h.ofCast
    | succ k ih => exact ih.looser
  exact (hbinary Punct.levels).ofBinary

theorem IsRead.assign {op : Punct} (h : IsRead N .conditional w t) (operator : op.isSet = true)
    (h' : IsRead N .assignment v t') :
    IsRead N .assignment (w ++ .punct op :: v) (.assign op t t') := by
  rintro r out ⟨hloose, rfl⟩
  refine .of_step ?_
  filter_upwards [h.stop_at op (Nat.le_of_eq (Punct.rank_of_isSet operator).symm) (v ++ r),
    h'.stop hloose] with n hn hn'
  simp [step, hn, readAssign, operator, hn', wrap]

theorem IsRead.ofAssignment (h : IsRead N .assignment w t) : IsRead N .expression w t := by
  rintro r out ⟨hloose, hrest⟩
  refine .of_step ?_
  filter_upwards [h.stop hloose, hrest] with n hn hrest
  simp [step, hn, hrest]

theorem IsRead.sequence (h : IsRead N .expression w t) (h' : IsRead N .assignment v t') :
    IsRead N .expression (w ++ .punct .comma :: v) (.sequence t t') := by
  rintro r out ⟨hloose, hrest⟩
  rw [List.append_assoc]
  refine h _ out ⟨loose_cons (p := .comma) (by decide) _, .of_step ?_⟩
  filter_upwards [h'.stop hloose, hrest] with n hn hrest
  simp [step, readRest, hn, hrest]

/-- **A phrase that adds nothing** to the one it consists of: where it begins like that one, that
one is read in its place. -/
theorem IsRead.adding_nothing {P Q : Phrase} (h : IsRead N P w t) (heads : Heads N.isType P w)
    (rank : Q.rank = P.rank) (alone : Q.tail? t = none)
    (instead : ∀ read tok rest, P.begins N.isType tok = true →
      step N.isType read (.phrase Q) (tok :: rest) = read (.phrase P) (tok :: rest)) :
    IsRead N Q w t := by
  obtain ⟨tok, rest, rfl, htok⟩ := heads
  intro r out hout
  rw [Continues, alone, rank] at hout
  obtain ⟨hloose, rfl⟩ := hout
  refine .of_step ?_
  filter_upwards [h.stop hloose] with n hn
  exact (instead _ tok _ htok).trans hn

/-- A value as an initializer. -/
theorem IsRead.value (h : IsRead N .assignment w t) (heads : Heads N.isType .assignment w) :
    IsRead N .initializer w t := by
  refine h.adding_nothing heads rfl rfl fun read tok rest htok => ?_
  rw [step]
  rintro r ⟨⟩
  exact Bool.false_ne_true htok

theorem isRead_braces {inits : List (List Token × Tree)} {last : List Token}
    (nonempty : inits ≠ []) (heads : ∀ a ∈ inits, Heads N.isType .element a.1)
    (inside : ∀ a ∈ inits, IsRead N .element a.1 a.2)
    (ends : last = [] ∨ last = [.punct .comma]) :
    IsRead N .initializer
      (.punct .lbrace :: commas (inits.map Prod.fst) ++ last ++ [.punct .rbrace])
      (.braces (inits.map Prod.snd)) := by
  rintro r out ⟨hloose, rfl⟩
  have hinits := reads_inits none [] nonempty heads inside ends
    (.of_forall fun n => rfl) (r := r)
  refine .of_step ?_
  filter_upwards [hinits] with n hn
  simp only [List.append_assoc, List.cons_append, List.nil_append]
  exact hn

/-- An initializer as an element without designators. -/
theorem IsRead.ofInitializer (h : IsRead N .initializer w t)
    (heads : Heads N.isType .initializer w) : IsRead N .element w t := by
  refine h.adding_nothing heads rfl rfl fun read tok rest htok => ?_
  rw [step]
  · rintro r ⟨⟩
    exact Bool.false_ne_true htok
  · rintro r ⟨⟩
    exact Bool.false_ne_true htok

theorem IsRead.ofDesignated (h : IsRead N .designated w t)
    (heads : ∃ rest, w = .punct .lbracket :: rest ∨ w = .punct .dot :: rest) :
    IsRead N .element w t := by
  rintro r out ⟨hloose, rfl⟩
  obtain ⟨rest, rfl | rfl⟩ := heads
  · exact .of_step (h.stop hloose)
  · exact .of_step (h.stop hloose)

theorem IsRead.atIndex (h : IsRead N .conditional v t') (h' : IsRead N .designating w t) :
    IsRead N .designated (.punct .lbracket :: v ++ .punct .rbracket :: w) (.atIndex t' t) := by
  rintro r out ⟨hloose, rfl⟩
  refine .of_step ?_
  filter_upwards [h.stop_at .rbracket (by decide) (w ++ r), h'.stop hloose] with n hn hn'
  simp [step, readDesignated, hn, expect, wrap, hn']

theorem IsRead.atMember (h : IsRead N .designating w t) (x : String) :
    IsRead N .designated (.punct .dot :: .word x :: w) (.atMember x t) := by
  rintro r out ⟨hloose, rfl⟩
  refine .of_step ?_
  filter_upwards [h.stop hloose] with n hn
  simp [step, readDesignated, wrap, hn]

/-- A designator behind another one. -/
theorem IsRead.further (h : IsRead N .designated w t) (heads : Heads N.isType .designated w) :
    IsRead N .designating w t := by
  refine h.adding_nothing heads rfl rfl fun read tok rest htok => ?_
  rw [step]
  rintro r ⟨⟩
  exact Bool.false_ne_true htok

theorem IsRead.equals (h : IsRead N .initializer w t) :
    IsRead N .designating (.punct .set :: w) t := by
  rintro r out ⟨hloose, rfl⟩
  exact .of_step (h.stop hloose)

end Productions

/-- **What the grammar derives is read**, with the same tree. -/
theorem Derives.reads {N : TypeNames} {P : Phrase} {w : List Token} {t : Tree}
    (h : Derives N P w t) : IsRead N P w t := by
  induction h with
  | name plain => exact isRead_name plain
  | constant => exact isRead_constant _
  | parens _ ih => exact ih.parens
  | ofPrimary h ih => exact ih.ofPrimary h.opensType_eq_false
  | index _ _ ih ih' => exact ih.index ih'
  | call _ inside ih ih' => exact ih.call (fun a ha => (inside a ha).heads) ih'
  | member _ ih => exact ih.member _
  | arrow _ ih => exact ih.arrow _
  | counted _ count ih => exact ih.counted count
  | compound named nonempty inside ends ih =>
    exact isRead_compound named nonempty (fun a ha => (inside a ha).heads) ih ends
  | ofSuffixed h ih => exact ih.ofSuffixed h.heads
  | counting count _ ih => exact ih.counting count
  | unary operator _ ih => exact ih.unary operator
  | sizeOf h ih => exact ih.sizeOf (h.castType?_eq_none (Or.inr rfl))
  | sizeOfType named => exact isRead_sizeOfType named
  | ofUnary h ih => exact ih.ofUnary (h.castType?_eq_none (Or.inr rfl))
  | cast named h ih => exact ih.cast named h.heads
  | ofCast _ ih => exact ih.ofCast
  | looser _ ih => exact ih.looser
  | binary _ operator _ ih ih' => exact ih.binary operator ih'
  | ofBinary _ ih => exact ih.ofBinary
  | conditional _ _ _ ih ih' ih'' => exact ih.conditional ih' ih''
  | ofConditional _ ih => exact ih.ofConditional
  | assign left operator _ ih ih' =>
    -- What is assigned to is a unary phrase, but the reader cannot know yet and reads a condition.
    have hcast := ih.ofUnary (left.castType?_eq_none (Or.inr rfl))
    exact hcast.conditional_of_cast.assign operator ih'
  | ofAssignment _ ih => exact ih.ofAssignment
  | sequence _ _ ih ih' => exact ih.sequence ih'
  | value h ih => exact ih.value h.heads
  | braces nonempty inside ends ih =>
    exact isRead_braces nonempty (fun a ha => (inside a ha).heads) ih ends
  | ofInitializer h ih => exact ih.ofInitializer h.heads
  | ofDesignated h ih =>
    refine ih.ofDesignated ?_
    cases h with
    | atIndex => exact ⟨_, Or.inl rfl⟩
    | atMember => exact ⟨_, Or.inr rfl⟩
  | atIndex _ _ ih ih' => exact ih.atIndex ih'
  | atMember _ ih => exact ih.atMember _
  | further h ih => exact ih.further h.heads
  | equals _ ih => exact ih.equals

/-- **The grammar is unambiguous**: a list of tokens has at most one tree. -/
theorem Derives.unique {N : TypeNames} {P : Phrase} {w : List Token} {t t' : Tree}
    (h : Derives N P w t) (h' : Derives N P w t') : t = t' := by
  -- The reader is a function, and it finds the tree of each derivation.
  have hread := h.reads.stop (loose_nil _)
  have hread' := h'.reads.stop (loose_nil _)
  exact congrArg Prod.fst (hread.unique hread')

end Heritage.C
