import Heritage.C.Name
import Mathlib.Data.List.TakeWhile

/-!
# The tokens of C text

C text is read as a list of tokens, each as long as it can be: words, of which
some are keywords, decimal numbers, and punctuators. `lex` reads the part of C
that expressions are written in here. Of other texts, those with comments,
strings, characters, other spellings of punctuators or numbers that are not
plain decimals, it reads none.

A text that is put together from others has their tokens one after the other,
as long as no token goes on in the next text. `Spells` says so of one text: it
gives its tokens whatever comes next, unless the next character is one that
would go on with its last token.
-/

namespace Heritage.C

/-! ## Tokens -/

/-- The punctuators of C, without those for which there is another spelling. -/
inductive Punct where
  | lparen | rparen | lbracket | rbracket | lbrace | rbrace
  | dot | arrow | incr | decr | amp | star | plus | minus | tilde | bang
  | slash | percent | shl | shr | lt | gt | le | ge | eq | ne | caret | bar | andAnd | orOr
  | question | colon | semicolon | ellipsis | comma
  | set | starSet | slashSet | percentSet | plusSet | minusSet | shlSet | shrSet | ampSet
  | caretSet | barSet
deriving DecidableEq

namespace Punct

/-- How a punctuator is written. -/
def text : Punct → String
  | .lparen => "(" | .rparen => ")" | .lbracket => "[" | .rbracket => "]"
  | .lbrace => "\x7b" | .rbrace => "\x7d"
  | .dot => "." | .arrow => "->" | .incr => "++" | .decr => "--"
  | .amp => "&" | .star => "*" | .plus => "+" | .minus => "-" | .tilde => "~" | .bang => "!"
  | .slash => "/" | .percent => "%" | .shl => "<<" | .shr => ">>"
  | .lt => "<" | .gt => ">" | .le => "<=" | .ge => ">=" | .eq => "==" | .ne => "!="
  | .caret => "^" | .bar => "|" | .andAnd => "&&" | .orOr => "||"
  | .question => "?" | .colon => ":" | .semicolon => ";" | .ellipsis => "..." | .comma => ","
  | .set => "=" | .starSet => "*=" | .slashSet => "/=" | .percentSet => "%=" | .plusSet => "+="
  | .minusSet => "-=" | .shlSet => "<<=" | .shrSet => ">>=" | .ampSet => "&="
  | .caretSet => "^=" | .barSet => "|="

/-- Every punctuator once, longer ones first. -/
def all : List Punct :=
  [.ellipsis, .shlSet, .shrSet, .arrow, .incr, .decr, .shl, .shr, .le, .ge, .eq, .ne, .andAnd,
    .orOr, .starSet, .slashSet, .percentSet, .plusSet, .minusSet, .ampSet, .caretSet, .barSet,
    .lparen, .rparen, .lbracket, .rbracket, .lbrace, .rbrace, .dot, .amp, .star, .plus, .minus,
    .tilde, .bang, .slash, .percent, .lt, .gt, .caret, .bar, .question, .colon, .semicolon,
    .comma, .set]

/-- What begins like a punctuator and is none: comments, and the other spellings
of punctuators. -/
def unread : List String :=
  ["/*", "//", "<:", ":>", "<%", "%>", "%:"]

/-- **The punctuator that a text begins with**, the longest there is. -/
def first? (cs : List Char) : Option Punct :=
  if unread.any fun s => s.toList.isPrefixOf cs then none
  else all.find? fun p => p.text.toList.isPrefixOf cs

end Punct

/-- A token of C. -/
inductive Token where
  | word (text : String)
  | keyword (text : String)
  | number (value : Nat)
  | punct (p : Punct)
deriving DecidableEq

/-- A character between tokens. -/
def isSpace (c : Char) : Bool :=
  c == ' ' || c == '\n' || c == '\t'

/-- A letter or an underscore. -/
def isWordStart (c : Char) : Bool :=
  c.isAlpha || c == '_'

/-- A character of a word: a letter, a digit or an underscore. -/
def isWordChar (c : Char) : Bool :=
  isWordStart c || c.isDigit

/-- A character that a number goes on with, whether or not it is then one that is
read here. -/
def isNumberChar (c : Char) : Bool :=
  isWordChar c || c == '.'

/-- **A word as C has them**: a letter or an underscore, and then letters, digits
and underscores. -/
def IsIdentifier (name : String) : Prop :=
  ∃ c cs, name.toList = c :: cs ∧ isWordStart c = true ∧ cs.all isWordChar = true

instance : DecidablePred IsIdentifier := fun name =>
  match h : name.toList with
  | [] => isFalse fun ⟨_, _, hname, _⟩ => List.cons_ne_nil _ _ (hname.symm.trans h)
  | c :: cs => decidable_of_iff (isWordStart c = true ∧ cs.all isWordChar = true)
      ⟨fun hc => ⟨c, cs, h, hc⟩, fun ⟨_, _, hname, hc⟩ => by
        obtain ⟨rfl, rfl⟩ := List.cons.inj (hname.symm.trans h)
        exact hc⟩

/-- The token of a word. -/
def Token.ofWord (word : String) : Token :=
  if word ∈ keywords then .keyword word else .word word

/-- The value of decimal digits. A number that starts with a zero is octal unless
it is zero. -/
def decimal? (cs : List Char) : Option Nat :=
  if cs.all Char.isDigit && (cs.head? != some '0' || cs.length == 1) then
    some (Nat.ofDigitChars 10 cs 0)
  else none

/-- **The tokens of a text.** -/
def lex : List Char → Option (List Token)
  | [] => some []
  | c :: cs =>
    if isSpace c then lex cs
    else if isWordStart c then
      (lex (cs.dropWhile isWordChar)).map
        (Token.ofWord (String.ofList (c :: cs.takeWhile isWordChar)) :: ·)
    else if c.isDigit then
      (decimal? (c :: cs.takeWhile isNumberChar)).bind fun n =>
        (lex (cs.dropWhile isNumberChar)).map (.number n :: ·)
    else if c == '.' && cs.head?.any Char.isDigit then none
    else
      (Punct.first? (c :: cs)).bind fun p =>
        (lex (cs.drop (p.text.toList.length - 1))).map (.punct p :: ·)
termination_by cs => cs.length
decreasing_by
  · exact Nat.lt_succ_self _
  · exact Nat.lt_succ_of_le (List.length_dropWhile_le ..)
  · exact Nat.lt_succ_of_le (List.length_dropWhile_le ..)
  · exact Nat.lt_succ_of_le (List.drop_sublist ..).length_le

/-! ## Texts that are put together -/

/-- **A text spells tokens**: it gives them whatever comes next, unless that goes
on with a character of `glue`. -/
def Spells (glue : Char → Bool) (text : String) (ts : List Token) : Prop :=
  ∀ rest : List Char, (∀ c ∈ rest.head?, glue c = false) →
    lex (text.toList ++ rest) = (lex rest).map (ts ++ ·)

/-- What a text spells are its tokens. -/
theorem Spells.lex_eq {glue : Char → Bool} {text : String} {ts : List Token}
    (h : Spells glue text ts) : lex text.toList = some ts := by
  have hlex := h [] (fun c hc => by cases hc)
  rw [List.append_nil] at hlex
  rw [hlex, lex, Option.map_some, List.append_nil]

theorem Spells.mono {glue glue' : Char → Bool} {text : String} {ts : List Token}
    (h : Spells glue text ts) (hglue : ∀ c, glue' c = false → glue c = false) :
    Spells glue' text ts :=
  fun rest hrest => h rest fun c hc => hglue c (hrest c hc)

/-- **Texts spell their tokens one after the other**, if the second does not go on
with the last token of the first. -/
theorem Spells.append {glue glue' : Char → Bool} {text text' : String} {ts ts' : List Token}
    {c : Char} (h : Spells glue text ts) (h' : Spells glue' text' ts')
    (hc : text'.toList.head? = some c) (hglue : glue c = false) :
    Spells glue' (text ++ text') (ts ++ ts') := by
  intro rest hrest
  have hhead : (text'.toList ++ rest).head? = some c := by
    rw [List.head?_append, hc, Option.some_or]
  have hfirst := h (text'.toList ++ rest) (by
    rw [hhead]
    intro d hd
    exact Option.some.inj hd ▸ hglue)
  rw [String.toList_append, List.append_assoc, hfirst, h' rest hrest, Option.map_map]
  refine congrArg (Option.map · (lex rest)) (funext fun us => ?_)
  exact (List.append_assoc ts ts' us).symm

/-! ## Single tokens -/

theorem isWordChar_of_isWordStart {c : Char} (h : isWordStart c = true) : isWordChar c = true :=
  Bool.or_eq_true_iff.mpr (Or.inl h)

theorem isSpace_of_isWordChar {c : Char} (h : isWordChar c = true) : isSpace c = false := by
  have hall : [' ', '\n', '\t'].all (!isWordChar ·) = true := by decide
  by_contra hblank
  rw [Bool.not_eq_false, isSpace, Bool.or_eq_true_iff, Bool.or_eq_true_iff, beq_iff_eq,
    beq_iff_eq, beq_iff_eq] at hblank
  have hc := List.all_eq_true.mp hall c (by simpa [or_assoc] using hblank)
  rw [h] at hc
  cases hc

theorem isWordStart_of_isDigit {c : Char} (h : c.isDigit = true) : isWordStart c = false := by
  obtain ⟨-, hle⟩ := Char.isDigit_iff_toNat.mp h
  by_contra hstart
  rw [Bool.not_eq_false, isWordStart, Bool.or_eq_true_iff, beq_iff_eq] at hstart
  rcases hstart with halpha | rfl
  · rcases Bool.or_eq_true_iff.mp halpha with hupper | hlower
    · have hge := UInt32.le_iff_toNat_le.mp (of_decide_eq_true hupper).1
      exact absurd (Nat.le_trans hge hle) (by decide)
    · have hge := UInt32.le_iff_toNat_le.mp (of_decide_eq_true (Bool.and_eq_true_iff.mp hlower).1)
      exact absurd (Nat.le_trans hge hle) (by decide)
  · revert hle
    decide

/-- Blanks separate tokens and are none. -/
theorem spells_blank : Spells (fun _ => false) " " [] := by
  intro rest _
  show lex (' ' :: rest) = _
  rw [lex, if_pos (by decide)]
  exact (Option.map_id_apply ..).symm

theorem takeWhile_append_stop {p : Char → Bool} {cs rest : List Char} (hcs : ∀ c ∈ cs, p c = true)
    (hrest : ∀ c ∈ rest.head?, p c = false) :
    (cs ++ rest).takeWhile p = cs ∧ (cs ++ rest).dropWhile p = rest := by
  have hstop : rest.takeWhile p = [] ∧ rest.dropWhile p = rest := by
    cases rest with
    | nil => exact ⟨rfl, rfl⟩
    | cons c rest =>
      have hc := hrest c rfl
      simp [hc]
  rw [List.takeWhile_append_of_pos hcs, List.dropWhile_append_of_pos hcs, hstop.1, hstop.2,
    List.append_nil]
  exact ⟨rfl, rfl⟩

/-- **A word spells itself.** -/
theorem spells_word {name : String} (h : IsIdentifier name) (hkey : name ∉ keywords) :
    Spells isWordChar name [.word name] := by
  obtain ⟨c, cs, hname, hc, hcs⟩ := h
  intro rest hrest
  obtain ⟨htake, hdrop⟩ := takeWhile_append_stop (List.all_eq_true.mp hcs) hrest
  have hblank : ¬ isSpace c = true := by
    rw [isSpace_of_isWordChar (isWordChar_of_isWordStart hc)]
    exact Bool.false_ne_true
  rw [hname, List.cons_append, lex, if_neg hblank, if_pos hc, htake, hdrop, ← hname,
    String.ofList_toList, Token.ofWord, if_neg hkey]
  rfl

/-- No decimal starts with a zero, except zero. -/
theorem head?_toDigits {n : Nat} (hn : 0 < n) : (Nat.toDigits 10 n).head? ≠ some '0' := by
  induction n using Nat.strongRecOn with
  | ind n ih =>
    rw [Nat.toDigits_eq_if (by omega)]
    split
    · intro heq
      exact Nat.ne_of_gt hn (Nat.digitChar_eq_zero.mp (Option.some.inj heq))
    · have hrest := ih (n / 10) (by omega) (by omega)
      obtain ⟨d, ds, hd⟩ := List.exists_cons_of_ne_nil
        (Nat.toDigits_ne_nil (b := 10) (n := n / 10))
      rw [hd] at hrest ⊢
      exact hrest

theorem decimal?_toDigits (n : Nat) : decimal? (Nat.toDigits 10 n) = some n := by
  have hall : (Nat.toDigits 10 n).all Char.isDigit = true :=
    List.all_eq_true.mpr fun c hc => Nat.isDigit_of_mem_toDigits (by omega) (by omega) hc
  have hzero : ((Nat.toDigits 10 n).head? != some '0' || (Nat.toDigits 10 n).length == 1)
      = true := by
    rcases Nat.eq_zero_or_pos n with rfl | hn
    · decide
    · rw [bne_iff_ne.mpr (head?_toDigits hn), Bool.true_or]
  rw [decimal?, hall, hzero, Nat.ofDigitChars_ten_toDigits]
  rfl

/-- **A number spells itself.** -/
theorem spells_number (n : Nat) : Spells isNumberChar (toString n) [.number n] := by
  intro rest hrest
  have htext : (toString n).toList = Nat.toDigits 10 n := by
    rw [Nat.toString_eq_ofList_toDigits, String.toList_ofList]
  obtain ⟨c, cs, hdigits⟩ := List.exists_cons_of_ne_nil (Nat.toDigits_ne_nil (b := 10) (n := n))
  have hdigit : ∀ d ∈ c :: cs, d.isDigit = true := by
    intro d hd
    exact Nat.isDigit_of_mem_toDigits (by omega) (by omega) (hdigits ▸ hd)
  have hword : ∀ d ∈ c :: cs, isWordChar d = true :=
    fun d hd => Bool.or_eq_true_iff.mpr (Or.inr (hdigit d hd))
  have hnumber : ∀ d ∈ cs, isNumberChar d = true :=
    fun d hd => Bool.or_eq_true_iff.mpr (Or.inl (hword d (List.mem_cons_of_mem c hd)))
  obtain ⟨htake, hdrop⟩ := takeWhile_append_stop hnumber hrest
  have hc := hdigit c List.mem_cons_self
  have hblank := isSpace_of_isWordChar (hword c List.mem_cons_self)
  rw [htext, hdigits, List.cons_append, lex, hblank, isWordStart_of_isDigit hc, if_pos hc, htake,
    hdrop, ← hdigits, decimal?_toDigits]
  rfl

namespace Punct

/-- The characters that a punctuator would go on with: those with which it begins
another one, and a digit behind a point. -/
def glue (p : Punct) (c : Char) : Bool :=
  (unread ++ all.map text).any (fun s => (p.text.toList ++ [c]).isPrefixOf s.toList)
    || p == .dot && c.isDigit

/-- The characters of punctuators, apart from the first ones. -/
def tails : List Char :=
  (unread ++ all.map text).flatMap fun s => s.toList.tail

theorem text_ne_nil (p : Punct) : p.text.toList ≠ [] := by
  cases p <;> decide

theorem mem_all (p : Punct) : p ∈ all := by
  cases p <;> decide

theorem glue_eq_false {p : Punct} {c : Char} (hc : c ∉ tails)
    (hdot : p = .dot → c.isDigit = false) : p.glue c = false := by
  rw [glue, Bool.or_eq_false_iff]
  constructor
  · rw [List.any_eq_false]
    intro s hs hprefix
    obtain ⟨d, ds, hd⟩ := List.exists_cons_of_ne_nil p.text_ne_nil
    rw [List.isPrefixOf_iff_prefix, hd] at hprefix
    obtain ⟨rest, hrest⟩ := hprefix
    refine hc (List.mem_flatMap.mpr ⟨s, hs, ?_⟩)
    rw [← hrest]
    exact List.mem_append_left rest (List.mem_append_right ds (List.mem_singleton.mpr rfl))
  · by_cases hp : p = .dot
    · rw [hdot hp, Bool.and_false]
    · rw [beq_eq_false_iff_ne.mpr hp, Bool.false_and]

/-- **A punctuator is the first one of its text**, unless it goes on. -/
theorem first?_append {p : Punct} {rest : List Char} (h : ∀ c ∈ rest.head?, p.glue c = false) :
    first? (p.text.toList ++ rest) = some p := by
  -- Another text that begins this one is part of the punctuator, or the punctuator goes on to it.
  have hpart : ∀ s ∈ unread ++ all.map text, s.toList <+: p.text.toList ++ rest →
      s.toList <+: p.text.toList := by
    intro s hs hbegins
    rcases List.prefix_or_prefix_of_prefix hbegins (List.prefix_append _ rest) with hle | ⟨d, hd⟩
    · exact hle
    · cases d with
      | nil => exact ⟨[], by rw [← hd, List.append_nil, List.append_nil]⟩
      | cons c d =>
        rw [← hd] at hbegins
        obtain ⟨e, he⟩ := (List.prefix_append_right_inj _).mp hbegins
        have hglue := h c (by rw [← he]; rfl)
        rw [glue, Bool.or_eq_false_iff, List.any_eq_false] at hglue
        refine absurd (List.isPrefixOf_iff_prefix.mpr ⟨d, ?_⟩) (hglue.1 s hs)
        rw [← hd, List.append_assoc]
        rfl
  have hunread : ∀ s ∈ unread, ¬ s.toList <+: p.text.toList := by
    cases p <;> decide
  have hlonger : all.Pairwise fun q p => ¬ q.text.toList <+: p.text.toList := by
    decide +kernel
  obtain ⟨before, behind, hall⟩ := List.append_of_mem p.mem_all
  rw [first?, if_neg]
  · refine List.find?_eq_some_iff_append.mpr
      ⟨List.isPrefixOf_iff_prefix.mpr (List.prefix_append _ rest), before, behind, hall, ?_⟩
    intro q hq
    rw [Bool.not_eq_true', ← Bool.not_eq_true, List.isPrefixOf_iff_prefix]
    rw [hall] at hlonger
    have hqall : q ∈ all := hall ▸ List.mem_append_left _ hq
    exact fun hbegins => (List.pairwise_append.mp hlonger).2.2 q hq p List.mem_cons_self
      (hpart q.text (List.mem_append_right _ (List.mem_map_of_mem hqall)) hbegins)
  · rw [List.any_eq_true]
    rintro ⟨s, hs, hbegins⟩
    exact hunread s hs
      (hpart s (List.mem_append_left _ hs) (List.isPrefixOf_iff_prefix.mp hbegins))

end Punct

/-- **A punctuator spells itself.** -/
theorem spells_punct (p : Punct) : Spells p.glue p.text [.punct p] := by
  intro rest hrest
  obtain ⟨c, cs, hc⟩ := List.exists_cons_of_ne_nil p.text_ne_nil
  have hfirst := Punct.first?_append hrest
  have hplain : isSpace c = false ∧ isWordStart c = false ∧ c.isDigit = false := by
    have hall : ∀ q : Punct, q.text.toList.head?.all
        (fun d => !isSpace d && !isWordStart d && !d.isDigit) = true := by
      intro q
      cases q <;> decide
    simpa [hc, and_assoc] using hall p
  have hpoint : (c == '.' && (cs ++ rest).head?.any Char.isDigit) = false := by
    have hall : ∀ q : Punct, q.text.toList.head? = some '.' →
        q = .dot ∧ q.text.toList.tail = [] ∨ q.text.toList.tail.head? = some '.' := by
      intro q
      cases q <;> decide
    by_cases hdot : c = '.'
    · rcases hall p (by rw [hc, hdot]; rfl) with ⟨rfl, htail⟩ | htail
      · rw [hc, List.tail_cons] at htail
        cases rest with
        | nil => rw [htail, List.append_nil, List.head?_nil, Option.any_none, Bool.and_false]
        | cons d rest =>
          have hd := (Bool.or_eq_false_iff.mp (hrest d rfl)).2
          rw [htail, hdot]
          exact hd
      · rw [hc, List.tail_cons] at htail
        rw [List.head?_append, htail, hdot]
        rfl
    · rw [beq_eq_false_iff_ne.mpr hdot, Bool.false_and]
  rw [hc, List.cons_append] at hfirst
  rw [hc, List.cons_append, lex, hplain.1, hplain.2.1, hplain.2.2, hpoint, hfirst]
  show (lex (List.drop (p.text.toList.length - 1) (cs ++ rest))).map _ = _
  rw [hc, List.length_cons, Nat.add_sub_cancel, List.drop_left]
  rfl

end Heritage.C
