import Heritage.C.Stmt
import Heritage.Proofs.Typing

/-!
# The names in C text

C text is written as a string, in which the name of a variable is a word among
others. Here the same text is written in pieces, of which those that are the
name of a variable are marked with it. Put together the pieces give the text
that is written (`Site.render_marked`), and the marks say which variables it
names, and in which order. For an expression of which nothing is wrong these are
the variables that its own names denote (`Site.names_marked`): none is left out
and none is added on the way to C.

What is written around a name – the receiver of a field or of a call, the names
of functions and structs – is plain text.
-/

namespace Heritage.C

/-- How a variable of a function is spelled. -/
def spelling (t : SymbolTable) (v : VarId) : String :=
  match (t.varAt v).kind with
  | .receiver => receiver
  | _ => ident (t.varAt v).name

theorem spelling_of_ne {t : SymbolTable} {v : VarId} (h : (t.varAt v).kind ≠ .receiver) :
    spelling t v = ident (t.varAt v).name := by
  unfold spelling
  cases hk : (t.varAt v).kind with
  | receiver => exact absurd hk h
  | field => rfl
  | parameter => rfl
  | localVar => rfl

theorem spelling_receiver {t : SymbolTable} {v : VarId} (h : (t.varAt v).kind = .receiver) :
    spelling t v = receiver := by
  unfold spelling
  rw [h]

/-- A piece of C text: plain text, or the name of a variable. -/
inductive Piece where
  | text (s : String)
  | name (v : VarId)
deriving DecidableEq

/-- The text of a piece. -/
def Piece.render (t : SymbolTable) : Piece → String
  | .text s => s
  | .name v => spelling t v

/-- The variable a piece names. -/
def Piece.var? : Piece → Option VarId
  | .text _ => none
  | .name v => some v

/-- **The text of pieces.** -/
def render (t : SymbolTable) : List Piece → String
  | [] => ""
  | p :: rest => p.render t ++ render t rest

/-- **The variables that pieces name**, in order. -/
def names (ps : List Piece) : List VarId :=
  ps.filterMap Piece.var?

variable {t : SymbolTable}

@[simp] theorem render_nil : render t [] = "" := rfl

@[simp] theorem render_text (s : String) (ps : List Piece) :
    render t (.text s :: ps) = s ++ render t ps := rfl

@[simp] theorem render_name (v : VarId) (ps : List Piece) :
    render t (.name v :: ps) = spelling t v ++ render t ps := rfl

@[simp] theorem render_append (ps qs : List Piece) :
    render t (ps ++ qs) = render t ps ++ render t qs := by
  induction ps with
  | nil => simp
  | cons p rest ih => simp [render, ih, String.append_assoc]

@[simp] theorem names_nil : names [] = [] := rfl

@[simp] theorem names_text (s : String) (ps : List Piece) : names (.text s :: ps) = names ps := rfl

@[simp] theorem names_name (v : VarId) (ps : List Piece) :
    names (.name v :: ps) = v :: names ps := rfl

@[simp] theorem names_append (ps qs : List Piece) : names (ps ++ qs) = names ps ++ names qs :=
  List.filterMap_append

/-! ## Text around text -/

/-- Pieces as the left side of an arrow. -/
def arrowPieces (t : SymbolTable) (ps : List Piece) : List Piece :=
  if startsWord (render t ps) then ps else .text "(" :: ps ++ [.text ")"]

/-- A pointer to an object of a class as a pointer to an object of an
ancestor. -/
def upcastPieces (t : SymbolTable) (ps : List Piece) (source target : ClassId) : List Piece :=
  match t.basePath source target with
  | none => ps
  | some [] => ps
  | some path => .text "&" :: arrowPieces t ps ++ [.text ("->" ++ partChain t path)]

/-- A value of a type as a value of another. -/
def convertPieces (t : SymbolTable) (ps : List Piece) (source : Option Ty) (target : Ty) :
    List Piece :=
  match source, target with
  | some (.cls c), .cls a => upcastPieces t ps c a
  | _, _ => ps

/-- The pieces of an expression that stands alone. An operation comes with its
parentheses, which are its first piece and its last. -/
def standalonePieces (e : Expr) (ps : List Piece) : List Piece :=
  match e with
  | .binary .. => ps.tail.dropLast
  | _ => ps

theorem render_arrowPieces (ps : List Piece) :
    render t (arrowPieces t ps) = arrowOperand (render t ps) := by
  unfold arrowPieces arrowOperand
  split
  · rfl
  · simp [String.append_assoc]

/-- Pieces are converted as their text is. -/
theorem render_upcastPieces (ps : List Piece) (source target : ClassId) :
    render t (upcastPieces t ps source target) = upcast t (render t ps) source target := by
  unfold upcastPieces upcast
  rcases t.basePath source target with _ | _ | ⟨c, path⟩
  · rfl
  · rfl
  · simp [render_arrowPieces, String.append_assoc]

theorem render_convertPieces (ps : List Piece) (source : Option Ty) (target : Ty) :
    render t (convertPieces t ps source target) = convert t (render t ps) source target := by
  rcases source with _ | _ | _ | c
  · rfl
  · rfl
  · rfl
  · cases target with
    | int => rfl
    | void => rfl
    | cls a => exact render_upcastPieces ps c a

theorem names_arrowPieces (ps : List Piece) : names (arrowPieces t ps) = names ps := by
  unfold arrowPieces
  split
  · rfl
  · simp

theorem names_upcastPieces (ps : List Piece) (source target : ClassId) :
    names (upcastPieces t ps source target) = names ps := by
  unfold upcastPieces
  split
  · rfl
  · rfl
  · simp [names_arrowPieces]

/-- A conversion names no variable. -/
theorem names_convertPieces (ps : List Piece) (source : Option Ty) (target : Ty) :
    names (convertPieces t ps source target) = names ps := by
  unfold convertPieces
  split
  · exact names_upcastPieces ps _ _
  · rfl

/-- Pieces in parentheses. -/
def Bracketed (ps : List Piece) : Prop :=
  ∃ inner, ps = .text "(" :: (inner ++ [.text ")"])

/-- What is no operation stands alone as it is. -/
theorem standalone_of_ne {e : Expr} (h : ∀ op left right span, e ≠ .binary op left right span)
    (code : String) : standalone e code = code := by
  cases e with
  | binary op left right span => exact absurd rfl (h op left right span)
  | int value span => rfl
  | name x => rfl
  | self span => rfl
  | call callee args span => rfl
  | send receiver callee args span => rfl

/-- The text of an operation that stands alone is what is in its parentheses. -/
theorem standalone_brackets (op : BinOp) (left right : Expr) (span : Span) (code : String) :
    standalone (.binary op left right span) ("(" ++ code ++ ")") = code := by
  have hlist : ("(" ++ code ++ ")").toList = '(' :: (code.toList ++ [')']) := by simp
  unfold standalone
  rw [hlist]
  show (if (code.toList ++ [')']).getLast? = some ')' then
    String.ofList (code.toList ++ [')']).dropLast else _) = code
  rw [if_pos (List.getLast?_concat ..), List.dropLast_concat, String.ofList_toList]

/-- **An expression stands alone in pieces as it does in text**, if an operation
comes with its parentheses. -/
theorem render_standalonePieces {e : Expr} {ps : List Piece}
    (h : ∀ op left right span, e = .binary op left right span → Bracketed ps) :
    render t (standalonePieces e ps) = standalone e (render t ps) := by
  cases e with
  | binary op left right span =>
    obtain ⟨inner, rfl⟩ := h op left right span rfl
    have hrender :
        render t (.text "(" :: (inner ++ [.text ")"])) = "(" ++ render t inner ++ ")" := by
      simp [String.append_assoc]
    rw [hrender, standalone_brackets]
    exact congrArg (render t) (List.dropLast_concat ..)
  | int value span => rfl
  | name x => rfl
  | self span => rfl
  | call callee args span => rfl
  | send receiver callee args span => rfl

theorem names_standalonePieces {e : Expr} {ps : List Piece}
    (h : ∀ op left right span, e = .binary op left right span → Bracketed ps) :
    names (standalonePieces e ps) = names ps := by
  cases e with
  | binary op left right span =>
    obtain ⟨inner, rfl⟩ := h op left right span rfl
    refine (congrArg names (List.dropLast_concat ..)).trans ?_
    simp
  | int value span => rfl
  | name x => rfl
  | self span => rfl
  | call callee args span => rfl
  | send receiver callee args span => rfl

end Heritage.C

namespace Heritage.Site

open C

/-- Only an operation loses its parentheses, and its value is no object. -/
theorem standalone_of_object {s : Site} {e : Expr} {c : ClassId} (h : s.type? e = some (.cls c))
    (code : String) : standalone e code = code := by
  refine standalone_of_ne ?_ code
  rintro op left right span rfl
  unfold type? at h
  cases h

/-! ## Expressions in pieces -/

/-- The pieces of a variable. -/
def varPieces (s : Site) (v : VarId) : List Piece :=
  match (s.table.varAt v).kind with
  | .field => [.text (fieldAccess s.table s.cls v)]
  | _ => [.name v]

/-- The pieces of an expression whose value is used, given its pieces. -/
def valuePieces (s : Site) (e : Expr) (ps : List Piece) : List Piece :=
  if s.type? e = some .void then [] else ps

/-- The pieces of an expression whose value is stored where a type is expected,
given the pieces of its value. -/
def storePieces (s : Site) (e : Expr) (target : Option Ty) (ps : List Piece) : List Piece :=
  match s.valueType? e, target with
  | some source, some target =>
    if s.table.isCompatible source target then
      standalonePieces e (convertPieces s.table ps (some source) target)
    else ps
  | _, _ => standalonePieces e ps

/-- The pieces of a call, given those of its receiver and of its arguments. -/
def callPieces (s : Site) (receiver args : List Piece) : Target → List Piece
  | .construct c => [.text ("&(" ++ C.ident (s.table.classAt c).name ++ ")\x7b0\x7d")]
  | .nothing _ => []
  | .method on m =>
    if (s.table.methodAt m).returnType.isNone then []
    else
      let owner := (s.table.methodAt m).owner
      .text (functionName (s.table.classAt owner).name (s.table.methodAt m).name ++ "(")
        :: (upcastPieces s.table receiver on owner ++ args ++ [.text ")"])

mutual
/-- **The pieces of an expression.** -/
def marked (s : Site) : Expr → List Piece
  | .int value _ => [.text (if fitsInt value then toString value else "")]
  | .name ident =>
    match s.var ident with
    | .ok v => s.varPieces v
    | .error _ => []
  | .self _ => [.text C.receiver]
  | .binary op left right _ =>
    .text "("
      :: (s.valuePieces left (s.marked left) ++ .text (" " ++ op.symbol ++ " ")
        :: s.valuePieces right (s.marked right) ++ [.text ")"])
  | .call callee args _ =>
    let target := s.callTarget callee
    s.callPieces [.text C.receiver] (s.argsMarked target 0 args) target
  | .send receiver callee args _ =>
    let target := s.sendTarget (s.valueType? receiver) callee
    s.callPieces (s.valuePieces receiver (s.marked receiver)) (s.argsMarked target 0 args) target
/-- The pieces of the arguments of a call from the given one on. -/
def argsMarked (s : Site) (target : Target) (i : Nat) : List Expr → List Piece
  | [] => []
  | e :: rest =>
    .text ", " :: s.storePieces e (s.paramType? target i) (s.valuePieces e (s.marked e))
      ++ s.argsMarked target (i + 1) rest
end

variable {s : Site}

theorem render_varPieces (v : VarId) : render s.table (s.varPieces v) = s.varCode v := by
  unfold varPieces varCode
  cases h : (s.table.varAt v).kind with
  | field => simp
  | parameter => simp [spelling, h]
  | receiver => simp [spelling, h]
  | localVar => simp [spelling, h]

theorem render_valuePieces (e : Expr) (ps : List Piece) :
    render s.table (s.valuePieces e ps) = s.valueText e (render s.table ps) := by
  unfold valuePieces valueText
  split
  · rfl
  · rfl

theorem valueType?_binary (op : BinOp) (left right : Expr) (span : Span) :
    s.valueType? (.binary op left right span) = some .int := by
  unfold valueType? type?
  rfl

/-- A value that is stored keeps its parentheses on the way to where it goes. -/
theorem bracketed_convertPieces {e : Expr} {ps : List Piece} {source target : Ty}
    (h : ∀ op left right span, e = .binary op left right span → Bracketed ps)
    (htype : s.valueType? e = some source) :
    ∀ op left right span, e = .binary op left right span →
      Bracketed (convertPieces s.table ps (some source) target) := by
  rintro op left right span rfl
  rw [valueType?_binary] at htype
  obtain rfl := Option.some.inj htype
  exact h op left right span rfl

theorem render_storePieces {e : Expr} {ps : List Piece}
    (h : ∀ op left right span, e = .binary op left right span → Bracketed ps)
    (target : Option Ty) :
    render s.table (s.storePieces e target ps) = s.storeText e target (render s.table ps) := by
  unfold storePieces storeText
  cases htype : s.valueType? e with
  | none => exact render_standalonePieces h
  | some source =>
    cases target with
    | none => exact render_standalonePieces h
    | some target =>
      dsimp only
      split
      · rw [render_standalonePieces (bracketed_convertPieces h htype), render_convertPieces]
      · rfl

theorem names_storePieces {e : Expr} {ps : List Piece}
    (h : ∀ op left right span, e = .binary op left right span → Bracketed ps)
    (target : Option Ty) : names (s.storePieces e target ps) = names ps := by
  unfold storePieces
  cases htype : s.valueType? e with
  | none => exact names_standalonePieces h
  | some source =>
    cases target with
    | none => exact names_standalonePieces h
    | some target =>
      dsimp only
      split
      · rw [names_standalonePieces (bracketed_convertPieces h htype), names_convertPieces]
      · rfl

/-- Pieces are called as their text is. -/
theorem render_callPieces (receiver args : List Piece) (target : Target) :
    render s.table (s.callPieces receiver args target)
      = s.callText (render s.table receiver) (render s.table args) target := by
  unfold callPieces callText
  cases target with
  | construct c => simp
  | nothing why => rfl
  | method on m =>
    dsimp only
    split
    · rfl
    · simp [render_upcastPieces, String.append_assoc]

/-- An operation comes with its parentheses. -/
theorem bracketed_marked (s : Site) (e : Expr) :
    ∀ op left right span, e = .binary op left right span → Bracketed (s.marked e) := by
  rintro op left right span rfl
  rw [marked]
  refine ⟨s.valuePieces left (s.marked left) ++ .text (" " ++ op.symbol ++ " ")
    :: s.valuePieces right (s.marked right), ?_⟩
  simp

theorem bracketed_valuePieces (s : Site) (e : Expr) :
    ∀ op left right span, e = .binary op left right span →
      Bracketed (s.valuePieces e (s.marked e)) := by
  rintro op left right span rfl
  have hvoid : ¬ s.type? (.binary op left right span) = some .void := by
    unfold type?
    exact fun h => by cases h
  rw [valuePieces, if_neg hvoid]
  exact s.bracketed_marked _ op left right span rfl

mutual
/-- **Put together, the pieces of an expression are its text.** -/
theorem render_marked (s : Site) : (e : Expr) → render s.table (s.marked e) = s.code e
  | .int value span => by
    unfold marked code
    simp
  | .name x => by
    unfold marked code
    cases s.var x with
    | ok v => exact render_varPieces v
    | error i => rfl
  | .self span => by
    unfold marked code
    simp
  | .binary op left right span => by
    unfold marked code
    simp [render_valuePieces, render_marked s left, render_marked s right, String.append_assoc]
  | .call callee args span => by
    unfold marked code
    dsimp only
    rw [render_callPieces, render_argsMarked s _ 0 args]
    simp
  | .send receiver callee args span => by
    unfold marked code
    dsimp only
    rw [render_callPieces, render_argsMarked s _ 0 args, render_valuePieces,
      render_marked s receiver]
theorem render_argsMarked (s : Site) (target : Target) : (i : Nat) → (args : List Expr) →
    render s.table (s.argsMarked target i args) = s.argsCode target i args
  | _, [] => by
    unfold argsMarked argsCode
    rfl
  | i, e :: rest => by
    unfold argsMarked argsCode
    simp [render_storePieces (s.bracketed_valuePieces e), render_valuePieces, render_marked s e,
      render_argsMarked s target (i + 1) rest, String.append_assoc]
end

/-! ## Which variables an expression names -/

/-- A variable, unless it is a field. -/
def unlessField (s : Site) (v : VarId) : List VarId :=
  if (s.table.varAt v).kind = .field then [] else [v]

mutual
/-- **The parameters and locals that the names in an expression denote**, in
order. -/
def denoted (s : Site) : Expr → List VarId
  | .int _ _ => []
  | .name ident =>
    match s.var ident with
    | .ok v => s.unlessField v
    | .error _ => []
  | .self _ => []
  | .binary _ left right _ => s.denoted left ++ s.denoted right
  | .call _ args _ => s.argsDenoted args
  | .send receiver _ args _ => s.denoted receiver ++ s.argsDenoted args
/-- The parameters and locals that the names in arguments denote, in order. -/
def argsDenoted (s : Site) : List Expr → List VarId
  | [] => []
  | e :: rest => s.denoted e ++ s.argsDenoted rest
end

mutual
/-- What an expression denotes is what one of its names denotes. -/
theorem mem_denoted {v : VarId} : (e : Expr) → v ∈ s.denoted e →
    ∃ x, s.var x = .ok v ∧ (s.table.varAt v).kind ≠ .field
  | .int value span, h => by
    unfold denoted at h
    cases h
  | .name x, h => by
    unfold denoted at h
    cases hx : s.var x with
    | ok w =>
      rw [hx] at h
      dsimp only [unlessField] at h
      split at h
      · cases h
      · rename_i hkind
        obtain rfl := List.mem_singleton.mp h
        exact ⟨x, hx, hkind⟩
    | error i =>
      rw [hx] at h
      cases h
  | .self span, h => by
    unfold denoted at h
    cases h
  | .binary op left right span, h => by
    unfold denoted at h
    exact (List.mem_append.mp h).elim (mem_denoted left) (mem_denoted right)
  | .call callee args span, h => by
    unfold denoted at h
    exact mem_argsDenoted args h
  | .send receiver callee args span, h => by
    unfold denoted at h
    exact (List.mem_append.mp h).elim (mem_denoted receiver) (mem_argsDenoted args)
theorem mem_argsDenoted {v : VarId} : (args : List Expr) → v ∈ s.argsDenoted args →
    ∃ x, s.var x = .ok v ∧ (s.table.varAt v).kind ≠ .field
  | [], h => by
    unfold argsDenoted at h
    cases h
  | e :: rest, h => by
    unfold argsDenoted at h
    exact (List.mem_append.mp h).elim (mem_denoted e) (mem_argsDenoted rest)
end

/-- A variable is named by its own piece, and a field by none: it is a member of the receiver. -/
theorem names_varPieces (v : VarId) : names (s.varPieces v) = s.unlessField v := by
  unfold varPieces unlessField
  cases (s.table.varAt v).kind <;> simp

theorem valuePieces_of_use {e : Expr} (h : s.useIssues e = []) (ps : List Piece) :
    s.valuePieces e ps = ps :=
  if_neg (useIssues_eq_nil_iff.mp h)

theorem names_callPieces {on : ClassId} {m : MethodId} {τ : Ty}
    (h : s.targetType? (.method on m) = some τ) (receiver args : List Piece) :
    names (s.callPieces receiver args (.method on m)) = names receiver ++ names args := by
  have hreturn : ¬ (s.table.methodAt m).returnType.isNone = true := by
    rw [show (s.table.methodAt m).returnType = some τ from h]
    exact Bool.false_ne_true
  rw [callPieces, if_neg hreturn]
  simp [names_upcastPieces]

theorem methodTarget_ne_construct (on : ClassId) (callee : Ident) (c : ClassId) :
    s.methodTarget on callee ≠ .construct c := by
  unfold methodTarget
  split <;> exact Target.noConfusion

theorem sendTarget_ne_construct (receiver : Option Ty) (callee : Ident) (c : ClassId) :
    s.sendTarget receiver callee ≠ .construct c := by
  unfold sendTarget
  split
  · exact Target.noConfusion
  · exact methodTarget_ne_construct _ callee c
  · exact Target.noConfusion

/-- A construction that is in order has no arguments. -/
theorem args_of_construct {callee : Ident} {args : List Expr} {span : Span} {c : ClassId}
    (h : s.targetIssues callee args.length span (.construct c) = []) : args = [] := by
  unfold targetIssues at h
  dsimp only at h
  split at h
  · rename_i hlen
    exact List.eq_nil_of_length_eq_zero hlen
  · cases h

mutual
/-- **The text of an expression of which nothing is wrong names what the
expression names.** -/
theorem names_marked (typed : ∀ e, s.issues e = [] → ∃ τ, s.type? e = some τ) :
    (e : Expr) → s.issues e = [] → names (s.marked e) = s.denoted e
  | .int value span, _ => by
    unfold marked denoted
    simp
  | .name x, _ => by
    unfold marked denoted
    cases s.var x with
    | ok v => exact names_varPieces v
    | error i => rfl
  | .self span, _ => by
    unfold marked denoted
    simp
  | .binary op left right span, h => by
    unfold issues at h
    simp only [List.append_eq_nil_iff] at h
    obtain ⟨⟨⟨hl, hul⟩, -⟩, ⟨hr, hur⟩, -⟩ := h
    unfold marked denoted
    simp [valuePieces_of_use hul, valuePieces_of_use hur, names_marked typed left hl,
      names_marked typed right hr]
  | .call callee args span, h => by
    obtain ⟨τ, hτ⟩ := typed _ h
    unfold issues at h
    unfold type? at hτ
    dsimp only at h
    obtain ⟨htarget, hargs⟩ := List.append_eq_nil_iff.mp h
    unfold marked denoted
    dsimp only
    cases hcase : s.callTarget callee with
    | construct c =>
      rw [hcase] at htarget
      rw [args_of_construct htarget]
      unfold callPieces argsDenoted
      simp
    | method on m =>
      rw [hcase] at hτ hargs
      rw [names_callPieces hτ, names_argsMarked typed _ 0 args hargs]
      simp
    | nothing why =>
      rw [hcase] at hτ
      cases hτ
  | .send receiver callee args span, h => by
    obtain ⟨τ, hτ⟩ := typed _ h
    unfold issues at h
    unfold type? at hτ
    dsimp only at h
    rw [List.append_eq_nil_iff, List.append_eq_nil_iff] at h
    obtain ⟨⟨hr, hur⟩, hcall⟩ := h
    obtain ⟨-, hargs⟩ := List.append_eq_nil_iff.mp hcall
    change s.targetType? (s.sendTarget (s.valueType? receiver) callee) = some τ at hτ
    unfold marked denoted
    dsimp only
    cases hcase : s.sendTarget (s.valueType? receiver) callee with
    | construct c => exact absurd hcase (sendTarget_ne_construct _ _ c)
    | method on m =>
      rw [hcase] at hτ hargs
      rw [names_callPieces hτ, names_argsMarked typed _ 0 args hargs, valuePieces_of_use hur,
        names_marked typed receiver hr]
    | nothing why =>
      rw [hcase] at hτ
      cases hτ
theorem names_argsMarked (typed : ∀ e, s.issues e = [] → ∃ τ, s.type? e = some τ)
    (target : Target) : (i : Nat) → (args : List Expr) → s.argIssues target i args = [] →
    names (s.argsMarked target i args) = s.argsDenoted args
  | _, [], _ => by
    unfold argsMarked argsDenoted
    rfl
  | i, e :: rest, h => by
    unfold argIssues at h
    simp only [List.append_eq_nil_iff] at h
    obtain ⟨⟨⟨he, hue⟩, -⟩, hrest⟩ := h
    unfold argsMarked argsDenoted
    rw [List.cons_append, names_text, names_append, names_storePieces (s.bracketed_valuePieces e),
      valuePieces_of_use hue, names_marked typed e he,
      names_argsMarked typed target (i + 1) rest hrest]
end

end Heritage.Site
