import Heritage.Issue
import Heritage.Symbols.Table

/-!
# Environments

What is in scope at a point of a method body. The scopes of a body and their
variables are in the table already, all of them; an environment says which of
the scopes the point is in, and which of their variables have been declared
before it.

Blocks are entered in the order in which they were collected: a scope that is
left is never entered again, and each frame counts the blocks entered from it.
-/

namespace Heritage

/-- A scope that a point of a body is in. -/
structure Frame where
  /-- The scope. -/
  scope : ScopeId
  /-- How many of the blocks directly inside it have been entered. -/
  entered : Nat := 0
deriving DecidableEq, Inhabited

/-- **An environment**: the scopes around a point of a body, and the variables
declared so far. There is always at least one scope, that of the method, which
is never left. So a block is never entered outside of a method body, and there
is no issue for it: `enter` fails only where the innermost scope has no block
left. -/
structure Env where
  /-- The innermost scope. -/
  top : Frame
  /-- The scopes around it, inner ones first. -/
  outer : List Frame := []
  /-- The variables declared so far. -/
  visible : List VarId
deriving DecidableEq, Inhabited

namespace Env

/-- The environment at the start of a method: its scope, with its parameters
declared. -/
def ofMethod (t : SymbolTable) (m : MethodId) : Env where
  top := { scope := (t.methodAt m).scope }
  visible := t.paramsOf m

/-- The innermost scope. -/
def scope (e : Env) : ScopeId :=
  e.top.scope

/-- Every scope around the point, inner ones first. -/
def frames (e : Env) : List Frame :=
  e.top :: e.outer

/-- **Enter the next block** of the innermost scope. -/
def enter (t : SymbolTable) (span : Span) (e : Env) : Except Issue Env :=
  match (t.childrenOf e.scope)[e.top.entered]? with
  | none => .error (.malformed .noScope span)
  | some block =>
    .ok { e with
          top := { scope := block }
          outer := { e.top with entered := e.top.entered + 1 } :: e.outer }

/-- Leave the innermost block. The scope of the method is never left. -/
def leave (e : Env) : Env :=
  match e.outer with
  | [] => e
  | f :: rest => { e with top := f, outer := rest }

/-- **Declare the variable with a name in the innermost scope**, if it has
one. -/
def declare (t : SymbolTable) (name : String) (e : Env) : Env :=
  match t.lookupIn e.scope name with
  | none => e
  | some v => { e with visible := v :: e.visible }

/-- The declared variable with a name in one scope. -/
def lookupFrame (t : SymbolTable) (name : String) (e : Env) (f : Frame) : Option VarId :=
  (t.lookupIn f.scope name).filter fun v => e.visible.contains v

/-- **The declared variable with a name**, from the innermost scope that has
one. -/
def lookup (t : SymbolTable) (name : String) (e : Env) : Option VarId :=
  e.frames.findSome? (e.lookupFrame t name)

end Env

end Heritage
