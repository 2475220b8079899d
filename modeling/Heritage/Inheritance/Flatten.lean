import Heritage.Inheritance.Ancestry
import Heritage.Inheritance.ParentsFirst
import Heritage.Issue

/-!
# Members, inherited ones included

What a name denotes in a class. The class's own declaration wins. Otherwise
the declarations of its ancestors compete, and one that another competitor
overrides – whose class another competitor's class inherits from – drops out.
Of the fields that remain the first in linearization order is taken. Of the
methods that remain the first is taken too, but only if all of them have one
signature; if they do not, the name is ambiguous and denotes nothing.

An ambiguity that a parent has already is not reported again.
-/

namespace Heritage

/-- The ancestors in a linearization that declare a member, each with the
declaration, in order. The class itself, which comes first, is left out. -/
def declaringAncestors {α : Type} (linearization : List ClassId)
    (declared : ClassId → Option α) : List (ClassId × α) :=
  (linearization.drop 1).filterMap fun c => (declared c).map (c, ·)

/-- The competitors that no other competitor overrides. -/
def Ancestry.mostDerived {α : Type} (g : Ancestry) (competitors : List (ClassId × α)) :
    List (ClassId × α) :=
  competitors.filter fun x => !competitors.any fun y => g.isSubclassOf y.1 x.1

namespace SymbolTable

/-- The names of the methods declared along a linearization, each once. -/
def methodNames (t : SymbolTable) (linearization : List ClassId) : List String :=
  (linearization.flatMap fun c => (t.methodsOf c).map fun m => (t.methodAt m).name).eraseDups

/-- The names of the fields declared along a linearization, each once. -/
def fieldNames (t : SymbolTable) (linearization : List ClassId) : List String :=
  (linearization.flatMap fun c => (t.fieldsOf c).map fun v => (t.varAt v).name).eraseDups

/-- The methods with a name that a class may inherit. -/
def methodCandidates (t : SymbolTable) (g : Ancestry) (c : ClassId) (name : String) :
    List (ClassId × MethodId) :=
  g.mostDerived (declaringAncestors (t.linearization c) fun a => t.declaredMethod a name)

/-- The fields with a name that a class may inherit. -/
def fieldCandidates (t : SymbolTable) (g : Ancestry) (c : ClassId) (name : String) :
    List (ClassId × VarId) :=
  g.mostDerived (declaringAncestors (t.linearization c) fun a => t.declaredField a name)

/-- The first of the candidates if all of them have its signature. -/
def agreedMethod? (t : SymbolTable) : List (ClassId × MethodId) → Option MethodId
  | [] => none
  | first :: rest =>
    if (first :: rest).all fun other => t.sameSignature first.2 other.2 then some first.2
    else none

/-- The method a name denotes in a class. -/
def flatMethod? (t : SymbolTable) (g : Ancestry) (c : ClassId) (name : String) :
    Option MethodId :=
  match t.declaredMethod c name with
  | some own => some own
  | none => t.agreedMethod? (t.methodCandidates g c name)

/-- The field a name denotes in a class. -/
def flatField? (t : SymbolTable) (g : Ancestry) (c : ClassId) (name : String) : Option VarId :=
  match t.declaredField c name with
  | some own => some own
  | none => (t.fieldCandidates g c name).head?.map (·.2)

/-- The members that a class declares itself. -/
def ownMembers (t : SymbolTable) (c : ClassId) : Members where
  methods := (t.methodsOf c).map fun m => ((t.methodAt m).name, m)
  fields := (t.fieldsOf c).map fun v => ((t.varAt v).name, v)

/-- The members of a class whose ancestry is known. -/
def flatMembers (t : SymbolTable) (g : Ancestry) (c : ClassId) : Members where
  methods := (t.methodNames (t.linearization c)).filterMap fun name =>
    (t.flatMethod? g c name).map (name, ·)
  fields := (t.fieldNames (t.linearization c)).filterMap fun name =>
    (t.flatField? g c name).map (name, ·)
  ambiguous := (t.methodNames (t.linearization c)).filter fun name =>
    (t.flatMethod? g c name).isNone

/-- **The members of a class.** A class whose ancestry is broken has its
own. -/
def membersOf (t : SymbolTable) (g : Ancestry) (c : ClassId) : Members :=
  if (t.classAt c).state.isBroken then t.ownMembers c else t.flatMembers g c

/-- Give every class its members. -/
def flatten (t : SymbolTable) (g : Ancestry) : SymbolTable :=
  { t with classes := t.classes.mapIdx fun c s => { s with members := t.membersOf g c } }

/-! ## Ambiguities -/

/-- The issue of an ambiguous method name, with its candidates. -/
def ambiguity (t : SymbolTable) (g : Ancestry) (c : ClassId) (name : String) : Issue :=
  .ambiguous (t.classAt c).name name
    (", ".intercalate
      ((t.methodCandidates g c name).map fun x => (t.classAt x.1).name ++ "." ++ name))
    (t.classAt c).span

/-- Whether a method name is ambiguous in a parent of a class. -/
def inheritsAmbiguity (t : SymbolTable) (c : ClassId) (name : String) : Bool :=
  (t.classAt c).resolvedParents.any fun p => (t.classAt p).members.isAmbiguous name

/-- The ambiguities that arise in a class of a flattened table. -/
def ambiguitiesOf (t : SymbolTable) (g : Ancestry) (c : ClassId) : List Issue :=
  ((t.classAt c).members.ambiguous.filter fun name => !t.inheritsAmbiguity c name).map
    (t.ambiguity g c)

/-- The ambiguities of a flattened table, in the order of resolution. -/
def ambiguities (t : SymbolTable) (g : Ancestry) : List Issue :=
  t.resolutionOrder.flatMap (t.ambiguitiesOf g)

end SymbolTable

end Heritage
