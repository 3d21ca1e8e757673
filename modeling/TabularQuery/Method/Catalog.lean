import TabularQuery.Method.Accumulator
import TabularQuery.Method.Scalar

/-!
Catalogs of methods. Names are the same in either case. Several methods may share a name; a call
takes the one whose parameters are exactly the argument types, or else the only one that accepts
them. An aggregate is two entries: a reader, whose parameters leave the last argument out, and an
accumulator, which takes all of them.
-/

namespace TabularQuery

/-- What a call of a method does. -/
inductive MethodKind where
  | scalar (function : ScalarFunction)
  /-- A value that can be named without parentheses. -/
  | property (function : ScalarFunction)
  /-- Reads what the named accumulator has gathered. -/
  | aggregate (accumulator : String)

structure Method where
  name : String
  params : List ColumnType
  result : ColumnType
  kind : MethodKind

/-- The half of an aggregate that takes in rows. -/
structure AccumulatorMethod where
  name : String
  params : List ColumnType
  aggregate : Aggregate
  deriving DecidableEq, Repr

structure Catalog where
  methods : List Method
  accumulators : List AccumulatorMethod

/-- A function together with the signature under which a call takes it. -/
structure BoundFunction where
  name : String
  params : List ColumnType
  result : ColumnType
  function : ScalarFunction

namespace Method

/-- What a call of a scalar method or property runs; a property has no parameters. -/
def bound? (m : Method) : Option BoundFunction :=
  match m.kind with
  | .scalar f => some ⟨m.name, m.params, m.result, f⟩
  | .property f => some ⟨m.name, [], m.result, f⟩
  | .aggregate _ => none

def isScalar (m : Method) : Bool := m.kind matches .scalar _
def isProperty (m : Method) : Bool := m.kind matches .property _
def isAggregate (m : Method) : Bool := m.kind matches .aggregate _

/-- The accumulator that an aggregate reads. -/
def accumulator? (m : Method) : Option String :=
  match m.kind with
  | .aggregate name => some name
  | _ => none

end Method

namespace Catalog

def empty : Catalog := ⟨[], []⟩

def sameName (a b : String) : Bool := Text.lower a = Text.lower b

/-- Does a new method take the place of an old one? -/
def replaces (new old : Method) : Bool :=
  sameName old.name new.name && old.params = new.params && old.isAggregate = new.isAggregate

/-- Adds a method as the last of its name, in the place of one with the same parameters. -/
def register (c : Catalog) (m : Method) : Catalog :=
  { c with methods := c.methods.filter (fun old => !replaces m old) ++ [m] }

def registerAccumulator (c : Catalog) (a : AccumulatorMethod) : Catalog :=
  { c with accumulators :=
      c.accumulators.filter (fun old => !(sameName old.name a.name && old.params = a.params)) ++ [a] }

def registerScalar (c : Catalog) (name : String) (params : List ColumnType) (result : ColumnType)
    (f : ScalarFunction) : Catalog :=
  c.register ⟨name, params, result, .scalar f⟩

def registerProperty (c : Catalog) (name : String) (result : ColumnType) (f : ScalarFunction) :
    Catalog :=
  c.register ⟨name, [], result, .property f⟩

def registerAggregate (c : Catalog) (name : String) (params : List ColumnType)
    (result : ColumnType) (accumulator : String) : Catalog :=
  c.register ⟨name, params, result, .aggregate accumulator⟩

/-- Adds every entry of `other`. -/
def extend (c other : Catalog) : Catalog :=
  other.accumulators.foldl registerAccumulator (other.methods.foldl register c)

/-- The candidate with exactly the argument types, or else the only one that accepts them. -/
def selectOverload (name : String) (params : α → List ColumnType) (candidates : List α)
    (args : List ColumnType) : Except Error (Option α) :=
  match candidates.find? fun c => params c = args with
  | some exact => .ok (some exact)
  | none =>
    let fits (c : α) : Bool :=
      (params c).length = args.length &&
        ((params c).zip args).all fun (wanted, given) => wanted.accepts given
    match candidates.filter fits with
    | [] => .ok none
    | [only] => .ok (some only)
    | _ => .error (.callAmbiguous name args)

/-- The methods of a name, in order of registration. -/
def overloads (c : Catalog) (name : String) : List Method :=
  c.methods.filter fun m => sameName m.name name

/-- The scalar method for a call, if the name has one. -/
def resolveScalar? (c : Catalog) (name : String) (args : List ColumnType) :
    Except Error (Option Method) :=
  selectOverload name Method.params ((c.overloads name).filter Method.isScalar) args

def resolveMethod (c : Catalog) (name : String) (args : List ColumnType) : Except Error Method := do
  match ← c.resolveScalar? name args with
  | some m => .ok m
  | none => .error (.methodUnknown name args)

/-- The reader of an aggregate; `args` leaves the last argument out. -/
def resolveAggregate? (c : Catalog) (name : String) (args : List ColumnType) :
    Except Error (Option Method) :=
  selectOverload name Method.params ((c.overloads name).filter Method.isAggregate) args

def resolveAccumulator (c : Catalog) (name : String) (args : List ColumnType) :
    Except Error AccumulatorMethod := do
  let candidates := c.accumulators.filter fun a => sameName a.name name
  match ← selectOverload name AccumulatorMethod.params candidates args with
  | some a => .ok a
  | none => .error (.accumulatorUnknown name args)

def resolveProperty? (c : Catalog) (name : String) : Option Method :=
  (c.overloads name).find? Method.isProperty

def isAggregate (c : Catalog) (name : String) : Bool := (c.overloads name).any Method.isAggregate

end Catalog

end TabularQuery
