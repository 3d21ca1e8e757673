import TabularQuery.Plan.BindState
import TabularQuery.Query.Print

/-!
Binding of expressions. A name without an alias is a column if exactly one visible source has it,
and a property if none has. A call is an aggregate if some visible catalog has it as one; only
fields and HAVING may hold aggregates, and an aggregate holds no other.
-/

namespace TabularQuery

/-- The part of a query that an expression stands in. -/
inductive Clause where
  | filter | on | groupKey | having | field
  deriving DecidableEq, Repr

namespace Clause

def allowsAggregates : Clause → Bool
  | .having | .field => true
  | _ => false

def name : Clause → String
  | .filter => "WHERE"
  | .on => "JOIN ON"
  | .groupKey => "GROUP BY"
  | .having => "HAVING"
  | .field => "SELECT"

end Clause

namespace SourceEntry

/-- A column of the source as an expression. -/
def columnExpr (e : SourceEntry) (ordinal : Nat) (column : Column) : TypedExpr :=
  .column e.cursor ordinal column.name column.type

end SourceEntry

namespace SourceList

/-- Catalogs to search, each with the schema that it belongs to. -/
def catalogs (s : SourceList) : List (Option String × Catalog) :=
  match s with
  | [] => [(none, Catalog.standard)]
  | _ => s.map fun e => (e.library, e.catalog)

/-- The entry of an alias. -/
def entry (s : SourceList) (aliasName : String) : Except Error SourceEntry :=
  match s.entry? aliasName with
  | some e => .ok e
  | none => .error (.aliasUnknown aliasName)

/-- The first catalog's property of a name. -/
def property? (s : SourceList) (name : String) : Option (Option String × BoundFunction) :=
  s.catalogs.findSome? fun (library, c) => do
    let f ← (← c.resolveProperty? name).bound?
    return (library, f)

/-- The first catalog's scalar method for a call. -/
def scalar? (s : SourceList) (name : String) (types : List ColumnType) :
    Except Error (Option (Option String × BoundFunction)) :=
  s.catalogs.findSomeM? fun (library, c) => do
    return ((← c.resolveScalar? name types).bind Method.bound?).map (library, ·)

/-- The columns of a name, one for each source that has it. -/
def columns (s : SourceList) (name : String) : List (SourceEntry × Nat × Column) :=
  s.filterMap fun e => (e.column? name).map fun (i, c) => (e, i, c)

/-- The first catalog's aggregate for a call: the type that it reads as, and its accumulator. The
reader is found without the last argument, the accumulator with all of them. -/
def aggregate? (s : SourceList) (name : String) (types : List ColumnType) :
    Except Error (Option (Option String × ColumnType × AccumulatorMethod)) :=
  if types.isEmpty then .ok none
  else s.catalogs.findSomeM? fun (library, c) => do
    match ← c.resolveAggregate? name types.dropLast with
    | none => return none
    | some read =>
      let accumulator ← c.resolveAccumulator (read.accumulator?.getD "") types
      return some (library, read.result, accumulator)

end SourceList

namespace Bind

/-- The sources that an expression can see. -/
def entries : Bind SourceList := return (← get).scopes.entries

/-- A function as an expression, its schema noted. -/
def useFunction (library : Option String) (f : BoundFunction) (args : List TypedExpr) :
    Bind TypedExpr := do
  library.forM noteLibrary
  return .call f args

def column (aliasName : Option String) (name : String) : Bind TypedExpr := do
  let entries ← entries
  match aliasName with
  | some a =>
    let e ← MonadExcept.ofExcept (entries.entry a)
    match e.column? name with
    | some (i, c) => return e.columnExpr i c
    | none => throw (.columnUnknownIn name a)
  | none =>
    let found := entries.columns name
    match found with
    | [(e, i, c)] => return e.columnExpr i c
    | [] =>
      match entries.property? name with
      | some (library, f) => useFunction library f []
      | none => throw (.columnUnknown name)
    | _ => throw (.columnAmbiguous name (found.map fun (e, _) => e.aliasName))

/-- The slot for an aggregate; calls of the same text share one. -/
def slotFor (text : String) (accumulator : AccumulatorMethod) (args : List TypedExpr) : Bind Nat := do
  let s ← get
  let slots ← MonadExcept.ofExcept s.scopes.slots
  match slots.find? fun a => a.text = text with
  | some a => return a.slot
  | none =>
    let scopes ← MonadExcept.ofExcept (s.scopes.addSlot ⟨slots.length, text, accumulator, args⟩)
    set { s with scopes }
    return slots.length

/-- The sources whose catalogs a call looks through: one under an alias, or all that are visible. -/
def candidates (aliasName : Option String) : Bind SourceList := do
  let visible ← entries
  match aliasName with
  | some a => return [← MonadExcept.ofExcept (visible.entry a)]
  | none => return visible

/-- An aggregate as an expression, its schema noted; `text` is the call as written. -/
def useAggregate (clause : Clause) (text : String) (library : Option String) (ty : ColumnType)
    (accumulator : AccumulatorMethod) (args : List TypedExpr) : Bind TypedExpr := do
  if !clause.allowsAggregates then throw (.aggregateMisplaced text clause.name)
  if TypedExpr.anyAggregate args then throw (.aggregateNested text)
  library.forM noteLibrary
  return .aggregate (← slotFor text accumulator args) ty

/-- A call whose arguments are bound; `text` is the call as written. -/
def call (clause : Clause) (text : String) (aliasName : Option String) (name : String)
    (args : List TypedExpr) : Bind TypedExpr := do
  let types := args.map TypedExpr.type
  let sources ← candidates aliasName
  match ← MonadExcept.ofExcept (sources.aggregate? name types) with
  | some (library, ty, accumulator) => useAggregate clause text library ty accumulator args
  | none =>
    match ← MonadExcept.ofExcept (sources.scalar? name types) with
    | some (library, f) => useFunction library f args
    | none =>
      match if args.isEmpty then sources.property? name else none with
      | some (library, f) => useFunction library f []
      | none => throw (.methodUnknown name types)

mutual

def expr (clause : Clause) : Expr → Bind TypedExpr
  | .literal v => return .literal v
  | .parens e => expr clause e
  | .column aliasName name => column aliasName name
  | .call aliasName name args => do
    let typed ← exprs clause args
    call clause (Expr.call aliasName name args).text aliasName name typed
  | .binary op left right => do
    let l ← expr clause left
    let r ← expr clause right
    match op.resultType? l.type r.type with
    | some ty => return .binary op l r ty
    | none => throw (.binaryMismatch op.symbol l.type r.type)
  | .unary op operand => do
    let e ← expr clause operand
    match op.resultType? e.type with
    | some ty => return .unary op e ty
    | none => throw (.unaryMismatch op.symbol e.type)
  | .inList operand items => do
    let e ← expr clause operand
    match ← membership clause operand.text e none items with
    | some test => return test
    | none => throw (.listEmpty operand.text)

def exprs (clause : Clause) : List Expr → Bind (List TypedExpr)
  | [] => return []
  | e :: es => do return (← expr clause e) :: (← exprs clause es)

/-- Is the operand one of the items? Asked as a chain of `=` joined by `or`, after the tests that
were made `before`. Every item must be of the operand's kind. -/
def membership (clause : Clause) (operandText : String) (operand : TypedExpr)
    (before : Option TypedExpr) : List Expr → Bind (Option TypedExpr)
  | [] => return before
  | item :: items => do
    let e ← expr clause item
    if e.type.kind ≠ operand.type.kind then
      throw (.listItemMismatch item.text operandText e.type operand.type)
    let test := TypedExpr.binary .eq operand e .boolean
    let tests := match before with
      | some earlier => .binary .or earlier test .boolean
      | none => test
    membership clause operandText operand (some tests) items

end

/-- An expression that must be a truth value. -/
def condition (clause : Clause) (e : Expr) : Bind TypedExpr := do
  let typed ← expr clause e
  if typed.type ≠ .boolean then throw (.conditionNotBoolean clause.name e.text typed.type)
  return typed

end Bind

end TabularQuery
