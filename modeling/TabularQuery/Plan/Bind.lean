import TabularQuery.Plan.BindExpr

/-!
Binding of statements: one walk over the tree, in the order FROM, WHERE, GROUP BY, HAVING, fields.
Its result is the bound program; the first failure is the failure of the whole.
-/

namespace TabularQuery

/-- Where a query finds its schemas: a registry, and the files that schemas may look at. -/
structure Environment where
  registry : Registry
  files : Files

namespace Environment

/-- The schema of a call and the columns of its table. -/
def table (env : Environment) (c : SchemaCall) : Except Error (Schema × List Column) := do
  let schema ← env.registry.schema c.schema
  return (schema, ← schema.columns env.files c.method c.args)

end Environment

/-- Gives the last source its join condition. -/
def setLastCondition (on : TypedExpr) : List BoundSource → List BoundSource
  | [] => []
  | [s] => [{ s with on := some on }]
  | s :: rest => s :: setLastCondition on rest

namespace Bind

/-- A source under its alias, with a cursor of its own. -/
def source (aliasName : String) (origin : SourceOrigin) (columns : List Column)
    (schema : Option (String × Schema)) : Bind (SourceList × List BoundSource) := do
  let cursor ← nextCursor
  return ([⟨aliasName, cursor, columns, schema⟩], [⟨cursor, aliasName, origin, columns, none⟩])

/-- The aliases of a FROM clause and its sources, the outermost loop first. -/
def fromSource (env : Environment) : FromSource → Bind (SourceList × List BoundSource)
  | .schema c aliasName => do
    let (schema, columns) ← MonadExcept.ofExcept (env.table c)
    let aliasName ← aliasName.getDM nextAlias
    let library := Text.lower c.schema
    let bound ← source aliasName (.schema schema library c.method c.args) columns (some (library, schema))
    noteLibrary library
    return bound
  | .named name aliasName => do
    match (← get).scopes.definedTable? name with
    | none => throw (.tableUnknown name)
    | some t => source (aliasName.getD t.name) (.table t.name) t.columns none
  | .join left right on => do
    pushScope .join
    let (leftEntries, leftSources) ← fromSource env left
    insertSymbol "left" (.sources leftEntries)
    let (rightEntries, rightSources) ← fromSource env right
    let merged ← MonadExcept.ofExcept (leftEntries.merge rightEntries)
    insertSymbol "right" (.sources rightEntries)
    let test ← condition .on on
    popScope
    return (merged, setLastCondition test (leftSources ++ rightSources))

/-- Every column of every source; the alias is part of the name if there are several sources. -/
def starFields (entries : SourceList) : List BoundField :=
  entries.flatMap fun e =>
    e.columns.zipIdx.map fun (c, i) =>
      ⟨if entries.length > 1 then e.aliasName ++ "." ++ c.name else c.name, e.columnExpr i c⟩

def selectItem (entries : SourceList) : SelectItem → Bind (List BoundField)
  | .star => return starFields entries
  | .field e aliasName => do return [⟨aliasName.getD e.text, ← expr .field e⟩]

def selectItems (entries : SourceList) : List SelectItem → Bind (List BoundField)
  | [] => return []
  | item :: items => do return (← selectItem entries item) ++ (← selectItems entries items)

def fields (query : String) (entries : SourceList) (items : List SelectItem) :
    Bind (List BoundField) := do
  let fields ← selectItems entries items
  match Column.repeatedName? (fields.map BoundField.name) with
  | some name => throw (.fieldRepeated name query)
  | none => return fields

def optional (clause : Clause) : Option Expr → Bind (Option TypedExpr)
  | none => return none
  | some e => do return some (← condition clause e)

def grouping : Option GroupBy → Bind (Option Grouping)
  | none => return none
  | some g => do
    let keys ← exprs .groupKey g.keys
    return some ⟨keys, ← optional .having g.having, false⟩

def query (env : Environment) (q : Query) : Bind BoundQuery := do
  let name := s!"Query{← nextQuery}"
  pushScope .query
  let (entries, sources) ← fromSource env q.source
  insertSymbol name (.sources entries)
  let filter ← optional .filter q.filter
  let grouping ← grouping q.groupBy
  let fields ← fields name entries q.fields
  let slots ← popQuery
  let grouping := if grouping.isNone && !slots.isEmpty then some Grouping.single else grouping
  return ⟨name, sources, filter, grouping, fields, q.skip, q.take, slots⟩

/-- The first column, counted from 1, in which two lists of types differ. -/
def mismatch? (n : Nat) : List ColumnType → List ColumnType → Option (Nat × ColumnType × ColumnType)
  | a :: as, b :: bs => if a = b then mismatch? (n + 1) as bs else some (n, a, b)
  | _, _ => none

/-- Operands of a set operation must have the same column types. -/
def checkShapes (op : SetOperator) (left right : BoundSet) : Except Error Unit :=
  let l := left.fields.map BoundField.type
  let r := right.fields.map BoundField.type
  if l.length ≠ r.length then .error (.operandWidths op.name l.length r.length)
  else match mismatch? 1 l r with
    | some (n, a, b) => .error (.operandColumn op.name n a b)
    | none => .ok ()

/-- Positions of key columns among the fields of the left operand. -/
def keyColumns (left : BoundSet) : List String → Except Error (List Nat)
  | [] => .ok []
  | key :: keys =>
    match left.fields.findIdx? fun f => f.name = key with
    | some i => do return i :: (← keyColumns left keys)
    | none => .error (.keyUnknown key left.leftmost.name)

def setExpr (env : Environment) : SetExpr → Bind BoundSet
  | .query q => do return .query (← query env q)
  | .operation op keys left right => do
    let l ← setExpr env left
    let r ← setExpr env right
    MonadExcept.ofExcept (checkShapes op l r)
    let columns ← MonadExcept.ofExcept (keyColumns l keys)
    let keyId ← nextSetKey
    return .operation op s!"{l.name}_{op.name}_{r.name}" keyId columns l r

/-- Tables of a WITH list; each can be read by those after it. -/
def namedTables (env : Environment) : List NamedTable → Bind (List BoundTable)
  | [] => return []
  | t :: rest => do
    let body ← setExpr env t.body
    insertSymbol (Text.lower t.name) (.defined ⟨t.name, body.columns⟩)
    return ⟨t.name, body⟩ :: (← namedTables env rest)

def statement (env : Environment) (s : Statement) : Bind BoundStatement := do
  beginStatement
  match s with
  | .query tables body =>
    pushScope .table
    let tables ← namedTables env tables
    let body ← setExpr env body
    popScope
    return .query tables body
  | .describe c =>
    let (_, columns) ← MonadExcept.ofExcept (env.table c)
    noteLibrary (Text.lower c.schema)
    return .describe s!"Desc{← nextQuery}" c.text columns

def statements (env : Environment) : List Statement → Bind (List BoundStatement)
  | [] => return []
  | s :: rest => do return (← statement env s) :: (← statements env rest)

end Bind

/-- Binds every name of a list of statements. -/
def bind (env : Environment) (statements : List Statement) : Except Error BoundProgram :=
  match (Bind.statements env statements).run .init with
  | .ok bound s => .ok ⟨bound, s.libraries, s.cursors⟩
  | .error e _ => .error e

end TabularQuery
