import TabularQuery.Program.Basic
import TabularQuery.Program.SelectCode
import TabularQuery.Program.SetCode

/-!
Programs of bound statements. Every query, set operation and description has a procedure and a
table of its own; operands and defined tables come before what reads them.
-/

namespace TabularQuery

structure GenerateState where
  procedures : List Procedure
  tables : List TableDeclaration
  sources : List SourceBinding
  groupings : List GroupingDeclaration
  cursorCount : Nat
  registerCount : Nat
  /-- Tables that the current statement defined, by their names in lower case. -/
  defined : List (String × Nat)

/-- A step of program generation, which may fail. -/
abbrev Generate := EStateM Error GenerateState

namespace Generate

/-- Declares a table and gives its number; the others likewise. -/
def declareTable (name : String) (columns : List Column) : Generate Nat :=
  modifyGet fun s => (s.tables.length, { s with tables := s.tables ++ [⟨name, columns⟩] })

def declareSource (b : SourceBinding) : Generate Nat :=
  modifyGet fun s => (s.sources.length, { s with sources := s.sources ++ [b] })

def declareGrouping (g : GroupingDeclaration) : Generate Nat :=
  modifyGet fun s => (s.groupings.length, { s with groupings := s.groupings ++ [g] })

def newCursor : Generate Nat :=
  modifyGet fun s => (s.cursorCount, { s with cursorCount := s.cursorCount + 1 })

def newRegister : Generate Nat :=
  modifyGet fun s => (s.registerCount, { s with registerCount := s.registerCount + 1 })

def addProcedure (name : String) (code : List Instruction) : Generate Unit :=
  modify fun s => { s with procedures := s.procedures ++ [⟨name, code.toArray⟩] }

def forgetDefined : Generate Unit := modify fun s => { s with defined := [] }

def define (name : String) (table : Nat) : Generate Unit :=
  modify fun s => { s with defined := (Text.lower name, table) :: s.defined }

/-- The number of a defined table. -/
def definedTable (name : String) : Generate Nat := do
  match (← get).defined.lookup (Text.lower name) with
  | some table => return table
  | none => throw (.tableNotGenerated name)

/-- The instruction that opens a source. -/
def opening (s : BoundSource) : Generate Instruction := do
  match s.origin with
  | .schema schema name method args =>
    let b : SourceBinding := ⟨schema, name, method, args, s.columns⟩
    return { opcode := .openSource, p1 := s.cursor, p2 := ← declareSource b,
             comment := some (b.text ++ " " ++ s.aliasName) }
  | .table name =>
    return { opcode := .openTable, p1 := s.cursor, p2 := ← definedTable name,
             comment := some (name ++ " " ++ s.aliasName) }

def openings : List BoundSource → Generate (List Instruction)
  | [] => return []
  | s :: rest => do return (← opening s) :: (← openings rest)

/-- A register for a count, if there is one. -/
def register : Option Int64 → Generate (Option Nat)
  | none => return none
  | some _ => some <$> newRegister

/-- What the groups of a query hold. -/
def groupingDeclaration (q : BoundQuery) (g : Grouping) : GroupingDeclaration where
  keyTypes := g.keys.map TypedExpr.type
  cursors := q.sources.map BoundSource.cursor
  slots := q.slots.map fun s => (s.accumulator.name, s.accumulator.aggregate)

/-- The number of the query's grouping; a query without one needs none. -/
def groupingNumber (q : BoundQuery) : Generate Nat :=
  match q.grouping with
  | none => return 0
  | some g => declareGrouping (groupingDeclaration q g)

/-- Generates a query and gives its table, which has its own name unless another is given. -/
def query (q : BoundQuery) (name : Option String) : Generate Nat := do
  let table ← declareTable (name.getD q.name) (q.fields.map BoundField.column)
  if q.sources.isEmpty then throw (.sourcesMissing q.name)
  let skip ← register q.skip
  let take ← register q.take
  let group ← groupingNumber q
  let opens ← openings q.sources
  addProcedure q.name (q.code ⟨table, skip, take, group, opens⟩)
  return table

def set (s : BoundSet) (name : Option String) : Generate Nat := do
  match s with
  | .query q => query q name
  | .operation op ownName keyId keys left right =>
    let leftTable ← set left none
    let rightTable ← set right none
    let table ← declareTable (name.getD ownName) s.columns
    let leftCursor ← newCursor
    let rightCursor ← if op.copiesRight then newCursor else pure 0
    addProcedure ownName
      (op.code ownName keyId keys ⟨leftTable, rightTable, table, leftCursor, rightCursor⟩)
    return table

def definedTables : List BoundTable → Generate Unit
  | [] => return
  | t :: rest => do
    define t.name (← set t.body (some t.name))
    definedTables rest

/-- The columns of a description. -/
def describeColumns : List Column := [⟨"Name", .text⟩, ⟨"Type", .text⟩]

/-- Generates a statement and gives the table of its result. -/
def statement : BoundStatement → Generate Nat
  | .query tables body => do
    forgetDefined
    definedTables tables
    set body none
  | .describe name source columns => do
    let table ← declareTable name describeColumns
    addProcedure name (describeCode source columns table)
    return table

/-- Generates statements; the result is that of the last one, or `result` if there is none. -/
def statements (result : Option Nat) : List BoundStatement → Generate (Option Nat)
  | [] => return result
  | s :: rest => do statements (some (← statement s)) rest

end Generate

/-- The program of a list of bound statements. -/
def generate (p : BoundProgram) : Except Error Program :=
  match (Generate.statements none p.statements).run ⟨[], [], [], [], p.cursorCount, 0, []⟩ with
  | .ok none _ => .error .programEmpty
  | .ok (some result) s =>
    .ok ⟨s.procedures, s.tables, s.sources, s.groupings, s.cursorCount, s.registerCount, result,
      p.libraries⟩
  | .error e _ => .error e

end TabularQuery
