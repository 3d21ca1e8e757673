import TabularQuery.Source.Schema

/-!
Tables held in memory. Rows are checked, and integers in real columns widened, when a table is
added. Table names are the same in either case.
-/

namespace TabularQuery

structure MemoryTable where
  columns : List Column
  rows : List (List Value)
  deriving Repr

structure MemorySchema where
  name : String
  /-- Tables under their names in lower case. -/
  tables : List (String × MemoryTable)
  catalog : Catalog

namespace MemorySchema

def empty (name : String) : MemorySchema := ⟨name, [], .standard⟩

/-- A row with each value widened to its column's type. -/
def fitValues (table : String) (number : Nat) : List Column → List Value →
    Except Error (List Value)
  | c :: columns, v :: values =>
    match v.coerce c.type with
    | .ok w => (w :: ·) <$> fitValues table number columns values
    | .error _ => .error (.storedRowType number table c.type v.type)
  | _, _ => .ok []

/-- Checks the rows of a table from the one with the given number on. -/
def fitRows (table : String) (columns : List Column) : Nat → List (List Value) →
    Except Error (List (List Value))
  | _, [] => .ok []
  | number, row :: rows => do
    if row.length ≠ columns.length then
      throw (.storedRowWidth number table row.length columns.length)
    let fitted ← fitValues table number columns row
    return fitted :: (← fitRows table columns (number + 1) rows)

/-- Adds a table, in the place of one with the same name. -/
def withTable (s : MemorySchema) (table : String) (columns : List Column)
    (rows : List (List Value)) : Except Error MemorySchema := do
  let rows ← fitRows table columns 0 rows
  let key := Text.lower table
  return { s with tables := s.tables.filter (fun (k, _) => k ≠ key) ++ [(key, ⟨columns, rows⟩)] }

/-- Offers more methods to queries. -/
def withMethods (s : MemorySchema) (methods : Catalog) : MemorySchema :=
  { s with catalog := s.catalog.extend methods }

def table (s : MemorySchema) (method : String) : Except Error MemoryTable :=
  match s.tables.lookup (Text.lower method) with
  | some t => .ok t
  | none => .error (.schemaTableUnknown s.name method)

def toSchema (s : MemorySchema) : Schema where
  name := s.name
  columns _ method _ := MemoryTable.columns <$> s.table method
  rows _ method _ := do
    let t ← s.table method
    return t.rows.map fun row => .row (.positional (t.columns.map Column.name) row)
  catalog := s.catalog

end MemorySchema

end TabularQuery
