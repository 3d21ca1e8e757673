import TabularQuery.Column
import TabularQuery.Table.Index

/-!
Tables: rows in order of insertion under a fixed list of columns, with any number of indexes.
Columns are set once, and a row must fit them exactly: nothing is widened on the way in.
-/

namespace TabularQuery

structure Table where
  name : String
  columns : List Column
  rows : Array (List Value)
  indexes : List Index
  deriving Repr

namespace Table

/-- A table without columns. -/
def empty (name : String) : Table := ⟨name, [], #[], []⟩

/-- Sets the columns of a table that has none; names must differ. -/
def addColumns (t : Table) (columns : List Column) : Except Error Table :=
  if !t.columns.isEmpty then .error (.columnsRegistered t.name)
  else match Column.repeatedName? (columns.map Column.name) with
    | some name => .error (.columnRepeated name t.name)
    | none => .ok { t with columns }

def withColumns (name : String) (columns : List Column) : Except Error Table :=
  (empty name).addColumns columns

/-- The index on exactly these columns. -/
def index? (t : Table) (columns : List Nat) : Option Index :=
  t.indexes.find? fun i => i.columns = columns

/-- An index of the rows that the table has now. -/
def indexOf (t : Table) (columns : List Nat) : Index :=
  (t.rows.toList.zipIdx).foldl (fun i (row, position) => i.insert position row) (.empty columns)

/-- Adds an index; one on the same columns is kept. -/
def addIndex (t : Table) (columns : List Nat) : Except Error Table :=
  match columns.find? fun c => t.columns.length ≤ c with
  | some bad => .error (.columnPositionUnknown t.name bad)
  | none =>
    if (t.index? columns).isSome then .ok t
    else .ok { t with indexes := t.indexes ++ [t.indexOf columns] }

/-- The first column whose type a row does not have. -/
def mismatch? (t : Table) : List Column → List Value → Option Error
  | c :: columns, v :: values =>
    if v.type = c.type then mismatch? t columns values
    else some (.rowType c.name t.name c.type v.type)
  | _, _ => none

/-- Why a row does not fit: its length first, then its first value of a wrong type. -/
def misfit? (t : Table) (row : List Value) : Option Error :=
  if row.length = t.columns.length then t.mismatch? t.columns row
  else some (.rowWidth t.name t.columns.length row.length)

/-- Appends a row. -/
def add (t : Table) (row : List Value) : Except Error Table :=
  match t.misfit? row with
  | some e => .error e
  | none =>
    let position := t.rows.size
    .ok { t with
      rows := t.rows.push row
      indexes := t.indexes.map fun i => i.insert position row }

def column? (t : Table) (name : String) : Option (Nat × Column) := Column.find? t.columns name

/-- The value of a column in the row at `position`. -/
def value? (t : Table) (position : Nat) (name : String) : Option Value := do
  let (ordinal, _) ← t.column? name
  (← t.rows[position]?)[ordinal]?

/-- Positions of the rows with a key, by the index on `columns`. -/
def lookup (t : Table) (columns : List Nat) (key : Key) : Except Error (List Nat) :=
  match t.index? columns with
  | some i => .ok ((i.get? key).getD [])
  | none => .error (.indexUnknown t.name columns)

def containsKey (t : Table) (columns : List Nat) (key : Key) : Except Error Bool :=
  (t.lookup columns key).map fun positions => !positions.isEmpty

end Table

end TabularQuery
