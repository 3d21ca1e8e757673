import TabularQuery.Column
import TabularQuery.Value

/-!
Rows as a source hands them over, addressed by column name. A row with positions reads a name that
occurs more than once at its last position.
-/

namespace TabularQuery

inductive SourceRow where
  /-- Values in the order of the names of a table's columns. -/
  | positional (names : List String) (values : List Value)
  /-- Values under names of their own, without positions. -/
  | keyed (fields : List (String × Value))
  deriving DecidableEq, Repr

namespace SourceRow

/-- The last position of a name. -/
def lastPosition? (names : List String) (name : String) : Option Nat :=
  (names.zipIdx.reverse.find? fun (n, _) => n = name).map Prod.snd

def hasColumn (name : String) : SourceRow → Bool
  | .positional names _ => names.contains name
  | .keyed fields => (fields.lookup name).isSome

def get? (name : String) : SourceRow → Option Value
  | .positional names values => (lastPosition? names name).bind fun i => values[i]?
  | .keyed fields => fields.lookup name

def getAt? (position : Nat) : SourceRow → Option Value
  | .positional _ values => values[position]?
  | .keyed _ => none

/-- The row in the order of declared columns, each value widened to its column's type. -/
def materialize (columns : List Column) (row : SourceRow) : Except Error (List Value) :=
  columns.mapM fun column =>
    match row.get? column.name with
    | none => .error (.rowColumnMissing column.name)
    | some v => match v.coerce column.type with
      | .ok w => .ok w
      | .error _ => .error (.rowColumnType column.name column.type v.type)

end SourceRow

end TabularQuery
