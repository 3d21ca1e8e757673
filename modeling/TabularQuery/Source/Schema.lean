import TabularQuery.Method.Standard
import TabularQuery.Source.Feed
import TabularQuery.Source.Files

/-!
Schemas: families of tables that queries read as `#name.method(arguments)`. A schema tells the
columns of a table, opens its rows, and offers a catalog of methods. A registry finds
schemas by name, the same in either case.
-/

namespace TabularQuery

/-- What a source may depend on when its rows are opened. -/
structure SourceContext where
  files : Files
  chunkSize : Nat

structure Schema where
  /-- Name in messages. -/
  name : String
  /-- Columns of `method(arguments)`. -/
  columns : Files → (method : String) → (arguments : List Value) → Except Error (List Column)
  /-- Opens the rows of `method(arguments)`. -/
  rows : SourceContext → (method : String) → (arguments : List Value) → Except Error RowSource
  /-- Methods for queries that read from this schema. -/
  catalog : Catalog

structure Registry where
  /-- Schemas under their names in lower case. -/
  schemas : List (String × Schema)

namespace Registry

def empty : Registry := ⟨[]⟩

/-- Adds a schema, in the place of one with the same name. -/
def register (r : Registry) (name : String) (schema : Schema) : Registry :=
  let key := Text.lower name
  ⟨r.schemas.filter (fun (k, _) => k ≠ key) ++ [(key, schema)]⟩

/-- Names in order. -/
def names (r : Registry) : List String := (r.schemas.map Prod.fst).mergeSort fun a b => a ≤ b

def schema (r : Registry) (name : String) : Except Error Schema :=
  match r.schemas.lookup (Text.lower name) with
  | some s => .ok s
  | none => .error (.schemaUnknown name)

end Registry

/-! Arguments of table methods, which must be there and have the right type. -/

namespace Schema

def argument (method : String) (arguments : List Value) (i : Nat) : Except Error Value :=
  match arguments[i]? with
  | some v => .ok v
  | none => .error (.argumentMissing method (i + 1) arguments.length)

/-- An argument read by `as?`, of which `wanted` is the type. -/
def typedArgument (as? : Value → Option α) (wanted : ColumnType) (method : String)
    (arguments : List Value) (i : Nat) : Except Error α := do
  let v ← argument method arguments i
  match as? v with
  | some a => .ok a
  | none => .error (.argumentMismatch (i + 1) method wanted v.type)

def textArgument := typedArgument Value.toText? .text
def boolArgument := typedArgument Value.toBool? .boolean
def integerArgument := typedArgument Value.toInt64? .integer

end Schema

end TabularQuery
