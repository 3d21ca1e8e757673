import TabularQuery.Method.Catalog
import TabularQuery.Query.Tree

/-!
Expressions after binding: every column is a place in the row of a cursor, every call a function,
every aggregate a slot of the query's groups, and every expression has a type.
-/

namespace TabularQuery

inductive TypedExpr where
  | literal (value : Value)
  /-- The value at `ordinal` in the row of `cursor`. -/
  | column (cursor ordinal : Nat) (name : String) (type : ColumnType)
  /-- A scalar method, or a property if there are no arguments. -/
  | call (function : BoundFunction) (args : List TypedExpr)
  /-- What the accumulator in `slot` of the current group has come to. -/
  | aggregate (slot : Nat) (type : ColumnType)
  | binary (op : BinaryOp) (left right : TypedExpr) (type : ColumnType)
  | unary (op : UnaryOp) (operand : TypedExpr) (type : ColumnType)

namespace TypedExpr

def type : TypedExpr → ColumnType
  | .literal v => v.type
  | .column _ _ _ ty => ty
  | .call f _ => f.result
  | .aggregate _ ty => ty
  | .binary _ _ _ ty => ty
  | .unary _ _ ty => ty

mutual

def hasAggregate : TypedExpr → Bool
  | .literal _ | .column .. => false
  | .call _ args => anyAggregate args
  | .aggregate .. => true
  | .binary _ left right _ => left.hasAggregate || right.hasAggregate
  | .unary _ operand _ => operand.hasAggregate

def anyAggregate : List TypedExpr → Bool
  | [] => false
  | e :: es => e.hasAggregate || anyAggregate es

end

end TypedExpr

/-- The type of a binary operation on operands of the given types, if there is one. -/
def BinaryOp.resultType? (op : BinaryOp) (left right : ColumnType) : Option ColumnType :=
  if op.isArithmetic && left.isNumeric && right.isNumeric then
    some (if left = .integer ∧ right = .integer then .integer else .real)
  else if op = .add ∧ left = .text ∧ right = .text then some .text
  else if op.isComparison && left.kind = right.kind then some .boolean
  else if op = .like ∧ left = .text ∧ right = .text then some .boolean
  else if (op = .and ∨ op = .or) ∧ left = .boolean ∧ right = .boolean then some .boolean
  else none

/-- The type of a unary operation, if there is one. -/
def UnaryOp.resultType? : UnaryOp → ColumnType → Option ColumnType
  | .neg, ty => if ty.isNumeric then some ty else none
  | .not, ty => if ty = .boolean then some ty else none

/-- One aggregate of a query: what each row hands to its accumulator. -/
structure AggregateSlot where
  slot : Nat
  /-- Text of the call; calls of the same text share a slot. -/
  text : String
  accumulator : AccumulatorMethod
  args : List TypedExpr

end TabularQuery
