import TabularQuery.Plan.Typed
import TabularQuery.Text.Like

/-!
What expressions mean, without a machine: an expression is evaluated in a scene, which has a row for
each cursor and the accumulators of one group. Operands are evaluated from left to right, AND and OR
stop when the left operand decides, and arguments of a call are widened to its parameters.
-/

namespace TabularQuery

/-- What an expression can look at. -/
structure Scene where
  /-- The row of each cursor that has one. -/
  row? : Nat → Option (List Value)
  /-- The accumulators of the current group. -/
  accumulators : List Accumulator

namespace Scene

/-- No rows and no group. -/
def empty : Scene := ⟨fun _ => none, []⟩

/-- The scene with a row for a cursor. -/
def put (s : Scene) (cursor : Nat) (row : List Value) : Scene :=
  { s with row? := fun c => if c = cursor then some row else s.row? c }

@[simp] theorem put_same (s : Scene) (c : Nat) (row : List Value) :
    (s.put c row).row? c = some row := by simp [put]

@[simp] theorem put_other (s : Scene) (c d : Nat) (row : List Value) (h : d ≠ c) :
    (s.put c row).row? d = s.row? d := by simp [put, h]

def column (s : Scene) (cursor ordinal : Nat) : Except Error Value :=
  match s.row? cursor with
  | none => .error (.cursorUnpositioned cursor)
  | some row => match row[ordinal]? with
    | none => .error (.cursorColumn cursor ordinal)
    | some v => .ok v

/-- What an accumulator has come to, as a value of the type that its reader promises. -/
def aggregate (s : Scene) (slot : Nat) (ty : ColumnType) : Except Error Value :=
  match s.accumulators[slot]? with
  | none => .error (.slotUnknown slot)
  | some a => a.result.coerce ty

end Scene

namespace Value

/-- An integer where a real is wanted becomes one; nothing else changes. -/
def widen : ColumnType → Value → Value
  | .real, .integer n => .real (.ofInt64 n)
  | _, v => v

def number? : Value → Option Number
  | .integer n => some (.integer n)
  | .real x => some (.real x)
  | _ => none

end Value

namespace BinaryOp

/-- Does a comparison hold for an ordering of its operands? -/
def holds : BinaryOp → Ordering → Bool
  | .eq => Ordering.isEq
  | .ne => Ordering.isNe
  | .lt => Ordering.isLT
  | .le => Ordering.isLE
  | .gt => Ordering.isGT
  | .ge => Ordering.isGE
  | _ => fun _ => false

def onNumbers? : BinaryOp → Option (Number → Number → Except Error Number)
  | .add => some Number.add
  | .sub => some Number.sub
  | .mul => some Number.mul
  | .div => some Number.div
  | .mod => some Number.rem
  | _ => none

/-- The result of an operation on two values. Values that have no order compare false. -/
def apply (op : BinaryOp) (left right : Value) : Except Error Value :=
  match op, left, right with
  | .add, .text a, .text b => .ok (.text (a ++ b))
  | .like, .text a, .text b => .ok (.boolean (Text.like a b))
  | op, a, b =>
    if op.isComparison then .ok (.boolean ((a.compare b).any op.holds))
    else match op.onNumbers?, a.number?, b.number? with
      | some f, some x, some y => Number.toValue <$> f x y
      | _, _, _ => .error (.binaryMismatch op.symbol a.type b.type)

end BinaryOp

def UnaryOp.apply : UnaryOp → Value → Except Error Value
  | .not, .boolean b => .ok (.boolean !b)
  | op, v => match op, v.number? with
    | .neg, some x => Number.toValue <$> x.neg
    | _, _ => .error (.unaryMismatch op.symbol v.type)

namespace TypedExpr

mutual

/-- The value of an expression in a scene. -/
def eval (s : Scene) : TypedExpr → Except Error Value
  | .literal v => .ok v
  | .column cursor ordinal _ _ => s.column cursor ordinal
  | .call f args => do
    let values ← evalAll s args
    f.function (List.zipWith Value.widen f.params values)
  | .aggregate slot ty => s.aggregate slot ty
  | .binary .and left right _ => do
    if (← left.eval s) = .boolean false then .ok (.boolean false) else right.eval s
  | .binary .or left right _ => do
    if (← left.eval s) = .boolean true then .ok (.boolean true) else right.eval s
  | .binary op left right _ => do
    let l ← left.eval s
    let r ← right.eval s
    op.apply l r
  | .unary op operand _ => do
    let v ← operand.eval s
    op.apply v

/-- The values of expressions, the first one first. -/
def evalAll (s : Scene) : List TypedExpr → Except Error (List Value)
  | [] => .ok []
  | e :: es => do
    let v ← e.eval s
    let vs ← evalAll s es
    .ok (v :: vs)

end

theorem eval_binary {op : BinaryOp} (hop : op ≠ .and ∧ op ≠ .or) (s : Scene)
    (left right : TypedExpr) (ty : ColumnType) :
    (binary op left right ty).eval s =
      (left.eval s >>= fun l => right.eval s >>= fun r => op.apply l r) := by
  cases op <;> simp_all [eval]

theorem eval_logical {op : BinaryOp} {b : Bool} (hop : op = .and ∧ b = false ∨ op = .or ∧ b = true)
    (s : Scene) (left right : TypedExpr) (ty : ColumnType) :
    (binary op left right ty).eval s =
      (left.eval s >>= fun l => if l = .boolean b then .ok (.boolean b) else right.eval s) := by
  rcases hop with ⟨rfl, rfl⟩ | ⟨rfl, rfl⟩ <;> rfl

end TypedExpr

end TabularQuery
