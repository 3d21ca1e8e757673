import TabularQuery.Value

/-!
Aggregates. An accumulator is the state of one aggregate over the rows of one group: each row's
arguments are folded into it, and its result can be read at any time.
-/

namespace TabularQuery

/-- The aggregates that there are. -/
inductive Aggregate where
  | count | sum | average | minimum | maximum | values
  deriving DecidableEq, Repr

/-- The state of an aggregate over the rows seen so far. -/
inductive Accumulator where
  | count (rows : Nat)
  | sum (total : Binary64)
  | average (total : Binary64) (rows : Nat)
  | minimum (least : Option Binary64)
  | maximum (greatest : Option Binary64)
  | values (texts : List String)
  deriving DecidableEq, Repr

/-- The state over no rows. -/
def Aggregate.fresh : Aggregate → Accumulator
  | .count => .count 0
  | .sum => .sum .zero
  | .average => .average .zero 0
  | .minimum => .minimum none
  | .maximum => .maximum none
  | .values => .values []

namespace Accumulator

def argument (method : String) : List Value → Except Error Value
  | v :: _ => .ok v
  | [] => .error (.argumentAbsent method)

def numericArgument (method : String) (args : List Value) : Except Error Binary64 := do
  let v ← argument method args
  match v.toReal? with
  | some x => .ok x
  | none => .error (.argumentNotNumeric method v.type)

/-- Folds the arguments of one row into the state. -/
def accumulate (args : List Value) : Accumulator → Except Error Accumulator
  | .count n => .ok (.count (n + 1))
  | .sum total => do
    let x ← numericArgument "SetSum" args
    return .sum (total.add x)
  | .average total n => do
    let x ← numericArgument "SetAvg" args
    return .average (total.add x) (n + 1)
  | .minimum least => do
    let x ← numericArgument "SetMin" args
    return .minimum (some (least.elim x fun y => y.min x))
  | .maximum greatest => do
    let x ← numericArgument "SetMax" args
    return .maximum (some (greatest.elim x fun y => y.max x))
  | .values texts => do
    let v ← argument "SetAggregateValues" args
    return .values (texts ++ [v.render])

/-- The result over the rows seen so far; over none, the numeric ones are zero. -/
def result : Accumulator → Value
  | .count n => .integer (Int64.ofNat n)
  | .sum total => .real total
  | .average total n => .real (if n = 0 then .zero else total.div (.ofInt64 (Int64.ofNat n)))
  | .minimum least => .real (least.getD .zero)
  | .maximum greatest => .real (greatest.getD .zero)
  | .values texts => .text (",".intercalate texts)

end Accumulator

end TabularQuery
