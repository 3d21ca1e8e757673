import TabularQuery.Machine.State
import TabularQuery.Text.Like

/-!
What instructions do. An instruction tells whether the next one follows, the jump is taken, or the
procedure ends.
-/

namespace TabularQuery

/-- Where a procedure goes on. -/
inductive Flow where
  | next | jump | halt
  deriving DecidableEq, Repr

def Flow.jumpIf (taken : Bool) : Flow := if taken then .jump else .next

namespace Opcode

/-- The orderings for which a comparison holds; of values that have no order none does. -/
def holds : Opcode → Ordering → Bool
  | .eq, o => o = .eq
  | .ne, o => o ≠ .eq
  | .lt, o => o = .lt
  | .le, o => o ≠ .gt
  | .gt, o => o = .gt
  | .ge, o => o ≠ .lt
  | _, _ => false

end Opcode

namespace Machine

/-- Fails for an operand that the opcode cannot have. -/
def refuseOperand (op : Instruction) : MachineAction α :=
  throw (.operandUnexpected op.opcode.name op.operand.described)

def integerOperand (op : Instruction) : MachineAction Int64 :=
  match op.operand with
  | .integer n => return n
  | _ => refuseOperand op

def typeOperand (op : Instruction) : MachineAction ColumnType :=
  match op.operand with
  | .type ty => return ty
  | _ => refuseOperand op

def typesOperand (op : Instruction) : MachineAction (List ColumnType) :=
  match op.operand with
  | .types tys => return tys
  | _ => refuseOperand op

def ordinalsOperand (op : Instruction) : MachineAction (List Nat) :=
  match op.operand with
  | .ordinals columns => return columns
  | _ => refuseOperand op

/-- Pops two numbers and pushes what the operation gives. -/
def arithmetic (f : Number → Number → Except Error Number) : MachineAction Unit := do
  let right ← onFrame Frame.popNumber
  let left ← onFrame Frame.popNumber
  push (← MonadExcept.ofExcept (f left right)).toValue

/-- Pops two values of a kind and compares them. -/
def popOrdering : ValueKind → MachineAction (Option Ordering)
  | .numeric => do
    let right ← onFrame Frame.popNumber
    let left ← onFrame Frame.popNumber
    return left.compare right
  | .text => do
    let right ← onFrame Frame.popText
    let left ← onFrame Frame.popText
    return some (compare left right)
  | .boolean => do
    let right ← onFrame Frame.popBool
    let left ← onFrame Frame.popBool
    return some (compare left right)

def comparison (op : Instruction) : MachineAction Unit := do
  match ValueKind.ofOperand? op.p1 with
  | none => throw (.kindUnknown op.p1)
  | some kind =>
    let ordering ← popOrdering kind
    push (.boolean (ordering.any op.opcode.holds))

/-- Is the key of the cursor's row in the table? -/
def findKey (op : Instruction) : MachineAction Bool := do
  let columns ← ordinalsOperand op
  let row ← currentRow op.p1
  match Key.ofRow? columns row with
  | none => throw (.cursorKey columns op.p1)
  | some key =>
    let t ← table op.p3
    ofTable (t.containsKey columns key)

/-- Does what an instruction says. -/
def exec (ctx : RunContext) (op : Instruction) : MachineAction Flow := do
  match op.opcode with
  | .halt => return .halt
  | .goto => return .jump
  | .ifTrue => return .jumpIf (← onFrame Frame.popBool)
  | .ifNot => return .jumpIf !(← onFrame Frame.popBool)
  | .ifPos =>
    let n ← onFrame (Frame.register op.p1)
    if 0 < n then
      onFrame (Frame.setRegister op.p1 (n - Int64.ofInt op.p3))
      return .jump
    else return .next
  | .ifNotPos => return .jumpIf ((← onFrame (Frame.register op.p1)) ≤ 0)
  | .addImm =>
    let n ← onFrame (Frame.register op.p1)
    onFrame (Frame.setRegister op.p1 (n + Int64.ofInt op.p3))
    return .next
  | .setInteger =>
    let n ← integerOperand op
    onFrame (Frame.setRegister op.p1 n)
    return .next
  | .pushInt =>
    push (.integer (← integerOperand op))
    return .next
  | .pushReal =>
    match op.operand with
    | .real x => push (.real x)
    | _ => refuseOperand op
    return .next
  | .pushText =>
    match op.operand with
    | .text s => push (.text s)
    | _ => refuseOperand op
    return .next
  | .pushBool =>
    push (.boolean (op.p1 ≠ 0))
    return .next
  | .add =>
    arithmetic Number.add
    return .next
  | .subtract =>
    arithmetic Number.sub
    return .next
  | .multiply =>
    arithmetic Number.mul
    return .next
  | .divide =>
    arithmetic Number.div
    return .next
  | .remainder =>
    arithmetic Number.rem
    return .next
  | .negate =>
    let n ← onFrame Frame.popNumber
    push (← MonadExcept.ofExcept n.neg).toValue
    return .next
  | .concat =>
    let right ← onFrame Frame.popText
    let left ← onFrame Frame.popText
    push (.text (left ++ right))
    return .next
  | .eq | .ne | .lt | .le | .gt | .ge =>
    comparison op
    return .next
  | .like =>
    let pattern ← onFrame Frame.popText
    let text ← onFrame Frame.popText
    push (.boolean (Text.like text pattern))
    return .next
  | .not =>
    push (.boolean !(← onFrame Frame.popBool))
    return .next
  | .function =>
    match op.operand with
    | .function f =>
      let args ← onFrame (Frame.popValues f.params)
      push (← MonadExcept.ofExcept (f.function args))
    | _ => refuseOperand op
    return .next
  | .openSource =>
    match item? ctx.program.sources op.p2 with
    | none => throw (.bindingUnknown op.p2)
    | some b =>
      let rows ← MonadExcept.ofExcept (b.schema.rows ctx.sources b.method b.args)
      openCursor op.p1 (.source rows b.columns)
    return .next
  | .openTable =>
    let _ ← table op.p2
    openCursor op.p1 (.table op.p2.toNat 0)
    return .next
  | .next =>
    checkCancelled
    let row ← advance op.p1
    setRow op.p1 row
    return .jumpIf row.isNone
  | .column =>
    let row ← currentRow op.p1
    match item? row op.p2 with
    | some v => push v
    | none => throw (.cursorColumn op.p1 op.p2)
    return .next
  | .resetGroups =>
    let _ ← groupsOf op.p1
    setGroups op.p1 ⟨[], none⟩
    return .next
  | .groupKey =>
    let types ← typesOperand op
    let values ← onFrame (Frame.popValues types)
    enterGroup ctx op.p1 ⟨values, List.range types.length⟩
    return .next
  | .accumulate =>
    let types ← typesOperand op
    let args ← onFrame (Frame.popValues types)
    let (i, group) ← currentGroup op.p1
    let a ← accumulator group op.p2
    let a ← MonadExcept.ofExcept (a.accumulate args)
    let g ← groupsOf op.p1
    let group := { group with accumulators := setItem group.accumulators op.p2 a }
    setGroups op.p1 { g with groups := g.groups.set i group }
    return .next
  | .aggregateValue =>
    let ty ← typeOperand op
    let (_, group) ← currentGroup op.p1
    let a ← accumulator group op.p2
    push (← MonadExcept.ofExcept (a.result.coerce ty))
    return .next
  | .rewindGroups =>
    if (← groupsOf op.p1).groups.isEmpty then return .jump
    else
      selectGroup ctx op.p1 0
      return .next
  | .nextGroup =>
    let g ← groupsOf op.p1
    let following := match g.current with
      | some i => i + 1
      | none => 0
    if following < g.groups.length then
      selectGroup ctx op.p1 following
      return .jump
    else return .next
  | .createTable =>
    match item? ctx.program.tables op.p1 with
    | none => throw (.declarationUnknown op.p1)
    | some d => setTable op.p1 (← ofTable (Table.withColumns d.name d.columns))
    return .next
  | .addIndex =>
    let columns ← ordinalsOperand op
    changeTable op.p1 fun t => t.addIndex columns
    return .next
  | .makeRecord =>
    let types ← typesOperand op
    let values ← onFrame (Frame.popValues types)
    changeTable op.p1 fun t => t.add values
    return .next
  | .found => return .jumpIf (← findKey op)
  | .notFound => return .jumpIf !(← findKey op)
  | .copyRow =>
    let row ← currentRow op.p1
    changeTable op.p3 fun t => t.add row
    return .next

end Machine

end TabularQuery
